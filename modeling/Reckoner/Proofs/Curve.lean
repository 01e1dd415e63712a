import Reckoner.Curve
import Reckoner.Proofs.Expression.Normalize
import Reckoner.Proofs.Expression.Substitution
import Reckoner.Proofs.Number.Positional

/-!
# Samples of a curve

A sample replaces the variable in the raw text of a template by a number in parentheses. The text has the outcome of
the template's tree with the variable bound to that very number: the number in parentheses is an atom that reads back
as the number, its parentheses count as the variable does, and no glyph or blank of the template is affected.
-/

namespace Reckoner.Curve

open Expression

set_option autoImplicit false

/-! ## The number in parentheses -/

/-- A numeral with or without a minus sign, in parentheses. -/
def signedGroup (negative : Bool) (n : Numeral) : Phrase Empty .atom :=
  .group (.single (.single (.base (if negative then .minus (.number n) else .bare (.number n)))))

theorem signedGroup_text (negative : Bool) (n : Numeral) :
    (signedGroup negative n).text = '(' :: signedText negative n.text ++ [')'] := by
  cases negative <;> rfl

theorem signedGroup_nesting (negative : Bool) (n : Numeral) : (signedGroup negative n).nesting ≤ 1 := by
  cases negative <;> exact Nat.le_refl 1

theorem signedGroup_value (s : Settings) (negative : Bool) (n : Numeral) (start : Nat) :
    ((signedGroup negative n).treeAt start).value s = .ok (if negative then -n.value else n.value) := by
  cases negative with
  | false => simp [signedGroup, Phrase.tree, Tree.value, Tree.fold, arithmetic]
  | true => simp [signedGroup, Phrase.tree, Tree.value, Tree.fold, arithmetic, bind, Except.bind, pure, Except.pure]

/-- The number of a sample is an atom with that value. -/
theorem literal_reads_back {x : Float} (hx : x.isFinite = true) :
    ∃ q : Phrase Empty .atom, q.text = literal x ∧ q.nesting ≤ 1 ∧ ∀ s start, (q.treeAt start).value s = .ok x := by
  obtain ⟨negative, n, htext, hvalue⟩ := Double.positional_reads_back hx
  refine ⟨signedGroup negative n, ?_, signedGroup_nesting negative n, fun s start => ?_⟩
  · rw [signedGroup_text, literal, htext]
  · rw [signedGroup_value, ← hvalue]

/-! ## The text of a sample -/

theorem glyph_not_mem {V : Type} {l : Level} (p : Phrase V l) : ∀ c ∈ glyphHeads, c ∉ p.text := by
  have hheads : ∀ c ∈ glyphHeads, 128 ≤ c.toNat := by simp [glyphHeads]
  intro c hc hmem
  have hlt := p.ascii c hmem
  have hge := hheads c hc
  omega

/-- The normal form of a sample's text is the template's with the number plugged in. -/
theorem trim_normalize_substitute {template : List Char} {x : Float} (p : Phrase Unit (.chain .sum))
    (htext : p.text = Text.trim (Expression.normalize template)) {q : Phrase Empty .atom} (hq : q.text = literal x) :
    Text.trim (Expression.normalize (substitute template x)) = (p.subst q).text := by
  have hroot : '√' ∉ Expression.normalize template := fun hmem => glyph_not_mem p '√' (by decide) (by
    rw [htext]
    exact Text.mem_of_mem_trimBy hmem (by decide))
  have hplug : Expression.normalize (Text.plugIn 'x' q.text template) =
      Text.plugIn 'x' q.text (Expression.normalize template) :=
    normalize_plugIn (by decide) (by decide) (by decide) (glyph_not_mem q) template hroot
  have hhead : ∃ c rest, q.text = c :: rest ∧ Text.isBlank c = false := ⟨'(', _, hq, by decide⟩
  have hlast : ∃ c rest, q.text.reverse = c :: rest ∧ Text.isBlank c = false :=
    ⟨')', ('(' :: Double.positional x).reverse, by rw [hq, literal, List.reverse_append]; rfl, by decide⟩
  have hsubstitute : substitute template x = Text.plugIn 'x' q.text template := by
    rw [hq]
    rfl
  rw [hsubstitute, hplug, Text.trim, Text.trimBy_plugIn (by decide) hhead hlast, Phrase.text_subst, htext]
  rfl

/-- Evaluating a sample's text agrees with the template's tree at the number. -/
theorem evaluateChars_substitute {s : Settings} {template : List Char} {x : Float} (hx : x.isFinite = true)
    (p : Phrase Unit (.chain .sum)) (htext : p.text = Text.trim (Expression.normalize template))
    (hnesting : p.nesting ≤ nestingLimit) :
    Agree ((p.tree (fun _ => x) 0).value s) (evaluateChars s (substitute template x)) := by
  obtain ⟨q, hq, hqnesting, hqvalue⟩ := literal_reads_back hx
  have hnormal := trim_normalize_substitute p htext hq
  have hvalue := Phrase.value_subst (hqvalue s) p 0 0
  have hfits : (p.subst q).nesting ≤ nestingLimit := (Phrase.nesting_subst hqnesting p).trans hnesting
  obtain ⟨hok, herror⟩ := parse_of_recognize (m := arithmetic s) (recognize_text (p.subst q) hfits)
  rw [evaluateChars_eq s (by rw [hnormal]; exact (p.subst q).text_ne_nil), hnormal]
  cases houtcome : ((p.subst q).treeAt 0).value s with
  | ok y =>
    rw [hok y houtcome]
    rwa [houtcome] at hvalue
  | error failure =>
    obtain ⟨c, hc⟩ := herror failure houtcome
    rw [hc]
    rwa [houtcome] at hvalue

/--
Plugging a number into the text of a template is binding the variable to it: the text has the same value, or fails in
the same way apart from positions, and the sample is present exactly where the tree has a finite value, which it shows.
-/
theorem samplePoint_spec (s : Settings) (template : List Char) (x : Float) (hx : x.isFinite = true)
    (p : Phrase Unit (.chain .sum)) (htext : p.text = Text.trim (Expression.normalize template))
    (hnesting : p.nesting ≤ nestingLimit) :
    Agree ((p.tree (fun _ => x) 0).value s) (evaluateChars s (substitute template x)) ∧
      ∀ y, (samplePoint s template x).y = some y ↔ (p.tree (fun _ => x) 0).value s = .ok y ∧ y.isFinite = true := by
  have hagree := evaluateChars_substitute (s := s) hx p htext hnesting
  refine ⟨hagree, fun y => ?_⟩
  unfold samplePoint
  generalize (p.tree (fun _ => x) 0).value s = first at hagree ⊢
  generalize evaluateChars s (substitute template x) = second at hagree ⊢
  cases hagree with
  | value z =>
    simp only [Double.finite?, Except.ok.injEq]
    split
    · next hz =>
      simp only [Option.some.injEq]
      exact ⟨fun heq => ⟨heq, heq ▸ hz⟩, fun h => h.1⟩
    · next hz =>
      simp only [reduceCtorEq, false_iff, not_and]
      rintro rfl
      exact hz
  | failure f g kind_eq message_eq => simp

/-- A sample of a negated variable is the negated number. -/
theorem samplePoint_spec_minus :
    (3 : Float).isFinite = true ∧
      Agree (Tree.value {} (.negate (.number 3))) (evaluateChars {} (substitute [' ', '−', 'x'] 3)) :=
  ⟨rfl, (samplePoint_spec {} [' ', '−', 'x'] 3 rfl (.single (.single (.base (.minus (.unknown ())))))
    (by simp [Expression.normalize, glyphs, Text.replaceAll, Phrase.text]; rfl) (by decide)).1⟩

end Reckoner.Curve
