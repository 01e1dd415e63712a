import Reckoner.Proofs.Expression.Numeral
import Reckoner.Proofs.Number.Tidy

/-!
# Enclosed expressions

Parentheses around a whole expression change nothing but the depth of nesting. So the positional text of a finite double
evaluates to the double, with any number of parentheses around it that the nesting limit allows.
-/

namespace Reckoner.Expression

set_option autoImplicit false

/-- A text in so many pairs of parentheses. -/
def enclosed (count : Nat) (text : List Char) : List Char :=
  List.replicate count '(' ++ text ++ List.replicate count ')'

/-- A sentence in so many groups. -/
def grouped (p : Sentence) : Nat → Sentence
  | 0 => p
  | count + 1 => .single (.single (.base (.bare (.group (grouped p count)))))

theorem grouped_text (p : Sentence) (count : Nat) : (grouped p count).text = enclosed count p.text := by
  induction count with
  | zero => simp [grouped, enclosed]
  | succ count ih =>
    change '(' :: (grouped p count).text ++ [')'] = _
    rw [ih, enclosed, enclosed, List.replicate_succ, List.replicate_succ']
    simp

theorem grouped_nesting (p : Sentence) (count : Nat) : (grouped p count).nesting = p.nesting + count := by
  induction count with
  | zero => rfl
  | succ count ih => exact congrArg (· + 1) ih

theorem grouped_value (s : Settings) (p : Sentence) (count start : Nat) :
    ((grouped p count).treeAt start).value s = (p.treeAt (start + count)).value s := by
  induction count generalizing start with
  | zero => rfl
  | succ count ih =>
    have hstart : start + (count + 1) = start + 1 + count := by omega
    rw [hstart]
    exact ih (start + 1)

theorem visible_enclosed {text : List Char} (count : Nat) (h : Visible text) : Visible (enclosed count text) := by
  refine List.forall_mem_append.mpr ⟨List.forall_mem_append.mpr ⟨fun c hc => ?_, h⟩, fun c hc => ?_⟩
  · rw [List.eq_of_mem_replicate hc]
    decide
  · rw [List.eq_of_mem_replicate hc]
    decide

/-- A signed numeral in parentheses evaluates to its value, as many of them as the nesting limit allows. -/
theorem evaluateChars_enclosed (s : Settings) (negative : Bool) (n : Numeral) {count : Nat} (h : count ≤ nestingLimit) :
    evaluateChars s (enclosed count (signedText negative n.text)) = .ok (if negative then -n.value else n.value) := by
  have hnormal := trim_normalize_of_visible (visible_enclosed count (visible_signedText negative n.visible))
  have htext : (grouped (signedNumeral negative n) count).text = enclosed count (signedText negative n.text) := by
    rw [grouped_text, signedNumeral_text]
  have hfits : (grouped (signedNumeral negative n) count).nesting ≤ nestingLimit := by
    rw [grouped_nesting, signedNumeral_nesting, Nat.zero_add]
    exact h
  have hvalue := (grouped_value s (signedNumeral negative n) count 0).trans (signedNumeral_value s negative n _)
  have hparse := parse_of_sentence (m := arithmetic s) hfits hvalue
  rw [evaluateChars_eq s (by rw [hnormal, ← htext]; exact Phrase.text_ne_nil _), hnormal, ← htext, hparse]

/--
The positional text of a finite double is tidy behind its sign, and evaluates to the double bit for bit, alone and in up to
64 pairs of parentheses.
-/
theorem evaluate_positional {x : Float} (hx : x.isFinite = true) :
    (∃ text, Double.positional x = signedText (Double.isNegative x) text ∧ Tidy text) ∧
      ∀ s : Settings, evaluate s (String.ofList (Double.positional x)) = .ok x ∧
        ∀ count ≤ 64, evaluate s (String.ofList (enclosed count (Double.positional x))) = .ok x := by
  refine ⟨Double.positional_eq_tidy hx, fun s => ⟨?_, fun count hcount => ?_⟩⟩
  · rw [evaluate, String.toList_ofList]
    exact evaluateChars_positional s hx
  · obtain ⟨negative, n, htext, hvalue⟩ := Double.positional_reads_back hx
    rw [evaluate, String.toList_ofList, htext, evaluateChars_enclosed s negative n hcount, ← hvalue]

/-- The zero with a sign keeps it in 64 pairs of parentheses. -/
theorem evaluate_positional_negative_zero :
    (Double.zero true).isFinite = true ∧ Double.positional (Double.zero true) = ['-', '0'] ∧ Tidy ['0'] ∧
      evaluate {} (String.ofList (enclosed 64 (Double.positional (Double.zero true)))) = .ok (Double.zero true) := by
  have hfinite : (Double.zero true).isFinite = true := rfl
  have htext : Double.positional (Double.zero true) = ['-', '0'] := rfl
  obtain ⟨⟨text, hsigned, htidy⟩, hevaluate⟩ := evaluate_positional hfinite
  have hzero : text = ['0'] := (List.cons.inj (htext.symm.trans hsigned)).2.symm
  exact ⟨hfinite, htext, hzero ▸ htidy, (hevaluate {}).2 64 le_rfl⟩

end Reckoner.Expression
