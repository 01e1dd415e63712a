import Reckoner.Proofs.Expression.Calls
import Reckoner.Proofs.Expression.Evaluate
import Reckoner.Proofs.Expression.Glyphs
import Reckoner.Proofs.Number.Special
import Reckoner.Proofs.Text.Words

/-!
# Where the angle unit matters

Under the angle unit only six of the functions change, and the names of all six end in one of three words. A text without
these words calls none of the six, and neither does any text that numbers in place of the variable make of it. Such a text and
its curves do not depend on the settings at all.
-/

namespace Reckoner

set_option autoImplicit false

namespace Expression

/-- The ends of the names of the functions that look at the angle unit. -/
def angleWords : List (List Char) := [['s', 'i', 'n'], ['c', 'o', 's'], ['t', 'a', 'n']]

/-- One of the words stands in the text, in capitals or small letters; only ASCII characters have these small letters. -/
def Angular (text : List Char) : Prop :=
  ∃ word ∈ angleWords, word <:+: Text.lower text

instance (text : List Char) : Decidable (Angular text) :=
  inferInstanceAs (Decidable (∃ word ∈ angleWords, word <:+: Text.lower text))

/-- One of the words stands in front of an opening parenthesis. -/
def OpensAngle (text : List Char) : Prop :=
  ∃ word ∈ angleWords, word ++ ['('] <:+: Text.lower text

variable {text : List Char}

theorem OpensAngle.angular (h : OpensAngle text) : Angular text :=
  let ⟨word, hword, hpart⟩ := h
  ⟨word, hword, (List.prefix_append word ['(']).isInfix.trans hpart⟩

/-! ## Functions -/

/-- A function follows the angle unit only if its name ends in one of the words. -/
theorem apply_same_or_angular (s t : Settings) (f : Function) :
    f.apply s = f.apply t ∨ ∃ word ∈ angleWords, word <:+ f.name.toList := by
  cases f
  case asin | acos | atan | sin | cos | tan => exact Or.inr (by decide)
  case log | ln | sqrt | abs | ceil | floor | round => exact Or.inl rfl

theorem Called.opensAngle {f : Function} (h : Called f text) {word : List Char} (hword : word ∈ angleWords)
    (hend : word <:+ f.name.toList) : OpensAngle text := by
  obtain ⟨name, hname⟩ := h
  obtain ⟨front, hfront⟩ := hend
  have hlower : front ++ (word ++ ['(']) <:+: Text.lower text := by
    rw [← List.append_assoc, hfront, ← name.spells]
    have hmap := hname.map Char.toLower
    rwa [List.map_append] at hmap
  exact ⟨word, hword, (List.suffix_append front _).isInfix.trans hlower⟩

/-- Without such a call the settings do not matter. -/
theorem evaluateChars_eq_of_not_opensAngle (s t : Settings) (h : ¬ OpensAngle (normalize text)) :
    evaluateChars s text = evaluateChars t text := by
  have hcall : ∀ f, Called f (Text.trim (normalize text)) → (arithmetic s).call f = (arithmetic t).call f := by
    intro f hcalled
    rcases apply_same_or_angular s t f with hsame | ⟨word, hword, hend⟩
    · funext x
      change (f.apply s x).mapError _ = (f.apply t x).mapError _
      rw [hsame]
    · obtain ⟨front, back, hsplit, -, -⟩ := Text.trimBy_split Text.isBlank (normalize text)
      have hinside : Text.trim (normalize text) <:+: normalize text :=
        ⟨front, back, (List.append_assoc ..).trans hsplit.symm⟩
      exact absurd ((hcalled.of_infix hinside).opensAngle hword hend) h
  have hparse : parse (arithmetic s) (Text.trim (normalize text)) = parse (arithmetic t) (Text.trim (normalize text)) :=
    parse_congr_of_called hcall
  rw [evaluateChars, hparse, evaluateChars]

/-! ## Words and glyphs -/

theorem OpensAngle.of_normalize (h : OpensAngle (normalize text)) : OpensAngle text := by
  obtain ⟨word, hword, hpart⟩ := h
  have hapart : ∀ word ∈ angleWords, ∀ glyph ∈ glyphs, Text.Apart (word ++ ['(']) (Text.lower glyph.2) := by decide
  rw [normalize_eq_together] at hpart
  exact ⟨word, hword, Text.infix_of_infix_together glyph_ne_nil (hapart word hword) hpart⟩

theorem Angular.normalize (h : Angular text) : Angular (normalize text) := by
  obtain ⟨word, hword, hpart⟩ := h
  have hapart : ∀ word ∈ angleWords, ∀ glyph ∈ glyphs, ∀ c ∈ glyph.1, c.toLower ∉ word := by
    simp [angleWords, glyphs]
  rw [normalize_eq_together]
  exact ⟨word, hword, Text.infix_together glyph_ne_nil (hapart word hword) hpart⟩

end Expression

/-! ## Numbers in place of the variable -/

namespace Curve

open Expression

theorem substitute_eq_together (template : List Char) (x : Float) :
    substitute template x = Text.replaceTogether [(['x'], literal x)] template := by
  have hne : ∀ rule ∈ [((['x'], literal x) : Text.Rule)], rule.1 ≠ [] := by simp
  induction template using Text.together_induction [(['x'], literal x)] with
  | nil => exact Text.replaceTogether_nil.symm
  | rule rule behind hrule hstanding ih =>
    rw [Text.replaceTogether_rule (hne rule hrule) hstanding, ← ih]
    obtain rfl := List.mem_singleton.mp hrule
    rfl
  | char c rest hnone ih =>
    have hc : c ≠ 'x' := by
      rintro rfl
      exact Text.standing?_eq_none_iff.mp hnone _ List.mem_cons_self ⟨rest, rfl⟩
    rw [Text.replaceTogether_char hnone, ← ih]
    simp [substitute, hc]
  | hne rule hrule => exact hne rule hrule

theorem toNat_le_of_mem_literal {x : Float} (hx : x.isFinite = true) : ∀ c ∈ literal x, c.toNat ≤ 57 := by
  obtain ⟨negative, n, htext, -⟩ := Double.positional_reads_back hx
  have hn : ∀ c ∈ n.text, c.toNat ≤ 57 := fun c hc => toNat_le_of_isNumeral (n.all_numeral c hc)
  rw [literal, htext]
  have hsigned : ∀ c ∈ signedText negative n.text, c.toNat ≤ 57 := by
    cases negative
    · exact hn
    · exact List.forall_mem_cons.mpr ⟨by decide, hn⟩
  exact List.forall_mem_cons.mpr ⟨by decide, List.forall_mem_append.mpr ⟨hsigned, by simp⟩⟩

/-- No number that is written for the variable has a part in one of the words. -/
theorem literal_apart (x : Float) : ∀ word ∈ angleWords, Text.Apart word (Text.lower (literal x)) := by
  by_cases hx : x.isFinite = true
  · intro word hword
    refine Text.apart_of_disjoint ?_ (List.cons_ne_nil _ _) fun c hc hmem => ?_
    · have hne : ∀ word ∈ angleWords, word ≠ [] := by decide
      exact hne word hword
    · have hletters : ∀ word ∈ angleWords, ∀ c ∈ word, 97 ≤ c.toNat := by simp [angleWords]
      obtain ⟨d, hd, rfl⟩ := List.mem_map.mp hmem
      have hlow := toNat_le_of_mem_literal hx d hd
      have hhigh := hletters word hword _ hc
      rw [toLower_of_not_capital (by omega)] at hhigh
      omega
  · rcases Double.special_of_not_isFinite (Bool.not_eq_true _ ▸ hx) with rfl | ⟨negative, rfl⟩
    · decide +kernel
    · cases negative <;> decide +kernel

/-- A sample's text calls a function of angles only if the template has one of the words in it. -/
theorem angular_of_substitute {template : List Char} {x : Float} (h : OpensAngle (normalize (substitute template x))) :
    Angular (normalize template) := by
  obtain ⟨word, hword, hpart⟩ := h.of_normalize.angular
  rw [substitute_eq_together] at hpart
  refine Angular.normalize ⟨word, hword, Text.infix_of_infix_together (by simp) ?_ hpart⟩
  simpa using literal_apart x word hword

/-- A number may complete a root sign and with it a word, but never one that opens a parenthesis. -/
example : ¬ Angular (normalize ['c', 'o', '√', 'x']) ∧ Angular (normalize (substitute ['c', 'o', '√', 'x'] 0)) := by
  decide +kernel

end Curve

/--
Of the settings an evaluation looks at the angle unit only, and a text without a word of angles does not depend on any of
them: not its value or failure, and not its curves on any domain.
-/
theorem Expression.evaluate_independent_of_settings (s t : Settings) (text : String) :
    (s.usesDegrees = t.usesDegrees → evaluate s text = evaluate t text) ∧
      (¬ Angular (normalize text.toList) → evaluate s text = evaluate t text ∧
        ∀ xMin xMax count, Curve.outcome s text.toList xMin xMax count = Curve.outcome t text.toList xMin xMax count) := by
  refine ⟨fun hunit => evaluate_congr hunit text, fun hplain => ⟨?_, Curve.outcome_eq_of_samples fun x => ?_⟩⟩
  · exact evaluateChars_eq_of_not_opensAngle s t fun hopens => hplain hopens.angular
  · have hsample := evaluateChars_eq_of_not_opensAngle s t fun hopens => hplain (Curve.angular_of_substitute (x := x) hopens)
    rw [Curve.samplePoint, hsample, Curve.samplePoint]

/-- A curve of a logarithm is the same under degrees and under radians with other digits. -/
theorem Expression.evaluate_independent_of_settings_logarithm :
    ¬ Angular (normalize "log(x)".toList) ∧
      Curve.outcome {} "log(x)".toList 1 100 9 =
        Curve.outcome { angleUnit := .radians, precision := 3, thousandsSeparator := false } "log(x)".toList 1 100 9 :=
  have hplain : ¬ Angular (normalize "log(x)".toList) := by decide +kernel
  ⟨hplain, ((evaluate_independent_of_settings _ _ "log(x)").2 hplain).2 1 100 9⟩

end Reckoner
