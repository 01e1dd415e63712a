import Reckoner.Expression.Evaluate
import Reckoner.Proofs.Text.Replace

/-!
# Replacing the glyphs of a typed text

A text without glyphs stays as it is, so a text that holds nothing but blanks stays blank. Replacing the glyphs
commutes with plugging in a text without glyphs, as long as no root sign is left over: a root sign in front of the
variable would open a call only afterwards.
-/

namespace Reckoner.Expression

set_option autoImplicit false

def glyphHeads : List Char := ['×', '÷', '−', '√', 'π']

theorem normalize_of_plain {text : List Char} (h : ∀ c ∈ glyphHeads, c ∉ text) : normalize text = text := by
  simp only [normalize, glyphs, List.foldl_cons, List.foldl_nil]
  rw [Text.replaceAll_of_not_mem (h '×' (by decide)), Text.replaceAll_of_not_mem (h '÷' (by decide)),
    Text.replaceAll_of_not_mem (h '−' (by decide)), Text.replaceAll_of_not_mem (h '√' (by decide)),
    Text.replaceAll_of_not_mem (h 'π' (by decide))]

theorem normalize_plugIn {name : Char} {value : List Char} (hname : name.toNat < 128)
    (hreplacement : ∀ glyph ∈ glyphs, name ∉ glyph.2) (hopen : name ≠ '(') (hvalue : ∀ c ∈ glyphHeads, c ∉ value)
    (text : List Char) (hroot : '√' ∉ normalize text) :
    normalize (Text.plugIn name value text) = Text.plugIn name value (normalize text) := by
  have hheads : ∀ c ∈ glyphHeads, 128 ≤ c.toNat := by simp [glyphHeads]
  have hne : ∀ c ∈ glyphHeads, c ≠ name := by
    rintro c hc rfl
    exact absurd (hheads c hc) (by omega)
  simp only [normalize, glyphs, List.foldl_cons, List.foldl_nil] at hroot ⊢
  rw [Text.replaceAll_plugIn (hne '×' (by decide)) (hvalue '×' (by decide)) (hreplacement (['×'], ['*']) (by decide)),
    Text.replaceAll_plugIn (hne '÷' (by decide)) (hvalue '÷' (by decide)) (hreplacement (['÷'], ['/']) (by decide)),
    Text.replaceAll_plugIn (hne '−' (by decide)) (hvalue '−' (by decide)) (hreplacement (['−'], ['-']) (by decide)),
    Text.replaceAll_pair_plugIn (hne '√' (by decide)) hopen.symm (hvalue '√' (by decide))
      (hreplacement (['√', '('], ['s', 'q', 'r', 't', '(']) (by decide)) _ fun hmem =>
        hroot (Text.mem_replaceAll_of_ne (by decide) hmem),
    Text.replaceAll_plugIn (hne 'π' (by decide)) (hvalue 'π' (by decide)) (hreplacement (['π'], ['p', 'i']) (by decide))]

/-- The empty text has a value, so it does not fail. -/
theorem ne_nil_of_error {s : Settings} {text : List Char} {failure : Failure} (h : evaluateChars s text = .error failure) :
    text ≠ [] := by
  rintro rfl
  exact absurd h (by simp [evaluateChars, isBlankText])

/-- A text whose normal form holds more than blanks is parsed. -/
theorem evaluateChars_eq (s : Settings) {text : List Char} (h : Text.trim (normalize text) ≠ []) :
    evaluateChars s text =
      match parse (arithmetic s) (Text.trim (normalize text)) with
      | .ok (value, _) => .ok value
      | .error halt => .error halt.failure := by
  have hblank : isBlankText text = false := by
    rw [Bool.eq_false_iff]
    intro hall
    rw [isBlankText, List.all_eq_true] at hall
    have hheads : ∀ c ∈ glyphHeads, Text.isBlank c = false := by simp [glyphHeads, Text.isBlank, Text.isWhiteSpace]
    have hplain : normalize text = text := normalize_of_plain fun c hc hmem => by
      have htrue := hall c hmem
      rw [hheads c hc] at htrue
      exact absurd htrue Bool.false_ne_true
    exact h (by rw [hplain]; exact Text.trimBy_eq_nil hall)
  rw [evaluateChars, hblank]
  rfl

end Reckoner.Expression
