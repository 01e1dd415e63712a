import Reckoner.Proofs.Expression.Glyphs
import Reckoner.Proofs.Number.Special
import Reckoner.Proofs.Session.Coherence

/-!
# The sign key

The sign key works on the typed text as it stands and knows the plain minus sign only, while an expression may as well begin
with the minus glyph. A number that is typed alone or behind a plain minus sign is negated. In front of a glyph the key puts
a second sign, which is no expression. Pressed again the key brings back the text in all cases.
-/

namespace Reckoner

set_option autoImplicit false

namespace Expression

/-! ## Numbers behind a sign -/

/-- What may stand in front of a typed number. -/
inductive Lead where
  | nothing
  | minus
  | glyph
  deriving DecidableEq, Repr

def Lead.text : Lead → List Char
  | .nothing => []
  | .minus => ['-']
  | .glyph => ['−']

def Lead.value : Lead → Float → Float
  | .nothing, x => x
  | .minus, x => -x
  | .glyph, x => -x

theorem normalize_minus_cons (text : List Char) : normalize ('-' :: text) = '-' :: normalize text := by
  have hplain : ∀ glyph ∈ glyphs, ∀ c ∈ glyph.1.head?, c ∉ ['-'] := by simp [glyphs]
  exact normalize_plain_append hplain text

theorem normalize_glyph_cons (text : List Char) : normalize ('−' :: text) = normalize ('-' :: text) := by
  have hglyph : (['−'], ['-']) ∈ glyphs := by simp [glyphs]
  rw [normalize_minus_cons]
  exact normalize_glyph_append hglyph text

theorem evaluateChars_eq_of_normalize {first second : List Char} (h : normalize first = normalize second) (s : Settings) :
    evaluateChars s first = evaluateChars s second := by
  rw [← evaluateChars_normalize s first, h, evaluateChars_normalize]

theorem evaluateChars_lead (s : Settings) (lead : Lead) (n : Numeral) :
    evaluateChars s (lead.text ++ n.text) = .ok (lead.value n.value) := by
  have hbare : evaluateChars s n.text = .ok n.value := by
    simpa [signedText] using evaluateChars_signedNumeral s false n
  have hminus : evaluateChars s ('-' :: n.text) = .ok (-n.value) := by
    simpa [signedText] using evaluateChars_signedNumeral s true n
  cases lead with
  | nothing => exact hbare
  | minus => exact hminus
  | glyph => exact (evaluateChars_eq_of_normalize (normalize_glyph_cons n.text) s).trans hminus

theorem evaluateChars_minus_glyph (s : Settings) (n : Numeral) :
    evaluateChars s ('-' :: '−' :: n.text) = .error (.malformed .missingNumber 1) := by
  have hnormal : normalize ('-' :: '−' :: n.text) = normalize ('-' :: '-' :: n.text) := by
    rw [normalize_minus_cons, normalize_glyph_cons, ← normalize_minus_cons]
  rw [evaluateChars_eq_of_normalize hnormal, evaluateChars_two_minuses s n.visible]

end Expression

namespace Session

open Expression

variable {t : Session} {rest : List Char}

/-! ## One press -/

theorem press_sign_of_minus (h : t.expression = '-' :: rest) : t.press "±" = { t with expression := rest }.preview := by
  have hedit : t.toggleSign = { t with expression := rest } := by
    simp only [toggleSign, h]
  change t.toggleSign.preview = _
  rw [hedit]

theorem press_sign_of_head (hne : t.expression ≠ []) (h : t.expression.head? ≠ some '-') :
    t.press "±" = { t with expression := '-' :: t.expression }.preview := by
  have hedit : t.toggleSign = { t with expression := '-' :: t.expression } := by
    unfold toggleSign
    split
    · next hnil => exact absurd hnil hne
    · next hminus =>
      rw [hminus] at h
      exact absurd rfl h
    · rfl
  change t.toggleSign.preview = _
  rw [hedit]

/-! ## Typed numbers -/

section
variable {n : Numeral}

theorem head_numeral_ne_minus (n : Numeral) : n.text.head? ≠ some '-' := by
  obtain ⟨c, rest, htext, hc⟩ := n.text_cons
  rw [htext]
  rintro ⟨⟩
  exact absurd hc (by decide)

/-- In front of a bare number the key puts a minus sign, and it takes it away again. -/
theorem press_sign_bare (h : t.expression = n.text) :
    t.press "±" = t.showing ('-' :: n.text) (-n.value) := by
  have hne : t.expression ≠ [] := h ▸ n.text_ne_nil
  rw [press_sign_of_head hne (h ▸ head_numeral_ne_minus n), h]
  exact preview_edited (List.cons_ne_nil _ _) (evaluateChars_lead _ .minus n)

theorem press_sign_minus (h : t.expression = '-' :: n.text) : t.press "±" = t.showing n.text n.value := by
  rw [press_sign_of_minus h]
  exact preview_edited n.text_ne_nil (evaluateChars_lead _ .nothing n)

/-- In front of a glyph the key puts a second sign, and the preview finds no number behind the first. -/
theorem press_sign_glyph (h : t.expression = '−' :: n.text) :
    t.press "±" = { t with
      expression := '-' :: '−' :: n.text, failure := none, previewFailure := some (.malformed .missingNumber 1) } := by
  rw [press_sign_of_head (by simp [h]) (by simp [h]), h]
  exact preview_of_error (t := { t with expression := '-' :: '−' :: n.text }) (List.cons_ne_nil _ _)
    (evaluateChars_minus_glyph _ n)

theorem press_sign_twice {lead : Lead} (h : t.expression = lead.text ++ n.text) :
    (t.press "±").press "±" = t.showing t.expression (lead.value n.value) := by
  cases lead with
  | nothing =>
    rw [press_sign_bare h, press_sign_minus rfl, h]
    rfl
  | minus =>
    rw [press_sign_minus h, press_sign_bare rfl, h]
    rfl
  | glyph =>
    rw [press_sign_glyph h, press_sign_of_minus rfl, h]
    exact preview_edited (List.cons_ne_nil _ _) (evaluateChars_lead _ .glyph n)

end

/-- What the sign key does to a number `x` that is typed behind the lead. -/
structure SignLaw (t : Session) (lead : Lead) (x : Float) : Prop where
  value : t.outcome = .ok x
  negated : lead ≠ .glyph → (t.press "±").Shows (-x)
  doubled : lead = .glyph → t.press "±" = { t with
    expression := '-' :: t.expression, failure := none, previewFailure := some (.malformed .missingNumber 1) }
  again : (t.press "±").press "±" = t.showing t.expression x ∧ ((t.press "±").press "±").Shows x

/--
A typed number has its value, and the sign key negates it exactly unless its minus sign is the glyph: then the text has two
signs, which is a syntax error behind the first one, and the display stays. A second press brings back the text and its value.
-/
theorem press_sign {t : Session} {lead : Lead} {n : Numeral} (h : t.expression = lead.text ++ n.text) :
    SignLaw t lead (lead.value n.value) where
  value := by
    rw [outcome, h]
    exact evaluateChars_lead t.settings lead n
  negated hlead := by
    cases lead with
    | nothing =>
      rw [press_sign_bare h]
      exact showing_shows (List.cons_ne_nil _ _) (evaluateChars_lead _ .minus n)
    | minus =>
      rw [press_sign_minus h, Lead.value, Double.neg_twice]
      exact showing_shows n.text_ne_nil (evaluateChars_lead _ .nothing n)
    | glyph => exact absurd rfl hlead
  doubled hlead := by
    subst hlead
    rw [press_sign_glyph h, h]
    rfl
  again := by
    have hne : t.expression ≠ [] := by
      rw [h]
      exact List.append_ne_nil_of_right_ne_nil _ n.text_ne_nil
    have hvalue : evaluateChars t.settings t.expression = .ok (lead.value n.value) := by
      rw [h]
      exact evaluateChars_lead t.settings lead n
    rw [press_sign_twice h]
    exact ⟨rfl, showing_shows hne hvalue⟩

/-- One, typed behind the glyph. -/
theorem press_sign_glyph_one :
    ((start {}).pressAll ["−", "1"]).expression = Lead.glyph.text ++ Numeral.one.text ∧
      SignLaw ((start {}).pressAll ["−", "1"]) .glyph (Lead.value .glyph Numeral.one.value) :=
  have htyped : ((start {}).pressAll ["−", "1"]).expression = Lead.glyph.text ++ Numeral.one.text := by decide +kernel
  ⟨htyped, press_sign htyped⟩

/-- A number behind the glyph that the key does not negate. -/
theorem not_negated_glyph :
    ((start {}).pressAll ["−", "5"]).expression = ['−', '5'] ∧ ((start {}).pressAll ["−", "5"]).outcome = .ok (-5) ∧
      ((start {}).pressAll ["−", "5", "±"]).outcome ≠ .ok 5 := by
  decide +kernel

end Session

end Reckoner
