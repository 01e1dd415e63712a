import Mathlib.Logic.Function.Iterate
import Reckoner.Proofs.Number.Arithmetic
import Reckoner.Proofs.Session.Coherence

/-!
# The percent key

The percent key evaluates the expression, writes the hundredth of the value in its place and evaluates that again. The text
of a finite double reads back bit for bit, so nothing is rounded but the division. An expression that fails stays, and so
does one whose value has no finite hundredth; such a value is its own hundredth. So pressed any number of times the key
divides the value by a hundred as often.
-/

namespace Reckoner

set_option autoImplicit false

/-! ## Hundredths -/

namespace Double

theorem exact_hundred : (100 : Float).isFinite = true ∧ exact 100 = 100 := by
  exact_mod_cast exact_ofInt (k := 100) (by decide)

theorem hundredth_isFinite {x : Float} (hx : x.isFinite = true) : (x / 100).isFinite = true := by
  obtain ⟨hfinite, hexact⟩ := exact_hundred
  exact div_isFinite hx hfinite (by rw [hexact]; norm_num)

theorem hundredth_of_not_isFinite {x : Float} (hx : x.isFinite = false) : x / 100 = x := by
  rcases special_of_not_isFinite hx with rfl | ⟨negative, rfl⟩
  · rfl
  · cases negative <;> rfl

theorem hundredth_isFinite_iff {x : Float} : (x / 100).isFinite = true ↔ x.isFinite = true := by
  refine ⟨fun h => ?_, hundredth_isFinite⟩
  by_contra hx
  rw [hundredth_of_not_isFinite (Bool.not_eq_true _ ▸ hx)] at h
  exact hx h

end Double

namespace Session

variable {t : Session} {x : Float}

/-! ## One key -/

theorem press_percent_eq (t : Session) : t.press "%" = t.applyPercent.preview := rfl

theorem press_percent_of_nil (h : t.expression = []) :
    t.press "%" = { t with failure := none, previewFailure := none } := by
  have hsame : t.applyPercent = t := by rw [applyPercent, if_pos (List.isEmpty_iff.mpr h)]
  rw [press_percent_eq, hsame, preview_of_nil h]

theorem press_percent_of_error {failure : Expression.Failure} (hfailure : t.outcome = .error failure) :
    t.press "%" = { t with failure := none, previewFailure := some failure } := by
  have hne : t.expression ≠ [] := Expression.ne_nil_of_error hfailure
  have hedit : t.applyPercent = { t with previewFailure := some failure } := by
    rw [applyPercent, if_neg (mt List.isEmpty_iff.mp hne), hfailure]
  rw [press_percent_eq, hedit]
  exact preview_of_error (t := { t with previewFailure := some failure }) hne hfailure

/-- A value without a finite hundredth is shown for the expression as it is. -/
theorem press_percent_of_special (hne : t.expression ≠ []) (hx : t.outcome = .ok x) (hspecial : x.isFinite = false) :
    t.press "%" = t.showing t.expression x := by
  have hsame : t.applyPercent = t := by
    rw [applyPercent, if_neg (mt List.isEmpty_iff.mp hne), hx]
    simp only [Double.hundredth_of_not_isFinite hspecial, hspecial, Bool.false_eq_true, if_false]
  rw [press_percent_eq, hsame, preview_of_ok hne hx]
  rfl

/-- A finite hundredth takes the place of the expression, and the preview reads it back. -/
theorem press_percent_of_finite (hne : t.expression ≠ []) (hx : t.outcome = .ok x) (hfinite : x.isFinite = true) :
    t.press "%" = t.showing (Double.positional (x / 100)) (x / 100) := by
  have hhundredth := Double.hundredth_isFinite hfinite
  have hedit : t.applyPercent = { t with expression := Double.positional (x / 100) } := by
    rw [applyPercent, if_neg (mt List.isEmpty_iff.mp hne), hx]
    simp only [hhundredth, if_true]
  rw [press_percent_eq, hedit]
  exact preview_edited (Expression.positional_ne_nil hhundredth) (Expression.evaluateChars_positional _ hhundredth)

/-! ## Many keys -/

theorem press_percent_shows (hne : t.expression ≠ []) (hx : t.outcome = .ok x) : (t.press "%").Shows (x / 100) := by
  by_cases hfinite : x.isFinite = true
  · have hhundredth := Double.hundredth_isFinite hfinite
    rw [press_percent_of_finite hne hx hfinite]
    exact showing_shows (Expression.positional_ne_nil hhundredth) (Expression.evaluateChars_positional _ hhundredth)
  · have hspecial : x.isFinite = false := Bool.not_eq_true _ ▸ hfinite
    rw [press_percent_of_special hne hx hspecial, Double.hundredth_of_not_isFinite hspecial]
    exact showing_shows hne hx

/-- Pressed so often, and once more, the key divides the value as often. -/
theorem pressAll_percent_shows (hne : t.expression ≠ []) (hx : t.outcome = .ok x) (count : Nat) :
    (t.pressAll (List.replicate (count + 1) "%")).Shows ((· / 100)^[count + 1] x) := by
  induction count with
  | zero => exact press_percent_shows hne hx
  | succ count ih =>
    rw [List.replicate_succ', pressAll_concat, Function.iterate_succ_apply']
    exact press_percent_shows ih.expression ih.outcome

/-- What the percent key does to a session. -/
structure PercentLaw (t : Session) : Prop where
  divided : ∀ x, t.expression ≠ [] → t.outcome = .ok x → (x / 100).isFinite = true →
    t.press "%" = t.showing (Double.positional (x / 100)) (x / 100) ∧ (t.press "%").Shows (x / 100) ∧
      ∃ negative, ∃ n : Expression.Numeral, (t.press "%").expression = signedText negative n.text
  failing : ∀ failure, t.outcome = .error failure →
    t.press "%" = { t with failure := none, previewFailure := some failure }
  special : ∀ x, t.expression ≠ [] → t.outcome = .ok x → (x / 100).isFinite = false →
    t.press "%" = t.showing t.expression x
  nothing : t.expression = [] → t.press "%" = { t with failure := none, previewFailure := none }
  repeated : ∀ x count, t.expression ≠ [] → t.outcome = .ok x → 0 < count →
    (t.pressAll (List.replicate count "%")).Shows ((· / 100)^[count] x)

/--
In every session the percent key puts the hundredth of the value in the place of the expression, exactly as the division gives
it, and shows it. If the expression fails, or is empty, or has a value without a finite hundredth, the expression and the
memory stay. Pressed many times the key divides as often.
-/
theorem press_percent (t : Session) : PercentLaw t where
  divided x hne hx hfinite := by
    have hhundredth := Double.hundredth_isFinite_iff.mp hfinite
    have hpress := press_percent_of_finite hne hx hhundredth
    obtain ⟨negative, n, htext, -⟩ := Double.positional_reads_back hfinite
    exact ⟨hpress, press_percent_shows hne hx, negative, n, by rw [hpress, ← htext]; rfl⟩
  failing failure hfailure := press_percent_of_error hfailure
  special x hne hx hspecial :=
    press_percent_of_special hne hx (by rw [Bool.eq_false_iff] at hspecial ⊢; exact mt Double.hundredth_isFinite hspecial)
  nothing h := press_percent_of_nil h
  repeated x count hne hx hpos := by
    obtain ⟨count, rfl⟩ := Nat.exists_eq_succ_of_ne_zero hpos.ne'
    exact pressAll_percent_shows hne hx count

/-- A third is divided twice, and its digits beyond those on the display are kept. -/
example : ((start {}).pressAll ["1", "/", "3", "%", "%"]).value = 1 / 3 / 100 / 100 :=
  (pressAll_percent_shows (t := (start {}).pressAll ["1", "/", "3"]) (x := 1 / 3) (by decide +kernel) (by decide +kernel) 1).value

end Session

end Reckoner
