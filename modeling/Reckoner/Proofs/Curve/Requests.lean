import Reckoner.Proofs.Curve.Places
import Reckoner.Proofs.Settings

/-!
# Accepted requests for a curve

A request is accepted if its bounds are finite and increasing and if it asks for at least two samples. The curve then has
as many points as were asked for. Their places are in order unless the domain is too wide for a double or its step is so
small that the products with it are rounded beyond the upper bound.
-/

namespace Reckoner

set_option autoImplicit false

namespace Curve

open Double

/-! ## Requests -/

/-- A curve that came out of an accepted request. -/
structure Admitted (c : Curve) : Prop where
  min_finite : c.xMin.isFinite = true
  max_finite : c.xMax.isFinite = true
  lt : ¬ c.xMax ≤ c.xMin
  two_le : 2 ≤ c.sampleCount

theorem checkBounds_eq_ok {xMin xMax : Float} :
    checkBounds xMin xMax = .ok () ↔ xMin.isFinite = true ∧ xMax.isFinite = true ∧ ¬ xMax ≤ xMin := by
  unfold checkBounds
  cases xMin.isFinite with
  | false => simp
  | true =>
    cases xMax.isFinite with
    | false => simp
    | true => by_cases hle : xMax ≤ xMin <;> simp [hle]

theorem request_eq_ok {s : Settings} {template : List Char} {xMin xMax : Float} {count : Int} {c : Curve} :
    request s template xMin xMax count = .ok c ↔
      checkBounds xMin xMax = .ok () ∧ 2 ≤ count ∧ c = ⟨template, xMin, xMax, count.toNat, s⟩ := by
  unfold request
  cases hbounds : checkBounds xMin xMax with
  | error fault => simp [bind, Except.bind]
  | ok =>
    by_cases hcount : count < 2
    · simp [bind, Except.bind, throw, throwThe, MonadExceptOf.throw, hcount]
    · have hcount' : 2 ≤ count := by omega
      simp [bind, Except.bind, pure, Except.pure, hcount, hcount', eq_comm]

theorem request_admitted {s : Settings} {template : List Char} {xMin xMax : Float} {count : Int} {c : Curve}
    (h : request s template xMin xMax count = .ok c) : c.Admitted ∧ c.sampleCount = count := by
  obtain ⟨hbounds, hcount, rfl⟩ := request_eq_ok.mp h
  obtain ⟨hmin, hmax, hlt⟩ := checkBounds_eq_ok.mp hbounds
  exact ⟨⟨hmin, hmax, hlt, by dsimp only; omega⟩, Int.toNat_of_nonneg (by omega)⟩

/-- An accepted request from outside: both bounds and the number of samples were converted. -/
theorem requestRead_eq_ok {s : Settings} {template : List Char} {domain : List Datum} {count : Datum} {c : Curve}
    (h : requestRead s template domain count = .ok c) :
    ∃ xMin xMax n, readBounds domain = .ok (xMin, xMax) ∧ count.toInt = .ok n ∧ request s template xMin xMax n = .ok c := by
  unfold requestRead at h
  obtain ⟨⟨xMin, xMax⟩, hbounds, h⟩ := bind_eq_ok.mp h
  obtain ⟨-, -, h⟩ := bind_eq_ok.mp h
  obtain ⟨n, hcount, h⟩ := bind_eq_ok.mp h
  exact ⟨xMin, xMax, n, mapError_eq_ok.mp hbounds, mapError_eq_ok.mp hcount, mapError_eq_ok.mp h⟩

/-! ## Points -/

theorem length_points (c : Curve) : c.points.length = c.sampleCount := by
  simp [points, places]

theorem samplePoint_x (s : Settings) (template : List Char) (x : Float) : (samplePoint s template x).x = x := by
  unfold samplePoint
  split <;> rfl

theorem map_x_points (c : Curve) : c.points.map CurvePoint.x = (List.range c.sampleCount).map (place c.xMin c.xMax c.sampleCount) := by
  rw [points, List.map_map]
  exact (List.map_congr_left fun x _ => samplePoint_x c.settings c.template x).trans (List.map_id _)

/--
An accepted request gives as many points as it asks for. Their places are in order exactly if the width of the domain is
finite and the last place that is computed is not beyond the upper bound; this is so for every domain with a step that
is a normal double or zero, up to `2 ^ 51` samples.
-/
theorem requestRead_ordered {s : Settings} {template : List Char} {domain : List Datum} {count : Datum} {c : Curve}
    (h : requestRead s template domain count = .ok c) :
    readBounds domain = .ok (c.xMin, c.xMax) ∧ count.toInt = .ok (c.points.length : Int) ∧
      (Ordered c.xMin c.xMax (c.points.map CurvePoint.x) ↔
        (c.xMax - c.xMin).isFinite = true ∧ place c.xMin c.xMax c.sampleCount (c.sampleCount - 2) ≤ c.xMax) ∧
      ((c.xMax - c.xMin).isFinite = true → c.sampleCount ≤ 2 ^ 51 →
        (stepOf c.xMin c.xMax c.sampleCount == 0) = true ∨ 2 ^ (-1022 : Int) ≤ exact (stepOf c.xMin c.xMax c.sampleCount) →
        Ordered c.xMin c.xMax (c.points.map CurvePoint.x)) := by
  obtain ⟨xMin, xMax, n, hbounds, hcount, hrequest⟩ := requestRead_eq_ok h
  obtain ⟨hadmitted, hlength⟩ := request_admitted hrequest
  obtain ⟨-, -, rfl⟩ := request_eq_ok.mp hrequest
  have horder := ordered_iff hadmitted.min_finite hadmitted.max_finite hadmitted.lt hadmitted.two_le
  refine ⟨hbounds, ?_, ?_, fun hwidth hlarge hstep => ?_⟩
  · rw [length_points, hlength]
    exact hcount
  · rw [map_x_points]
    exact horder
  · rw [map_x_points]
    exact horder.mpr ⟨hwidth, place_le_of_normal hadmitted.min_finite hadmitted.max_finite hadmitted.lt hadmitted.two_le
      hlarge hwidth hstep⟩

/-- Five samples from zero to four. -/
theorem requestRead_ordered_integers :
    ∃ c, requestRead {} ['x'] [.value (.int 0), .value (.int 4)] (.value (.int 5)) = .ok c ∧
      Ordered c.xMin c.xMax (c.points.map CurvePoint.x) := by
  have hrequest : requestRead {} ['x'] [.value (.int 0), .value (.int 4)] (.value (.int 5)) = .ok ⟨['x'], 0, 4, 5, {}⟩ := by
    decide +kernel
  exact ⟨_, hrequest, (requestRead_ordered hrequest).2.2.1.mpr ⟨by decide +kernel, by decide +kernel⟩⟩

/-- A domain whose width is beyond the largest double, and one whose step is rounded up to the least double. -/
theorem not_ordered_wide_or_tiny :
    (∃ c, requestRead {} ['x'] [.value (.float (-1e308)), .value (.float 1e308)] (.value (.int 3)) = .ok c ∧
      ¬ Ordered c.xMin c.xMax (c.points.map CurvePoint.x)) ∧
    ∃ c, requestRead {} ['x'] [.value (.int 0), .value (.float 1.5e-323)] (.value (.int 6)) = .ok c ∧
      ¬ Ordered c.xMin c.xMax (c.points.map CurvePoint.x) := by
  refine ⟨⟨⟨['x'], -1e308, 1e308, 3, {}⟩, ?_, ?_⟩, ⟨⟨['x'], 0, 1.5e-323, 6, {}⟩, ?_, ?_⟩⟩
  · decide +kernel
  · rw [map_x_points, ordered_iff (by decide +kernel) (by decide +kernel) (by decide +kernel) (by decide)]
    decide +kernel
  · decide +kernel
  · rw [map_x_points, ordered_iff (by decide +kernel) (by decide +kernel) (by decide +kernel) (by decide)]
    decide +kernel

end Curve

end Reckoner
