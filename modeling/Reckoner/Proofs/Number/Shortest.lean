import Reckoner.Number.Shortest
import Reckoner.Proofs.Number.Decimal

/-!
# The shortest decimal number rounds back

The interval of a double holds the decimal numbers that round to it. On a grid of seventeen digits the nearer
neighbour of the double lies inside, so the search finds a number, and whatever it finds rounds to the double.
-/

namespace Reckoner.Double

set_option autoImplicit false

variable {mantissa : Nat} {exponent : Int}

/-! ## Intervals -/

theorem interval_factor (exponent : Int) :
    (2 : ℚ) ^ (exponent - 2).toNat / 2 ^ (2 - exponent).toNat = 1 / 4 * 2 ^ exponent := by
  have hpower := pow_toNat_div 2 (exponent - 2)
  rw [neg_sub] at hpower
  rw [hpower, zpow_sub₀ (by norm_num)]
  ring

theorem interval_value (mantissa : Nat) (exponent : Int) :
    ((interval mantissa exponent).value : ℚ) / (interval mantissa exponent).den = mantissa * 2 ^ exponent := by
  simp only [interval]
  push_cast
  rw [mul_div_assoc, interval_factor]
  ring

theorem interval_high (mantissa : Nat) (exponent : Int) :
    ((interval mantissa exponent).high : ℚ) / (interval mantissa exponent).den =
      (mantissa + 1 / 2) * 2 ^ exponent := by
  simp only [interval]
  push_cast
  rw [mul_div_assoc, interval_factor]
  ring

theorem interval_low (hm : 0 < mantissa) (exponent : Int) :
    ((interval mantissa exponent).low : ℚ) / (interval mantissa exponent).den =
      (mantissa - lowerGap mantissa exponent) * 2 ^ exponent := by
  simp only [interval, lowerGap, Bool.and_eq_true, decide_eq_true_eq]
  split
  · push_cast [show 1 ≤ 4 * mantissa by omega]
    rw [mul_div_assoc, interval_factor]
    ring
  · push_cast [show 2 ≤ 4 * mantissa by omega]
    rw [mul_div_assoc, interval_factor]
    ring

theorem interval_den_pos (mantissa : Nat) (exponent : Int) : 0 < (interval mantissa exponent).den :=
  Nat.two_pow_pos _

/-- The interval of a double holds exactly the decimal numbers that round to it. -/
theorem contains_iff (hm : 0 < mantissa) (d : Decimal) :
    (interval mantissa exponent).contains d = true ↔ RoundsTo mantissa exponent d.exact := by
  have hden : (0 : ℚ) < (interval mantissa exponent).den := by exact_mod_cast interval_den_pos mantissa exponent
  have hunit : (0 : ℚ) < (10 ^ (-d.exponent).toNat : Nat) := by positivity
  have hexact : ((d.coefficient * 10 ^ d.exponent.toNat : Nat) : ℚ) / (10 ^ (-d.exponent).toNat : Nat) = d.exact :=
    decimal_ratio d.coefficient d.exponent
  have hclosed : (interval mantissa exponent).closed = (mantissa % 2 == 0) := rfl
  have hlow := interval_low hm exponent
  have hhigh := interval_high mantissa exponent
  unfold Interval.contains
  simp only
  generalize interval mantissa exponent = i at *
  generalize d.coefficient * 10 ^ d.exponent.toNat = scaled at *
  generalize 10 ^ (-d.exponent).toNat = unit at *
  have hlowLe : i.low * unit ≤ scaled * i.den ↔ (mantissa - lowerGap mantissa exponent) * 2 ^ exponent ≤ d.exact := by
    rw [← hlow, ← hexact, div_le_div_iff₀ hden hunit]
    exact_mod_cast Iff.rfl
  have hlowLt : i.low * unit < scaled * i.den ↔ (mantissa - lowerGap mantissa exponent) * 2 ^ exponent < d.exact := by
    rw [← hlow, ← hexact, div_lt_div_iff₀ hden hunit]
    exact_mod_cast Iff.rfl
  have hhighLe : scaled * i.den ≤ i.high * unit ↔ d.exact ≤ (mantissa + 1 / 2) * 2 ^ exponent := by
    rw [← hhigh, ← hexact, div_le_div_iff₀ hunit hden]
    exact_mod_cast Iff.rfl
  have hhighLt : scaled * i.den < i.high * unit ↔ d.exact < (mantissa + 1 / 2) * 2 ^ exponent := by
    rw [← hhigh, ← hexact, div_lt_div_iff₀ hunit hden]
    exact_mod_cast Iff.rfl
  rw [hclosed]
  by_cases heven : mantissa % 2 = 0
  · rw [if_pos (by simpa using heven)]
    simp only [Bool.and_eq_true, decide_eq_true_eq, hlowLe, hhighLe]
    exact ⟨fun h => ⟨h.1, h.2, fun _ => heven⟩, fun h => ⟨h.lower, h.upper⟩⟩
  · rw [if_neg (by simpa using heven)]
    simp only [Bool.and_eq_true, decide_eq_true_eq, hlowLt, hhighLt]
    constructor
    · intro h
      refine ⟨h.1.le, h.2.le, ?_⟩
      rintro (htie | htie)
      · exact absurd htie.symm h.1.ne
      · exact absurd htie h.2.ne
    · intro h
      exact ⟨lt_of_le_of_ne h.lower fun htie => heven (h.tie (Or.inl htie.symm)),
        lt_of_le_of_ne h.upper fun htie => heven (h.tie (Or.inr htie))⟩

/-! ## The search -/

theorem contains_of_onGrid? {i : Interval} {e : Int} {d : Decimal} (h : i.onGrid? e = some d) :
    i.contains d = true := by
  unfold Interval.onGrid? at h
  simp only at h
  split at h
  · next hnearer => exact Option.some.inj h ▸ hnearer
  · split at h
    · next hlower => exact Option.some.inj h ▸ hlower
    · split at h
      · next hupper => exact Option.some.inj h ▸ hupper
      · contradiction

theorem contains_of_search {i : Interval} {count : Nat} {e : Int} {d : Decimal} (h : i.search count e = some d) :
    i.contains d = true := by
  induction count generalizing e with
  | zero => contradiction
  | succ count ih =>
    rw [Interval.search] at h
    split at h
    · next hgrid =>
      obtain rfl := Option.some.inj h
      exact contains_of_onGrid? hgrid
    · exact ih h

theorem search_isSome {i : Interval} {count k : Nat} {e : Int} (hk : k < count) (h : (i.onGrid? (e - k)).isSome) :
    (i.search count e).isSome := by
  induction count generalizing e k with
  | zero => omega
  | succ count ih =>
    rw [Interval.search]
    split
    · rfl
    · next hnone =>
      cases k with
      | zero =>
        rw [Nat.cast_zero, sub_zero, hnone] at h
        contradiction
      | succ k =>
        refine ih (k := k) (by omega) ?_
        rw [Nat.cast_succ] at h
        rwa [show e - 1 - (k : Int) = e - (k + 1) by ring]

/-! ## Seventeen digits -/

theorem lt_lowerGap (hc : Canonical mantissa exponent) : (mantissa : ℚ) < lowerGap mantissa exponent * (2 * 10 ^ 16) := by
  unfold lowerGap
  split
  · next hpower =>
    rw [hpower.1]
    norm_num
  · have hlt : (mantissa : ℚ) < 2 ^ 53 := by exact_mod_cast hc.mantissa_lt
    norm_num at hlt ⊢
    linarith

/-- A number rounds to a double when it is within half a unit of the seventeenth digit of it. -/
theorem roundsTo_of_close (hc : Canonical mantissa exponent) {x : ℚ}
    (hclose : |mantissa * 2 ^ exponent - x| * (2 * 10 ^ 16) ≤ mantissa * 2 ^ exponent) :
    RoundsTo mantissa exponent x := by
  have hpos := two_zpow_pos exponent
  have hgap := lowerGap_le mantissa exponent
  have hinside : |mantissa * 2 ^ exponent - x| < lowerGap mantissa exponent * 2 ^ exponent := by
    have hscaled := mul_lt_mul_of_pos_right (lt_lowerGap hc) hpos
    linarith
  have hhalf : lowerGap mantissa exponent * 2 ^ exponent ≤ 1 / 2 * 2 ^ exponent :=
    mul_le_mul_of_nonneg_right hgap hpos.le
  obtain ⟨hlow, hhigh⟩ := abs_lt.mp hinside
  refine ⟨by linarith, by linarith, ?_⟩
  rintro (htie | htie) <;> exact absurd htie (by intro heq; linarith)

/-- On the grid of the seventeenth digit one of the neighbours lies in the interval. -/
theorem onGrid?_isSome (hc : Canonical mantissa exponent) (hm : 0 < mantissa) :
    ((interval mantissa exponent).onGrid?
      (Decimal.leadingExponent (interval mantissa exponent).value (interval mantissa exponent).den - (16 : Nat))).isSome := by
  have hvalue := interval_value mantissa exponent
  have hden := interval_den_pos mantissa exponent
  have hden' : (0 : ℚ) < (interval mantissa exponent).den := by exact_mod_cast hden
  have hvaluePos : 0 < (interval mantissa exponent).value := by
    have hpos : (0 : ℚ) < mantissa * 2 ^ exponent := mul_pos (by exact_mod_cast hm) (two_zpow_pos exponent)
    rw [← hvalue, div_pos_iff_of_pos_right hden'] at hpos
    exact_mod_cast hpos
  obtain ⟨hleading, -⟩ := Decimal.leadingExponent_spec hvaluePos hden
  generalize Decimal.leadingExponent (interval mantissa exponent).value (interval mantissa exponent).den = leading at *
  have hgrid : (10 : ℚ) ^ (leading - (16 : Nat)) * 10 ^ 16 ≤ mantissa * 2 ^ exponent := by
    rw [← zpow_natCast, ← Decimal.ten_zpow_add, sub_add_cancel, ← hvalue]
    exact hleading
  have hnear := Decimal.grid_close (leading - (16 : Nat)) (roundHalfEven_near
    (Decimal.scaleDown (interval mantissa exponent).value (interval mantissa exponent).den (leading - (16 : Nat))).1
    (Decimal.scaleDown_pos _ hden _)).1
  rw [hvalue] at hnear
  have hcontains := (contains_iff hm _).mpr (roundsTo_of_close hc (by
    calc _ ≤ 10 ^ (leading - (16 : Nat)) / 2 * (2 * 10 ^ 16) := mul_le_mul_of_nonneg_right hnear (by norm_num)
      _ = (10 : ℚ) ^ (leading - (16 : Nat)) * 10 ^ 16 := by ring
      _ ≤ mantissa * 2 ^ exponent := hgrid))
  unfold Interval.onGrid?
  simp only
  rw [if_pos hcontains]
  rfl

theorem shortest_roundsTo (hc : Canonical mantissa exponent) (hm : 0 < mantissa) :
    RoundsTo mantissa exponent (shortest mantissa exponent).exact := by
  have hsome := search_isSome (show 16 < 17 by decide) (onGrid?_isSome hc hm)
  obtain ⟨d, hd⟩ := Option.isSome_iff_exists.mp hsome
  rw [shortest, hd]
  exact (contains_iff hm d).mp (contains_of_search hd)

end Reckoner.Double
