import Reckoner.Proofs.Number.Arithmetic

/-!
# Integer parts

The floor, the ceiling and the integer part of a double are those of its exact number. An integer less than one away from a
double is the number of a double itself, so that no integer part is changed when it becomes a double again. A double less its
floor may be rounded, but never across one half.
-/

namespace Reckoner.Double

set_option autoImplicit false

/-- The next integer in the direction of zero. -/
def towardZero (q : ℚ) : ℤ :=
  if q < 0 then ⌈q⌉ else ⌊q⌋

theorem towardZero_neg (q : ℚ) : towardZero (-q) = -towardZero q := by
  unfold towardZero
  rcases lt_trichotomy q 0 with hneg | rfl | hpos
  · rw [if_neg (not_lt.mpr (neg_pos.mpr hneg).le), if_pos hneg, Int.floor_neg]
  · simp
  · rw [if_pos (neg_lt_zero.mpr hpos), if_neg (not_lt.mpr hpos.le), Int.ceil_neg]

theorem towardZero_eq_zero {q : ℚ} (h : |q| < 1) : towardZero q = 0 := by
  obtain ⟨hlow, hhigh⟩ := abs_lt.mp h
  unfold towardZero
  split
  · next hneg => exact Int.ceil_eq_zero_iff.mpr ⟨hlow, hneg.le⟩
  · next hnonneg => exact Int.floor_eq_zero_iff.mpr ⟨not_lt.mp hnonneg, hhigh⟩

theorem abs_towardZero_le (q : ℚ) : |(towardZero q : ℚ)| ≤ |q| := by
  unfold towardZero
  split
  · next hneg =>
    have hceil : (⌈q⌉ : ℚ) ≤ 0 := by exact_mod_cast Int.ceil_le.mpr (by exact_mod_cast hneg.le)
    rw [abs_of_nonpos hceil, abs_of_neg hneg]
    exact neg_le_neg (Int.le_ceil q)
  · next hnonneg =>
    have hfloor : (0 : ℚ) ≤ ⌊q⌋ := by exact_mod_cast Int.floor_nonneg.mpr (not_lt.mp hnonneg)
    rw [abs_of_nonneg hfloor, abs_of_nonneg (not_lt.mp hnonneg)]
    exact Int.floor_le q

section
variable {x : Float}

/-! ## Integer parts of contents -/

theorem signedExact_quotient (negative : Bool) (m : Nat) (e : Int) :
    signedExact negative m e = ((signed negative m * 2 ^ e.toNat : Int) : ℚ) / (2 ^ (-e).toNat : Nat) := by
  have hsigned : ((signed negative m : Int) : ℚ) = if negative then -(m : ℚ) else m := by
    cases negative <;> simp [signed]
  push_cast
  rw [hsigned, mul_div_assoc, pow_toNat_div]
  cases negative <;> simp [signedExact]

theorem floor?_eq (hx : x.isFinite = true) : floor? x = some ⌊exact x⌋ := by
  obtain ⟨negative, m, e, hcontent, -, -⟩ := content_of_isFinite hx
  rw [floor?, exact_of_content hcontent, hcontent, signedExact_quotient, Rat.floor_intCast_div_natCast]
  push_cast
  rfl

theorem ceil?_eq (hx : x.isFinite = true) : ceil? x = some ⌈exact x⌉ := by
  obtain ⟨negative, m, e, hcontent, -, -⟩ := content_of_isFinite hx
  have hopposite : signed (!negative) m = -signed negative m := by
    cases negative <;> simp [signed]
  rw [ceil?, exact_of_content hcontent, hcontent, signedExact_quotient, Rat.ceil_intCast_div_natCast, ← neg_mul, ← hopposite]
  push_cast
  rfl

/-- Cutting off the fraction of a size and putting the sign in front goes toward zero. -/
theorem trunc?_eq (hx : x.isFinite = true) : trunc? x = some (towardZero (exact x)) := by
  obtain ⟨negative, m, e, hcontent, -, -⟩ := content_of_isFinite hx
  have hsize : ⌊(m : ℚ) * 2 ^ e⌋ = ((m * 2 ^ e.toNat / 2 ^ (-e).toNat : Nat) : Int) := by
    rw [← pow_toNat_div 2 e, ← mul_div_assoc]
    have hquotient := Rat.floor_intCast_div_natCast (m * 2 ^ e.toNat : Nat) (2 ^ (-e).toNat)
    push_cast at hquotient ⊢
    exact hquotient
  have hnonneg : (0 : ℚ) ≤ m * 2 ^ e := mul_nonneg (Nat.cast_nonneg m) (two_zpow_pos e).le
  have hpositive : towardZero (m * 2 ^ e) = ⌊(m : ℚ) * 2 ^ e⌋ := if_neg (not_lt.mpr hnonneg)
  rw [trunc?, exact_of_content hcontent, hcontent]
  cases negative with
  | false => exact congrArg some (hsize.symm.trans hpositive.symm)
  | true =>
    rw [signedExact, if_pos rfl, towardZero_neg, hpositive, hsize]
    rfl

theorem isInteger_iff (hx : x.isFinite = true) : isInteger x = true ↔ ∃ n : ℤ, exact x = n := by
  obtain ⟨negative, m, e, hcontent, -, -⟩ := content_of_isFinite hx
  have hpos : (0 : ℚ) < (2 ^ (-e).toNat : Nat) := by positivity
  rw [isInteger, hcontent, Content.isInteger, beq_iff_eq, exact_of_content hcontent, signedExact_quotient]
  simp only [div_eq_iff hpos.ne']
  constructor
  · intro hmod
    obtain ⟨c, rfl⟩ := Nat.dvd_of_mod_eq_zero hmod
    refine ⟨signed negative c * 2 ^ e.toNat, ?_⟩
    cases negative <;> simp [signed] <;> ring
  · rintro ⟨n, hn⟩
    have hn : signed negative m * 2 ^ e.toNat = n * (2 ^ (-e).toNat : Nat) := by exact_mod_cast hn
    rcases le_total 0 e with hnonneg | hnonpos
    · rw [Int.toNat_of_nonpos (neg_nonpos.mpr hnonneg), pow_zero, Nat.mod_one]
    · rw [Int.toNat_of_nonpos hnonpos, pow_zero, mul_one] at hn
      have hsize : (signed negative m).natAbs = m := by
        cases negative <;> simp [signed]
      rw [← hsize, hn, Int.natAbs_mul, Int.natAbs_natCast, Nat.mul_mod_left]

theorem isOddInteger_iff : isOddInteger x = true ↔ x.isFinite = true ∧ ∃ n : ℤ, Odd n ∧ exact x = n := by
  by_cases hx : x.isFinite = true
  · rw [isOddInteger, Bool.and_eq_true, isInteger_iff hx, trunc?_eq hx]
    constructor
    · rintro ⟨⟨n, hn⟩, hodd⟩
      refine ⟨hx, n, Int.odd_iff.mpr ?_, hn⟩
      simpa [hn, towardZero] using hodd
    · rintro ⟨-, n, hodd, hn⟩
      refine ⟨⟨n, hn⟩, ?_⟩
      simpa [hn, towardZero] using Int.odd_iff.mp hodd
  · refine iff_of_false ?_ fun h => hx h.1
    rcases special_of_not_isFinite (Bool.not_eq_true _ ▸ hx) with rfl | ⟨negative, rfl⟩
    · decide
    · cases negative <;> decide

/-! ## Integers that are doubles -/

/-- A double is a multiple of a power of two, or it is at most `2 ^ 52` times that power. -/
theorem exact_multiple_or_le (hx : x.isFinite = true) (target : Int) :
    (∃ k : Int, exact x = k * 2 ^ target) ∨ |exact x| ≤ 2 ^ 52 * 2 ^ target := by
  obtain ⟨negative, m, e, hc, -, hexact⟩ := unpack_of_isFinite hx
  rw [hexact, abs_signedExact]
  refine (hc.on_grid_or_below target).imp (fun ⟨j, hj⟩ => ?_) And.right
  rw [signedExact, hj]
  cases negative with
  | false => exact ⟨j, by simp⟩
  | true => exact ⟨-j, by simp⟩

theorem exists_exact_int {n : Int} (h : |n| ≤ 2 ^ 53) : ∃ z : Float, z.isFinite = true ∧ exact z = n := by
  have hsize : ∃ z : Float, z.isFinite = true ∧ exact z = |(n : ℚ)| := by
    rcases h.lt_or_eq with hlt | heq
    · have hshort : n.natAbs < 2 ^ 53 := by
        zify
        exact hlt
      obtain ⟨z, hz, hexact⟩ := exists_exact (m := n.natAbs) (e := 0) hshort (by decide) (by decide)
      exact ⟨z, hz, by rw [hexact, zpow_zero, mul_one, Nat.cast_natAbs, Int.cast_abs]⟩
    · obtain ⟨z, hz, hexact⟩ := exists_exact_two_zpow (e := 53) (by decide) (by decide)
      exact ⟨z, hz, by rw [hexact, ← Int.cast_abs, heq]; norm_num⟩
  obtain ⟨z, hz, hexact⟩ := hsize
  rcases le_or_gt 0 n with hnonneg | hneg
  · exact ⟨z, hz, by rw [hexact, abs_of_nonneg (by exact_mod_cast hnonneg)]⟩
  · exact ⟨-z, neg_isFinite hz, by rw [exact_neg hz, hexact, abs_of_neg (by exact_mod_cast hneg), neg_neg]⟩

/-- An integer less than one away from a double becomes a double without being rounded. -/
theorem ofInt_of_near (hx : x.isFinite = true) {n : Int} (h : |(n : ℚ) - exact x| < 1) :
    (ofInt n).isFinite = true ∧ exact (ofInt n) = n := by
  have hdouble : ∃ z : Float, z.isFinite = true ∧ exact z = n := by
    rcases exact_multiple_or_le hx 0 with ⟨k, hk⟩ | hsmall
    · rw [zpow_zero, mul_one] at hk
      rw [hk] at h
      have hsame : n - k = 0 := Int.abs_lt_one_iff.mp (by exact_mod_cast h)
      exact ⟨x, hx, by rw [hk, sub_eq_zero.mp hsame]⟩
    · refine exists_exact_int ?_
      rw [zpow_zero, mul_one] at hsmall
      have hbound : |(n : ℚ)| < 2 ^ 52 + 1 := by
        calc |(n : ℚ)| = |n - exact x + exact x| := by rw [sub_add_cancel]
          _ ≤ |n - exact x| + |exact x| := abs_add_le _ _
          _ < 2 ^ 52 + 1 := by linarith
      have hbound' : |n| < 2 ^ 52 + 1 := by exact_mod_cast hbound
      omega
  obtain ⟨z, hz, hexact⟩ := hdouble
  have hrounds := rounds_ofInt n
  rw [← hexact] at hrounds ⊢
  exact Rounds.of_exact hz hrounds

theorem floor_near (q : ℚ) : |(⌊q⌋ : ℚ) - q| < 1 := by
  have hlow := Int.floor_le q
  have hhigh := Int.lt_floor_add_one q
  exact abs_lt.mpr ⟨by linarith, by linarith⟩

theorem ceil_near (q : ℚ) : |(⌈q⌉ : ℚ) - q| < 1 := by
  have hlow := Int.le_ceil q
  have hhigh := Int.ceil_lt_add_one q
  exact abs_lt.mpr ⟨by linarith, by linarith⟩

theorem towardZero_near (q : ℚ) : |(towardZero q : ℚ) - q| < 1 := by
  unfold towardZero
  split
  · exact ceil_near q
  · exact floor_near q

theorem floor_half_near (q : ℚ) : |(⌊q + 1 / 2⌋ : ℚ) - q| < 1 := by
  have hlow := Int.floor_le (q + 1 / 2)
  have hhigh := Int.lt_floor_add_one (q + 1 / 2)
  exact abs_lt.mpr ⟨by linarith, by linarith⟩

theorem trunc?_ofInt {n : Int} (h : trunc? x = some n) : trunc? (ofInt n) = some n := by
  have hx : x.isFinite = true := by
    by_contra hspecial
    rw [trunc?_eq_none_iff.mpr (Bool.not_eq_true _ ▸ hspecial)] at h
    contradiction
  obtain rfl : towardZero (exact x) = n := Option.some.inj ((trunc?_eq hx).symm.trans h)
  obtain ⟨hfinite, hexact⟩ := ofInt_of_near hx (towardZero_near (exact x))
  rw [trunc?_eq hfinite, hexact, towardZero]
  simp

/-! ## One half -/

/-- A double less its floor is a double if it is less than one half. -/
theorem exists_exact_sub_floor (hx : x.isFinite = true) (hsmall : exact x - ⌊exact x⌋ < 1 / 2) :
    ∃ z : Float, z.isFinite = true ∧ exact z = exact x - ⌊exact x⌋ := by
  have hnonneg : 0 ≤ exact x - ⌊exact x⌋ := sub_nonneg.mpr (Int.floor_le (exact x))
  rcases exact_multiple_or_le hx (-53) with ⟨k, hk⟩ | hclose
  · have hunit := two_zpow_pos (-53)
    have hdifference : exact x - ⌊exact x⌋ = ((k - ⌊exact x⌋ * 2 ^ 53 : Int) : ℚ) * 2 ^ (-53 : Int) := by
      have hwhole : ((⌊exact x⌋ : Int) : ℚ) = ⌊exact x⌋ * 2 ^ 53 * 2 ^ (-53 : Int) := by
        rw [mul_assoc]
        norm_num
      rw [Int.cast_sub, Int.cast_mul, Int.cast_pow, Int.cast_ofNat, sub_mul, ← hwhole, ← hk]
    have hhalf : (1 / 2 : ℚ) = 2 ^ 52 * 2 ^ (-53 : Int) := by norm_num
    generalize k - ⌊exact x⌋ * 2 ^ 53 = units at hdifference
    rw [hdifference] at hsmall hnonneg ⊢
    rw [hhalf] at hsmall
    have hpos : 0 ≤ units := by exact_mod_cast nonneg_of_mul_nonneg_left hnonneg hunit
    have hshort : units < 2 ^ 52 := by exact_mod_cast lt_of_mul_lt_mul_right hsmall hunit.le
    obtain ⟨z, hz, hexact⟩ := exists_exact (m := units.toNat) (e := -53) (by omega) (by decide) (by decide)
    have hcast : ((units.toNat : Nat) : ℚ) = units := by exact_mod_cast Int.toNat_of_nonneg hpos
    exact ⟨z, hz, by rw [hexact, hcast]⟩
  · have hbound : (2 : ℚ) ^ 52 * 2 ^ (-53 : Int) = 1 / 2 := by norm_num
    rw [hbound] at hclose
    obtain ⟨hlow, hhigh⟩ := abs_le.mp hclose
    have hzero : ⌊exact x⌋ = 0 := by
      rw [Int.floor_eq_zero_iff]
      refine ⟨?_, by linarith⟩
      by_contra hneg
      have hminus : ⌊exact x⌋ = -1 := by
        rw [Int.floor_eq_iff]
        push_cast
        exact ⟨by linarith, by linarith [not_le.mp hneg]⟩
      rw [hminus] at hsmall
      push_cast at hsmall
      linarith
    exact ⟨x, hx, by rw [hzero, Int.cast_zero, sub_zero]⟩

/-- The rounded difference tells whether a double is at least one half above its floor. -/
theorem half_le_sub_floor (hx : x.isFinite = true) :
    0.5 ≤ x - ofInt ⌊exact x⌋ ↔ 1 / 2 ≤ exact x - ⌊exact x⌋ := by
  obtain ⟨hfinite, hexact⟩ := ofInt_of_near hx (floor_near (exact x))
  have hrounds := rounds_sub hx hfinite
  rw [hexact] at hrounds
  have hhalf : (0.5 : Float).isFinite = true ∧ exact 0.5 = 1 / 2 := by decide +kernel
  have hdifference : (x - ofInt ⌊exact x⌋).isFinite = true := by
    rw [hrounds.isFinite_iff]
    have hone : |exact x - ⌊exact x⌋| < 1 := by
      rw [abs_sub_comm]
      exact floor_near (exact x)
    calc |exact x - ⌊exact x⌋| < 2 ^ (0 : Int) := hone
      _ ≤ 2 ^ (1023 : Int) := two_zpow_le (by decide)
      _ ≤ largest := two_zpow_le_largest
      _ < overflow := largest_lt_overflow
  rw [le_iff hhalf.1 hdifference, hhalf.2]
  constructor
  · intro hle
    by_contra hsmall
    obtain ⟨z, hz, hsame⟩ := exists_exact_sub_floor hx (not_le.mp hsmall)
    rw [← hsame] at hrounds hsmall
    rw [(Rounds.of_exact hz hrounds).2] at hle
    exact hsmall hle
  · intro hle
    rw [← hhalf.2] at hle ⊢
    exact hrounds.le_exact hdifference hhalf.1 hle

end

end Reckoner.Double
