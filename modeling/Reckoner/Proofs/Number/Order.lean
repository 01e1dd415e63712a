import Reckoner.Proofs.Number.Rounding

/-!
# The order of finite doubles

A finite double stands for an exact number. The bits of a canonical mantissa and exponent give exactly these back,
comparing two finite doubles compares their exact numbers, and the absolute value is that of the exact number.
-/

namespace Reckoner.Double

open Float.Model (Format UnpackedFloat)
open Float.Model.UnpackedFloat (Sign packComponents)

set_option autoImplicit false

/-- The number that a sign, a mantissa and an exponent stand for. -/
def signedExact (negative : Bool) (mantissa : Nat) (exponent : Int) : ℚ :=
  if negative then -(mantissa * 2 ^ exponent) else mantissa * 2 ^ exponent

/-- The exact number of a content; zero for the specials. -/
def Content.exact : Content → ℚ
  | .finite negative mantissa exponent => signedExact negative mantissa exponent
  | _ => 0

def exact (x : Float) : ℚ :=
  (content x).exact

theorem exact_of_content {x : Float} {negative : Bool} {mantissa : Nat} {exponent : Int}
    (h : content x = .finite negative mantissa exponent) : exact x = signedExact negative mantissa exponent := by
  rw [exact, h]
  rfl

theorem abs_signedExact (negative : Bool) (mantissa : Nat) (exponent : Int) :
    |signedExact negative mantissa exponent| = mantissa * 2 ^ exponent := by
  have hnonneg : (0 : ℚ) ≤ mantissa * 2 ^ exponent := mul_nonneg (Nat.cast_nonneg _) (two_zpow_pos _).le
  cases negative with
  | false => exact abs_of_nonneg hnonneg
  | true => exact (abs_neg _).trans (abs_of_nonneg hnonneg)

theorem signedExact_eq_zero {negative : Bool} {mantissa : Nat} {exponent : Int} :
    signedExact negative mantissa exponent = 0 ↔ mantissa = 0 := by
  rw [← abs_eq_zero, abs_signedExact, mul_eq_zero, Nat.cast_eq_zero]
  exact or_iff_left (two_zpow_pos exponent).ne'

section
variable {mantissa mantissa' : Nat} {exponent exponent' : Int}

/-! ## Unpacking canonical bits -/

def unpacked (negative : Bool) (mantissa : Nat) (exponent : Int) : UnpackedFloat :=
  if h : 0 < mantissa then .finite (signOf negative) mantissa exponent h else .zero (signOf negative)

/-- The bit in front of the fraction of a normal double carries into its exponent bits. -/
theorem decode_of_normal (sign : Sign) (hc : Canonical mantissa exponent) (hnormal : 2 ^ 52 ≤ mantissa) :
    decode sign (BitVec.ofNat 11 (magnitudeBits mantissa exponent / 2 ^ 52))
      (BitVec.ofNat 52 (magnitudeBits mantissa exponent)) = .finite sign mantissa exponent (by omega) := by
  have hmantissa := hc.mantissa_lt
  have hlow := hc.le_exponent
  have hhigh := hc.exponent_le
  have hleast : leastExponent = -1074 := rfl
  have hscale : (BitVec.ofNat 11 (magnitudeBits mantissa exponent / 2 ^ 52)).toNat = (exponent - leastExponent).toNat + 1 := by
    rw [BitVec.toNat_ofNat]
    unfold magnitudeBits
    omega
  have hfraction : (BitVec.ofNat 52 (magnitudeBits mantissa exponent)).toNat = mantissa - 2 ^ 52 := by
    rw [BitVec.toNat_ofNat]
    unfold magnitudeBits
    omega
  generalize BitVec.ofNat 11 (magnitudeBits mantissa exponent / 2 ^ 52) = scale at hscale
  generalize BitVec.ofNat 52 (magnitudeBits mantissa exponent) = fraction at hfraction
  have hlast : scale ≠ -1#_ := by
    rintro rfl
    change 2047 = _ at hscale
    omega
  have hfirst : scale ≠ 0#_ := by
    rintro rfl
    change 0 = _ at hscale
    omega
  have hsum : (1#1 ++ fraction).toNat = mantissa := by
    rw [toNat_one_append]
    omega
  have hexponent : (scale.toNat : Int) - 1075 = exponent := by omega
  rw [decode, if_neg hlast, if_neg hfirst]
  simp only [hsum, hexponent]

/-- The bits of a short mantissa at the least exponent are the mantissa. -/
theorem decode_of_subnormal (sign : Sign) (hshort : mantissa < 2 ^ 52) :
    decode sign (BitVec.ofNat 11 (magnitudeBits mantissa leastExponent / 2 ^ 52))
      (BitVec.ofNat 52 (magnitudeBits mantissa leastExponent)) =
      if h : 0 < mantissa then .finite sign mantissa leastExponent h else .zero sign := by
  have hbits : magnitudeBits mantissa leastExponent = mantissa := by
    unfold magnitudeBits
    omega
  have hfraction : (BitVec.ofNat 52 mantissa).toNat = mantissa := by
    rw [BitVec.toNat_ofNat, Nat.mod_eq_of_lt hshort]
  rw [hbits, Nat.div_eq_of_lt hshort, decode, if_neg (by decide), if_pos rfl]
  by_cases hempty : 0 < mantissa
  · rw [dif_pos hempty, dif_neg (by rw [← BitVec.toNat_inj, hfraction]; exact hempty.ne')]
    simp only [hfraction]
    rfl
  · obtain rfl : mantissa = 0 := by omega
    rfl

theorem unpack_ofMagnitude (negative : Bool) (hc : Canonical mantissa exponent) :
    (ofMagnitude negative (magnitudeBits mantissa exponent)).toModel.unpack = unpacked negative mantissa exponent := by
  have hle := (magnitudeBits_lt hc).le
  change UnpackedFloat.unpack Format.binary64 (ofMagnitude negative (magnitudeBits mantissa exponent)).toModel.toBits.toBitVec = _
  rw [ofMagnitude_eq negative hle, ofMagnitude_word negative hle, unpack_packComponents]
  by_cases hnormal : 2 ^ 52 ≤ mantissa
  · rw [decode_of_normal _ hc hnormal, unpacked, dif_pos (by omega)]
  · obtain rfl : exponent = leastExponent := hc.normal.resolve_left hnormal
    exact decode_of_subnormal _ (not_le.mp hnormal)

theorem isFinite_ofMagnitude (negative : Bool) (hc : Canonical mantissa exponent) :
    (ofMagnitude negative (magnitudeBits mantissa exponent)).isFinite = true := by
  change (ofMagnitude negative (magnitudeBits mantissa exponent)).toModel.unpack.isFinite = true
  rw [unpack_ofMagnitude negative hc, unpacked]
  split <;> rfl

theorem signOf_injective {negative negative' : Bool} (h : signOf negative = signOf negative') : negative = negative' := by
  cases negative <;> cases negative' <;> first | rfl | contradiction

theorem unpacked_injective {negative negative' : Bool} (hc : Canonical mantissa exponent)
    (hc' : Canonical mantissa' exponent') (h : unpacked negative mantissa exponent = unpacked negative' mantissa' exponent') :
    negative = negative' ∧ mantissa = mantissa' ∧ exponent = exponent' := by
  unfold unpacked at h
  split at h <;> split at h
  · obtain ⟨hsign, hmantissa, hexponent⟩ := UnpackedFloat.finite.inj h
    exact ⟨signOf_injective hsign, hmantissa, hexponent⟩
  · contradiction
  · contradiction
  · next hzero hzero' =>
    have hexponent : exponent = leastExponent := hc.normal.resolve_left (by omega)
    have hexponent' : exponent' = leastExponent := hc'.normal.resolve_left (by omega)
    exact ⟨signOf_injective (UnpackedFloat.zero.inj h), by omega, by rw [hexponent, hexponent']⟩

theorem content_ofMagnitude (negative : Bool) (hc : Canonical mantissa exponent) :
    content (ofMagnitude negative (magnitudeBits mantissa exponent)) = .finite negative mantissa exponent := by
  obtain ⟨negative', mantissa', exponent', hcontent, hc', hsame⟩ := content_of_isFinite (isFinite_ofMagnitude negative hc)
  have hunpacked := unpack_ofMagnitude negative hc
  rw [hsame, unpack_ofMagnitude negative' hc'] at hunpacked
  obtain ⟨rfl, rfl, rfl⟩ := unpacked_injective hc' hc hunpacked
  exact hcontent

theorem exact_ofMagnitude (negative : Bool) (hc : Canonical mantissa exponent) :
    exact (ofMagnitude negative (magnitudeBits mantissa exponent)) = signedExact negative mantissa exponent :=
  exact_of_content (content_ofMagnitude negative hc)

/-! ## Comparing -/

/-- Positive doubles are ordered by the exponent first and by the mantissa second. -/
theorem lexicographic_lt (hc : Canonical mantissa exponent) (hc' : Canonical mantissa' exponent')
    (h : exponent < exponent' ∨ exponent = exponent' ∧ mantissa < mantissa') :
    (mantissa : ℚ) * 2 ^ exponent < mantissa' * 2 ^ exponent' := by
  rcases h with hless | ⟨rfl, hless⟩
  · have hmantissa : (mantissa : ℚ) < 2 ^ 53 := by exact_mod_cast hc.mantissa_lt
    have hnormal : (2 : ℚ) ^ 52 ≤ mantissa' := by
      exact_mod_cast hc'.normal.resolve_right (by have := hc.le_exponent; omega)
    calc (mantissa : ℚ) * 2 ^ exponent < 2 ^ 53 * 2 ^ exponent := mul_lt_mul_of_pos_right hmantissa (two_zpow_pos _)
      _ = 2 ^ 52 * 2 ^ (exponent + 1) := by
          rw [two_zpow_add]
          norm_num
          ring
      _ ≤ 2 ^ 52 * 2 ^ exponent' := mul_le_mul_of_nonneg_left (two_zpow_le (by omega)) (by norm_num)
      _ ≤ mantissa' * 2 ^ exponent' := mul_le_mul_of_nonneg_right hnormal (two_zpow_pos _).le
  · exact mul_lt_mul_of_pos_right (by exact_mod_cast hless) (two_zpow_pos _)

theorem compare_lexicographic (hc : Canonical mantissa exponent) (hc' : Canonical mantissa' exponent') :
    (compare exponent exponent').then (compare mantissa mantissa') =
      compare ((mantissa : ℚ) * 2 ^ exponent) (mantissa' * 2 ^ exponent') := by
  rcases lt_trichotomy exponent exponent' with hless | rfl | hgreater
  · rw [compare_lt_iff_lt.mpr hless, compare_lt_iff_lt.mpr (lexicographic_lt hc hc' (Or.inl hless))]
    rfl
  · rw [compare_eq_iff_eq.mpr rfl]
    rcases lt_trichotomy mantissa mantissa' with hless | rfl | hgreater
    · rw [compare_lt_iff_lt.mpr hless, compare_lt_iff_lt.mpr (lexicographic_lt hc hc' (Or.inr ⟨rfl, hless⟩))]
      rfl
    · rw [compare_eq_iff_eq.mpr rfl, compare_eq_iff_eq.mpr rfl]
      rfl
    · rw [compare_gt_iff_gt.mpr hgreater, compare_gt_iff_gt.mpr (lexicographic_lt hc' hc (Or.inr ⟨rfl, hgreater⟩))]
      rfl
  · rw [compare_gt_iff_gt.mpr hgreater, compare_gt_iff_gt.mpr (lexicographic_lt hc' hc (Or.inl hgreater))]
    rfl

theorem signedExact_zero (negative : Bool) (exponent : Int) : signedExact negative 0 exponent = 0 :=
  signedExact_eq_zero.mpr rfl

theorem signedExact_pos (hm : 0 < mantissa) (exponent : Int) : 0 < signedExact false mantissa exponent :=
  mul_pos (by exact_mod_cast hm) (two_zpow_pos exponent)

theorem signedExact_neg (hm : 0 < mantissa) (exponent : Int) : signedExact true mantissa exponent < 0 :=
  neg_lt_zero.mpr (signedExact_pos hm exponent)

theorem compare_neg_neg (a b : ℚ) : compare (-a) (-b) = (compare a b).swap := by
  rcases lt_trichotomy a b with hless | rfl | hgreater
  · rw [compare_lt_iff_lt.mpr hless, compare_gt_iff_gt.mpr (neg_lt_neg hless)]
    rfl
  · rw [compare_eq_iff_eq.mpr rfl, compare_eq_iff_eq.mpr rfl]
    rfl
  · rw [compare_gt_iff_gt.mpr hgreater, compare_lt_iff_lt.mpr (neg_lt_neg hgreater)]
    rfl

theorem compare_unpacked (negative negative' : Bool) (hc : Canonical mantissa exponent)
    (hc' : Canonical mantissa' exponent') :
    (unpacked negative mantissa exponent).compare (unpacked negative' mantissa' exponent') =
      some (compare (signedExact negative mantissa exponent) (signedExact negative' mantissa' exponent')) := by
  unfold unpacked
  split
  · next hm =>
    split
    · next hm' =>
      cases negative <;> cases negative'
      · exact congrArg some (compare_lexicographic hc hc')
      · exact congrArg some (compare_gt_iff_gt.mpr ((signedExact_neg hm' _).trans (signedExact_pos hm _))).symm
      · exact congrArg some (compare_lt_iff_lt.mpr ((signedExact_neg hm _).trans (signedExact_pos hm' _))).symm
      · refine congrArg some ?_
        rw [compare_lexicographic hc hc']
        exact (compare_neg_neg _ _).symm
    · next hm' =>
      obtain rfl : mantissa' = 0 := by omega
      rw [signedExact_zero]
      cases negative
      · exact congrArg some (compare_gt_iff_gt.mpr (signedExact_pos hm _)).symm
      · exact congrArg some (compare_lt_iff_lt.mpr (signedExact_neg hm _)).symm
  · next hm =>
    obtain rfl : mantissa = 0 := by omega
    rw [signedExact_zero]
    split
    · next hm' =>
      cases negative'
      · exact congrArg some (compare_lt_iff_lt.mpr (signedExact_pos hm' _)).symm
      · exact congrArg some (compare_gt_iff_gt.mpr (signedExact_neg hm' _)).symm
    · next hm' =>
      obtain rfl : mantissa' = 0 := by omega
      rw [signedExact_zero]
      rfl

end

/-! ## Doubles -/

variable {x y : Float}

theorem compare_unpack (hx : x.isFinite = true) (hy : y.isFinite = true) :
    x.toModel.unpack.compare y.toModel.unpack = some (compare (exact x) (exact y)) := by
  obtain ⟨negative, mantissa, exponent, -, hc, rfl⟩ := content_of_isFinite hx
  obtain ⟨negative', mantissa', exponent', -, hc', rfl⟩ := content_of_isFinite hy
  rw [unpack_ofMagnitude _ hc, unpack_ofMagnitude _ hc', exact_ofMagnitude _ hc, exact_ofMagnitude _ hc']
  exact compare_unpacked negative negative' hc hc'

theorem le_iff (hx : x.isFinite = true) (hy : y.isFinite = true) : x ≤ y ↔ exact x ≤ exact y := by
  have hmodel : x ≤ y ↔ (x.toModel.unpack.compare y.toModel.unpack).any (·.isLE) = true := decide_eq_true_iff
  rw [hmodel, compare_unpack hx hy, Option.any_some, Ordering.isLE_iff_ne_gt]
  exact compare_le_iff_le

theorem lt_iff (hx : x.isFinite = true) (hy : y.isFinite = true) : x < y ↔ exact x < exact y := by
  have hmodel : x < y ↔ (x.toModel.unpack.compare y.toModel.unpack == some .lt) = true := decide_eq_true_iff
  rw [hmodel, compare_unpack hx hy, beq_iff_eq, Option.some_inj, compare_lt_iff_lt]

theorem beq_iff (hx : x.isFinite = true) (hy : y.isFinite = true) : (x == y) = true ↔ exact x = exact y := by
  have hmodel : (x == y) = (x.toModel.unpack.compare y.toModel.unpack == some .eq) := rfl
  rw [hmodel, compare_unpack hx hy, beq_iff_eq, Option.some_inj, compare_eq_iff_eq]

theorem exact_zero : exact 0 = 0 := by
  have hcontent : content 0 = .finite false 0 leastExponent := rfl
  rw [exact_of_content hcontent]
  exact signedExact_zero false leastExponent

theorem lt_zero_iff (hx : x.isFinite = true) : x < 0 ↔ exact x < 0 := by
  rw [lt_iff hx rfl, exact_zero]

theorem beq_zero_iff (hx : x.isFinite = true) : (x == 0) = true ↔ exact x = 0 := by
  rw [beq_iff hx rfl, exact_zero]

/-! ## Absolute values -/

theorem abs_decode (sign : Sign) (scale : BitVec 11) (fraction : BitVec 52) :
    (decode sign scale fraction).abs = decode .positive scale fraction := by
  unfold decode
  split
  · split <;> rfl
  · split
    · split <;> rfl
    · rfl

theorem abs_ofMagnitude (negative : Bool) {bits : Nat} (h : bits ≤ infinityBits) :
    (ofMagnitude negative bits).abs = ofMagnitude false bits := by
  have hword := ofMagnitude_word negative h
  have hword' := ofMagnitude_word false h
  change Float.ofModel (Float.Model.pack (UnpackedFloat.abs (UnpackedFloat.unpack Format.binary64
    (ofMagnitude negative bits).toModel.toBits.toBitVec))) = Float.ofModel (Float.Model.pack
      (UnpackedFloat.unpack Format.binary64 (UInt64.ofNat ((if false then 2 ^ 63 else 0) + bits)).toBitVec))
  rw [ofMagnitude_eq negative h, hword, hword', unpack_packComponents, unpack_packComponents, abs_decode]
  rfl

theorem abs_isFinite (hx : x.isFinite = true) : x.abs.isFinite = true := by
  obtain ⟨negative, mantissa, exponent, -, hc, rfl⟩ := content_of_isFinite hx
  rw [abs_ofMagnitude negative (magnitudeBits_lt hc).le]
  exact isFinite_ofMagnitude false hc

theorem exact_abs (hx : x.isFinite = true) : exact x.abs = |exact x| := by
  obtain ⟨negative, mantissa, exponent, -, hc, rfl⟩ := content_of_isFinite hx
  rw [abs_ofMagnitude negative (magnitudeBits_lt hc).le, exact_ofMagnitude _ hc, exact_ofMagnitude _ hc, abs_signedExact]
  rfl

end Reckoner.Double
