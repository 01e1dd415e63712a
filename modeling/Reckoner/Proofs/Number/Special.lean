import Reckoner.Proofs.Number.Bits

/-!
# Infinities and not-a-number

A double that is not finite is not-a-number or one of the two infinities. A sum or a difference of numbers is
not-a-number in one case only: when an infinity is added to its opposite or subtracted from itself.
-/

namespace Reckoner.Double

open Float.Model (Format UnpackedFloat)
open Float.Model.UnpackedFloat (Sign packComponents)

set_option autoImplicit false

/-! ## Kinds of doubles -/

section
variable {x y : Float}

theorem eq_of_unpack (h : x.toModel.unpack = y.toModel.unpack) : x = y := by
  obtain ⟨⟨bits, hvalid⟩⟩ := x
  obtain ⟨⟨bits', hvalid'⟩⟩ := y
  have hword : bits.toBitVec = bits'.toBitVec := (UnpackedFloat.unpack_inj_of_valid hvalid hvalid').mp h
  obtain rfl : bits = bits' := UInt64.toBitVec_inj.mp hword
  rfl

theorem unpack_infinity (negative : Bool) : (infinity negative).toModel.unpack = .infinity (signOf negative) := by
  cases negative <;> rfl

theorem isInf_infinity (negative : Bool) : (infinity negative).isInf = true := by
  cases negative <;> rfl

theorem neg_infinity (negative : Bool) : -infinity negative = infinity !negative := by
  cases negative <;> rfl

theorem eq_infinity_of_unpack {sign : Sign} (h : x.toModel.unpack = .infinity sign) : ∃ negative, x = infinity negative := by
  cases sign with
  | positive => exact ⟨false, eq_of_unpack (h.trans (unpack_infinity false).symm)⟩
  | negative => exact ⟨true, eq_of_unpack (h.trans (unpack_infinity true).symm)⟩

theorem eq_infinity_of_isInf (h : x.isInf = true) : ∃ negative, x = infinity negative := by
  change x.toModel.unpack.isInf = true at h
  cases hx : x.toModel.unpack with
  | infinity sign => exact eq_infinity_of_unpack hx
  | _ => rw [hx] at h; contradiction

theorem special_of_not_isFinite (h : x.isFinite = false) : x = nan ∨ ∃ negative, x = infinity negative := by
  change x.toModel.unpack.isFinite = false at h
  cases hx : x.toModel.unpack with
  | notANumber => exact Or.inl (eq_of_unpack hx)
  | infinity sign => exact Or.inr (eq_infinity_of_unpack hx)
  | _ => rw [hx] at h; contradiction

theorem neg_twice (x : Float) : - -x = x := by
  by_cases hx : x.isFinite = true
  · obtain ⟨negative, mantissa, exponent, -, hc, hword⟩ := content_of_isFinite hx
    have hbits : magnitudeBits mantissa exponent ≤ infinityBits := (magnitudeBits_lt hc).le
    rw [hword, neg_ofMagnitude negative hbits, neg_ofMagnitude (!negative) hbits, Bool.not_not]
  · rcases special_of_not_isFinite (Bool.not_eq_true _ ▸ hx) with rfl | ⟨negative, rfl⟩
    · rfl
    · cases negative <;> rfl

theorem trunc?_eq_none_iff : trunc? x = none ↔ x.isFinite = false := by
  constructor
  · intro hnone
    by_contra hfinite
    obtain ⟨negative, mantissa, exponent, hcontent, -⟩ := content_of_isFinite (Bool.not_eq_false _ ▸ hfinite)
    rw [trunc?, hcontent] at hnone
    contradiction
  · intro hspecial
    rcases special_of_not_isFinite hspecial with rfl | ⟨negative, rfl⟩
    · rfl
    · cases negative <;> rfl

theorem isFinite_of_beq_zero (h : (x == 0) = true) : x.isFinite = true := by
  by_contra hspecial
  rcases special_of_not_isFinite (Bool.not_eq_true _ ▸ hspecial) with rfl | ⟨negative, rfl⟩
  · exact absurd h (by decide)
  · cases negative <;> exact absurd h (by decide)

theorem isNonzeroNumber_iff : isNonzeroNumber x = true ↔ x.isNaN = false ∧ (x == 0) = false := by
  rw [isNonzeroNumber, Bool.and_eq_true, Bool.not_eq_true', Bool.not_eq_true']

theorem isNonzeroNumber_of_zero (h : (x == 0) = true) : isNonzeroNumber x = false := by
  rw [isNonzeroNumber, h]
  exact Bool.and_false _

theorem isNonzeroNumber_of_isNaN (h : x.isNaN = true) : isNonzeroNumber x = false := by
  rw [isNonzeroNumber, h]
  rfl

theorem isNonzeroNumber_of_isInf (h : x.isInf = true) : isNonzeroNumber x = true := by
  obtain ⟨negative, rfl⟩ := eq_infinity_of_isInf h
  cases negative <;> rfl

theorem isInf_neg (h : x.isInf = true) : (-x).isInf = true := by
  obtain ⟨negative, rfl⟩ := eq_infinity_of_isInf h
  cases negative <;> rfl

theorem isNaN_of_isFinite (h : x.isFinite = true) : x.isNaN = false := by
  change x.toModel.unpack.isFinite = true at h
  change x.toModel.unpack.isNaN = false
  cases hx : x.toModel.unpack with
  | notANumber => rw [hx] at h; contradiction
  | _ => rfl

theorem isInf_of_isFinite (h : x.isFinite = true) : x.isInf = false := by
  change x.toModel.unpack.isFinite = true at h
  change x.toModel.unpack.isInf = false
  cases hx : x.toModel.unpack with
  | infinity sign => rw [hx] at h; contradiction
  | _ => rfl

theorem isFinite_eq_false_iff : x.isFinite = false ↔ x.isNaN = true ∨ x.isInf = true := by
  constructor
  · intro h
    rcases special_of_not_isFinite h with rfl | ⟨negative, rfl⟩
    · exact Or.inl rfl
    · exact Or.inr (isInf_infinity negative)
  · intro h
    by_contra hx
    have hfinite := Bool.of_not_eq_false hx
    rw [isNaN_of_isFinite hfinite, isInf_of_isFinite hfinite] at h
    simp at h

end

/-! ## Unpacked sums and differences -/

theorem isNaN_decode (sign : Sign) {scale : BitVec 11} (fraction : BitVec 52) (h : scale ≠ -1#_) :
    (decode sign scale fraction).isNaN = false := by
  rw [decode, if_neg h]
  split
  · split <;> rfl
  · rfl

/-- Packing makes no number not-a-number: one that is out of range becomes an infinity. -/
theorem isNaN_pack (u : UnpackedFloat) : (Float.ofModel (Float.Model.pack u)).isNaN = u.isNaN := by
  change (UnpackedFloat.unpack Format.binary64 (UnpackedFloat.pack Format.binary64 u)).isNaN = u.isNaN
  cases u with
  | notANumber => rfl
  | infinity sign => cases sign <;> rfl
  | zero sign => cases sign <;> rfl
  | finite sign mantissa exponent hpos =>
    simp only [UnpackedFloat.pack]
    split
    · cases sign <;> rfl
    · next hrange =>
      split
      · rw [unpack_packComponents]
        refine isNaN_decode _ _ fun hscale => hrange ?_
        have hnat := congrArg BitVec.toNat hscale
        rw [BitVec.toNat_ofNat] at hnat
        change _ % 2048 = 2047 at hnat
        change 2048 ≤ _
        omega
      · rw [unpack_packComponents]
        exact isNaN_decode _ _ (by decide)

theorem isNaN_normalize (mantissa exponent : Int) (sign : Sign) :
    (UnpackedFloat.normalize Format.binary64 mantissa exponent sign).isNaN = false := by
  have hround : ∀ (sign : Sign) (m : Nat) (e : Int), (UnpackedFloat.round Format.binary64 sign m e).isNaN = false := by
    intro sign m e
    simp only [UnpackedFloat.round, UnpackedFloat.roundWithAccuracy]
    split <;> rfl
  unfold UnpackedFloat.normalize
  split
  · exact hround _ _ _
  · rfl
  · exact hround _ _ _

theorem eq_neg_sign_iff {sign sign' : Sign} : sign' = -sign ↔ (sign == sign') = false := by
  cases sign <;> cases sign' <;> simp <;> rfl

theorem neg_sign_apply (sign : Sign) (n : Int) : (-sign).apply n = -sign.apply n := by
  cases sign with
  | positive => rfl
  | negative => exact (Int.neg_neg n).symm

/-- Two numbers have a sum, unless they are opposite infinities. -/
theorem isNaN_unpacked_add (u v : UnpackedFloat) : (UnpackedFloat.add Format.binary64 u v).isNaN = true ↔
    u.isNaN = true ∨ v.isNaN = true ∨ u.isInf = true ∧ v = u.neg := by
  cases u with
  | notANumber => simp [UnpackedFloat.add, UnpackedFloat.isNaN]
  | infinity sign =>
    cases v with
    | infinity sign' =>
      simp only [UnpackedFloat.neg, UnpackedFloat.infinity.injEq, eq_neg_sign_iff]
      cases hsame : sign == sign' <;> simp [UnpackedFloat.add, UnpackedFloat.isNaN, UnpackedFloat.isInf, hsame]
    | _ => simp [UnpackedFloat.add, UnpackedFloat.isNaN, UnpackedFloat.neg]
  | zero sign =>
    cases v with
    | zero sign' => cases hsame : sign == sign' <;> simp [UnpackedFloat.add, UnpackedFloat.isNaN, UnpackedFloat.isInf, hsame]
    | _ => simp [UnpackedFloat.add, UnpackedFloat.isNaN, UnpackedFloat.isInf]
  | finite sign mantissa exponent hpos =>
    cases v with
    | finite sign' mantissa' exponent' hpos' =>
      simp only [UnpackedFloat.add, isNaN_normalize]
      simp [UnpackedFloat.isNaN, UnpackedFloat.isInf]
    | _ => simp [UnpackedFloat.add, UnpackedFloat.isNaN, UnpackedFloat.isInf]

theorem unpacked_sub_eq (u v : UnpackedFloat) :
    UnpackedFloat.sub Format.binary64 u v = UnpackedFloat.add Format.binary64 u v.neg := by
  cases u <;> cases v <;>
    simp [UnpackedFloat.sub, UnpackedFloat.add, UnpackedFloat.neg, neg_sign_apply, Int.sub_eq_add_neg]

theorem neg_neg_unpacked (u : UnpackedFloat) : u.neg.neg = u := by
  cases u with
  | notANumber => rfl
  | infinity sign => cases sign <;> rfl
  | zero sign => cases sign <;> rfl
  | finite sign mantissa exponent hpos => cases sign <;> rfl

/-! ## Sums and differences of doubles -/

theorem isNaN_unpacked_neg (u : UnpackedFloat) : u.neg.isNaN = u.isNaN := by
  cases u <;> rfl

/-- A sum of numbers is a number, unless the second one is the opposite of an infinity. -/
theorem isNaN_add (x y : Float) :
    (x + y).isNaN = true ↔ x.isNaN = true ∨ y.isNaN = true ∨ x.isInf = true ∧ y = -x := by
  have hopposite : x.isInf = true → (y.toModel.unpack = x.toModel.unpack.neg ↔ y = -x) := by
    intro hinf
    obtain ⟨negative, rfl⟩ := eq_infinity_of_isInf hinf
    have hneg : (-infinity negative).toModel.unpack = (infinity negative).toModel.unpack.neg := by
      cases negative <;> rfl
    exact ⟨fun h => eq_of_unpack (h.trans hneg.symm), fun h => h ▸ hneg⟩
  have hsum : (x + y).isNaN = (UnpackedFloat.add Format.binary64 x.toModel.unpack y.toModel.unpack).isNaN :=
    isNaN_pack _
  rw [hsum, isNaN_unpacked_add]
  exact or_congr_right (or_congr_right (and_congr_right hopposite))

/-- A difference of numbers is a number, unless an infinity is subtracted from itself. -/
theorem isNaN_sub (x y : Float) :
    (x - y).isNaN = true ↔ x.isNaN = true ∨ y.isNaN = true ∨ x.isInf = true ∧ y = x := by
  have hsame : y.toModel.unpack.neg = x.toModel.unpack.neg ↔ y = x := by
    refine ⟨fun h => eq_of_unpack ?_, fun h => h ▸ rfl⟩
    rw [← neg_neg_unpacked y.toModel.unpack, h, neg_neg_unpacked]
  have hdifference : (x - y).isNaN = (UnpackedFloat.sub Format.binary64 x.toModel.unpack y.toModel.unpack).isNaN :=
    isNaN_pack _
  rw [hdifference, unpacked_sub_eq, isNaN_unpacked_add, isNaN_unpacked_neg, hsame]
  rfl

end Reckoner.Double
