import Mathlib
import Reckoner.Number.Double

/-!
# The bits of a double

A double is determined by its sign, its eleven exponent bits and its fifty-two fraction bits. Reading a finite
bit pattern as a double and taking its bits again gives the pattern back, negation changes the sign bit alone, and
the content of a finite double names its bits.
-/

namespace Reckoner.Double

open Float.Model (Format UnpackedFloat)
open Float.Model.UnpackedFloat (Sign packComponents unpackSign unpackExponent unpackMantissa)

set_option autoImplicit false

/-! ## Unpacking and packing -/

theorem toNat_one_append (fraction : BitVec 52) : (1#1 ++ fraction).toNat = 2 ^ 52 + fraction.toNat := by
  have hlt := fraction.isLt
  rw [BitVec.toNat_append, Nat.shiftLeft_eq, ← Nat.shiftLeft_eq, ← Nat.shiftLeft_add_eq_or_of_lt hlt]
  simp [Nat.shiftLeft_eq]

/-- The unpacked double with the given sign, exponent bits and fraction bits. -/
def decode (sign : Sign) (scale : BitVec 11) (fraction : BitVec 52) : UnpackedFloat :=
  if scale = -1#_ then
    if fraction = 0#_ then .infinity sign else .notANumber
  else if scale = 0#_ then
    if h : fraction = 0#_ then .zero sign
    else .finite sign fraction.toNat (scale.toNat - 1075 + 1) (by simpa [BitVec.toNat_pos, BitVec.pos_iff_ne_zero])
  else .finite sign (1#1 ++ fraction).toNat (scale.toNat - 1075) (by rw [toNat_one_append]; omega)

theorem unpack_eq_decode (b : BitVec 64) :
    UnpackedFloat.unpack Format.binary64 b =
      decode (Sign.ofBitVec (@unpackSign Format.binary64 b)) (@unpackExponent Format.binary64 b)
        (@unpackMantissa Format.binary64 b) :=
  rfl

theorem neg_decode (sign : Sign) (scale : BitVec 11) (fraction : BitVec 52) :
    (decode sign scale fraction).neg = decode (-sign) scale fraction := by
  unfold decode
  split
  · split <;> rfl
  · split
    · split <;> rfl
    · rfl

/-- Packing gives back the parts, unless they are those of not-a-number. -/
theorem pack_decode (sign : Sign) (scale : BitVec 11) (fraction : BitVec 52) (h : scale ≠ -1#_ ∨ fraction = 0#_) :
    UnpackedFloat.pack Format.binary64 (decode sign scale fraction) =
      packComponents Format.binary64 sign scale fraction := by
  have hfraction := fraction.isLt
  unfold decode
  split
  · next hscale =>
    obtain rfl := h.resolve_left (not_not_intro hscale)
    rw [if_pos rfl, hscale]
    rfl
  · next hscale =>
    have hlast : scale.toNat ≠ 2047 := fun heq => hscale (BitVec.eq_of_toNat_eq heq)
    split
    · next hzero =>
      subst hzero
      split
      · next hempty =>
        rw [hempty]
        rfl
      · next hpositive =>
        have hlog : fraction.toNat.log2 + 1 ≠ Format.binary64.mantissaBits := by
          have hshort : fraction.toNat.log2 < 52 := (Nat.log2_lt (by
            simpa [← BitVec.toNat_inj] using hpositive)).mpr hfraction
          have hbits : Format.binary64.mantissaBits = 53 := rfl
          omega
        simp only [UnpackedFloat.pack]
        rw [if_neg (by decide), if_neg hlog, BitVec.ofNat_toNat, BitVec.setWidth_eq]
    · next hpositive =>
      have hfirst : scale.toNat ≠ 0 := fun heq => hpositive (BitVec.eq_of_toNat_eq heq)
      have hscaleLt := scale.isLt
      have hbias : ((scale.toNat : Int) - 1075 + (Format.binary64.exponentBias : Nat) +
          (Format.binary64.mantissaBitsWithoutImplicit : Nat)).toNat = scale.toNat := by
        have hsum : (Format.binary64.exponentBias : Int) + (Format.binary64.mantissaBitsWithoutImplicit : Nat) = 1075 := rfl
        omega
      have hlog : (1#1 ++ fraction).toNat.log2 + 1 = Format.binary64.mantissaBits := by
        have hbits : Format.binary64.mantissaBits = 53 := rfl
        have hlog2 : (1#1 ++ fraction).toNat.log2 = 52 := by
          rw [toNat_one_append]
          exact (Nat.log2_eq_iff (by omega)).mpr ⟨by omega, by omega⟩
        omega
      have hmantissa : BitVec.ofNat 52 (1#1 ++ fraction).toNat = fraction := by
        apply BitVec.eq_of_toNat_eq
        rw [toNat_one_append, BitVec.toNat_ofNat]
        omega
      simp only [UnpackedFloat.pack, hbias]
      rw [if_neg (show ¬ 2048 ≤ scale.toNat + 1 by omega), if_pos hlog, BitVec.ofNat_toNat, BitVec.setWidth_eq, hmantissa]

/-! ## Parts of a bit pattern -/

theorem toNat_packComponents (sign : Sign) (scale : BitVec 11) (fraction : BitVec 52) :
    (packComponents Format.binary64 sign scale fraction).toNat =
      sign.toBitVec.toNat * 2 ^ 63 + scale.toNat * 2 ^ 52 + fraction.toNat := by
  have hscale := scale.isLt
  have hfraction := fraction.isLt
  change (sign.toBitVec ++ scale ++ fraction).toNat = _
  rw [BitVec.toNat_append, BitVec.toNat_append, ← Nat.shiftLeft_add_eq_or_of_lt hscale,
    ← Nat.shiftLeft_add_eq_or_of_lt hfraction, Nat.shiftLeft_eq, Nat.shiftLeft_eq]
  omega

theorem toNat_unpackMantissa (b : BitVec 64) :
    (@unpackMantissa Format.binary64 b).toNat = b.toNat % 2 ^ 52 := by
  simp [unpackMantissa]

theorem toNat_unpackExponent (b : BitVec 64) :
    (@unpackExponent Format.binary64 b).toNat = b.toNat / 2 ^ 52 % 2 ^ 11 := by
  simp [unpackExponent, Nat.shiftRight_eq_div_pow]

theorem toNat_unpackSign (b : BitVec 64) :
    (@unpackSign Format.binary64 b).toNat = b.toNat / 2 ^ 63 % 2 := by
  simp [unpackSign, Nat.shiftRight_eq_div_pow]

theorem toBitVec_ofBitVec (b : BitVec 1) : (Sign.ofBitVec b).toBitVec = b := by
  unfold Sign.ofBitVec
  split
  · next h => exact h.symm
  · next h =>
    apply BitVec.eq_of_toNat_eq
    have hlt := b.isLt
    have hne : b.toNat ≠ 0 := fun heq => h (BitVec.eq_of_toNat_eq heq)
    change 1 = b.toNat
    omega

/-- A bit pattern is put together from its parts. -/
theorem packComponents_unpack (b : BitVec 64) :
    packComponents Format.binary64 (Sign.ofBitVec (@unpackSign Format.binary64 b))
      (@unpackExponent Format.binary64 b) (@unpackMantissa Format.binary64 b) = b := by
  apply BitVec.eq_of_toNat_eq
  have hlt := b.isLt
  rw [toNat_packComponents, toBitVec_ofBitVec, toNat_unpackSign, toNat_unpackExponent, toNat_unpackMantissa]
  omega

theorem unpackSign_packComponents (sign : Sign) (scale : BitVec 11) (fraction : BitVec 52) :
    Sign.ofBitVec (unpackSign (packComponents Format.binary64 sign scale fraction)) = sign := by
  have hsign : unpackSign (packComponents Format.binary64 sign scale fraction) = sign.toBitVec := by
    apply BitVec.eq_of_toNat_eq
    have hscale := scale.isLt
    have hfraction := fraction.isLt
    have hlt := sign.toBitVec.isLt
    rw [toNat_unpackSign, toNat_packComponents]
    omega
  rw [hsign]
  cases sign <;> rfl

theorem unpack_packComponents (sign : Sign) (scale : BitVec 11) (fraction : BitVec 52) :
    UnpackedFloat.unpack Format.binary64 (packComponents Format.binary64 sign scale fraction) =
      decode sign scale fraction := by
  rw [unpack_eq_decode, unpackSign_packComponents, UnpackedFloat.unpackExponent_packComponents,
    UnpackedFloat.unpackMantissa_packComponents]

/-! ## Doubles -/

theorem ofBits_toBits (x : Float) : Float.ofBits x.toBits = x := by
  obtain ⟨bits, hvalid⟩ := x
  have hpack : UnpackedFloat.pack Format.binary64 (UnpackedFloat.unpack Format.binary64 bits.toBitVec) =
      bits.toBitVec := by
    by_cases hscale : @unpackExponent Format.binary64 bits.toBitVec = -1#_
    · by_cases hfraction : @unpackMantissa Format.binary64 bits.toBitVec = 0#_
      · rw [unpack_eq_decode, pack_decode _ _ _ (Or.inr hfraction)]
        exact packComponents_unpack _
      · rw [unpack_eq_decode, decode, if_pos hscale, if_neg hfraction]
        exact (hvalid.eq_packedNaN hscale hfraction).symm
    · rw [unpack_eq_decode, pack_decode _ _ _ (Or.inl hscale)]
      exact packComponents_unpack _
  simp only [Float.ofBits, Float.toBits, Float.Model.ofBits, Float.Model.pack, hpack]

/-- The sign bit as a sign. -/
def signOf (negative : Bool) : Sign :=
  if negative then .negative else .positive

theorem signOf_not (negative : Bool) : signOf (!negative) = -signOf negative := by
  cases negative <;> rfl

theorem ofMagnitude_word (negative : Bool) {bits : Nat} (h : bits ≤ infinityBits) :
    (UInt64.ofNat ((if negative then 2 ^ 63 else 0) + bits)).toBitVec =
      packComponents Format.binary64 (signOf negative) (BitVec.ofNat 11 (bits / 2 ^ 52)) (BitVec.ofNat 52 bits) := by
  have hinfinity : infinityBits = 2047 * 2 ^ 52 := rfl
  apply BitVec.eq_of_toNat_eq
  rw [toNat_packComponents, BitVec.toNat_ofNat, BitVec.toNat_ofNat]
  cases negative with
  | false =>
    change (0 + bits) % 2 ^ 64 = 0 * 2 ^ 63 + bits / 2 ^ 52 % 2 ^ 11 * 2 ^ 52 + bits % 2 ^ 52
    omega
  | true =>
    change (2 ^ 63 + bits) % 2 ^ 64 = 1 * 2 ^ 63 + bits / 2 ^ 52 % 2 ^ 11 * 2 ^ 52 + bits % 2 ^ 52
    omega

/-- Up to the bits of infinity no parts are those of not-a-number. -/
theorem parts_of_le {bits : Nat} (h : bits ≤ infinityBits) :
    BitVec.ofNat 11 (bits / 2 ^ 52) ≠ -1#_ ∨ BitVec.ofNat 52 bits = 0#_ := by
  have hinfinity : infinityBits = 2047 * 2 ^ 52 := rfl
  by_cases hlast : bits / 2 ^ 52 = 2047
  · right
    apply BitVec.eq_of_toNat_eq
    rw [BitVec.toNat_ofNat, BitVec.toNat_ofNat]
    omega
  · left
    intro heq
    have hnat := congrArg BitVec.toNat heq
    rw [BitVec.toNat_ofNat] at hnat
    change bits / 2 ^ 52 % 2 ^ 11 = 2047 at hnat
    omega

theorem ofMagnitude_eq (negative : Bool) {bits : Nat} (h : bits ≤ infinityBits) :
    (ofMagnitude negative bits).toModel.toBits = UInt64.ofNat ((if negative then 2 ^ 63 else 0) + bits) := by
  have hword := ofMagnitude_word negative h
  change UInt64.ofBitVec (UnpackedFloat.pack Format.binary64 (UnpackedFloat.unpack Format.binary64 _)) = _
  rw [hword, unpack_packComponents, pack_decode _ _ _ (parts_of_le h), ← hword]

theorem neg_ofMagnitude (negative : Bool) {bits : Nat} (h : bits ≤ infinityBits) :
    -ofMagnitude negative bits = ofMagnitude (!negative) bits := by
  have hword := ofMagnitude_word negative h
  have hword' := ofMagnitude_word (!negative) h
  change Float.ofModel (Float.Model.pack (UnpackedFloat.neg (UnpackedFloat.unpack Format.binary64
    (ofMagnitude negative bits).toModel.toBits.toBitVec))) = Float.ofModel (Float.Model.pack
      (UnpackedFloat.unpack Format.binary64 (UInt64.ofNat ((if (!negative) then 2 ^ 63 else 0) + bits)).toBitVec))
  rw [ofMagnitude_eq negative h, hword, hword', unpack_packComponents, unpack_packComponents, neg_decode, signOf_not]

/-! ## Finite doubles -/

/-- A mantissa below `2 ^ 53` and the exponent that a finite double has with it. -/
structure Canonical (mantissa : Nat) (exponent : Int) : Prop where
  mantissa_lt : mantissa < 2 ^ 53
  normal : 2 ^ 52 ≤ mantissa ∨ exponent = leastExponent
  le_exponent : leastExponent ≤ exponent
  exponent_le : exponent ≤ 971

/-- The magnitude bits of `mantissa * 2 ^ exponent`. -/
def magnitudeBits (mantissa : Nat) (exponent : Int) : Nat :=
  (exponent - leastExponent).toNat * 2 ^ 52 + mantissa

theorem magnitudeBits_lt {mantissa : Nat} {exponent : Int} (h : Canonical mantissa exponent) :
    magnitudeBits mantissa exponent < infinityBits := by
  have hmantissa := h.mantissa_lt
  have hexponent := h.exponent_le
  have hinfinity : infinityBits = 2047 * 2 ^ 52 := rfl
  have hleast : leastExponent = -1074 := rfl
  unfold magnitudeBits
  omega

theorem scale_ne_of_isFinite {x : Float} (h : x.isFinite = true) : x.toBits.toNat / 2 ^ 52 % 2 ^ 11 ≠ 2047 := by
  intro hscale
  have hlast : @unpackExponent Format.binary64 x.toBits.toBitVec = -1#_ := by
    apply BitVec.eq_of_toNat_eq
    rw [toNat_unpackExponent]
    exact hscale
  have hunpacked : x.isFinite = (decode (Sign.ofBitVec (@unpackSign Format.binary64 x.toBits.toBitVec))
      (@unpackExponent Format.binary64 x.toBits.toBitVec)
      (@unpackMantissa Format.binary64 x.toBits.toBitVec)).isFinite := rfl
  rw [hunpacked, decode, if_pos hlast] at h
  split at h <;> cases h

theorem content_of_isFinite {x : Float} (h : x.isFinite = true) :
    ∃ negative mantissa exponent, content x = .finite negative mantissa exponent ∧ Canonical mantissa exponent ∧
      x = ofMagnitude negative (magnitudeBits mantissa exponent) := by
  have hscale := scale_ne_of_isFinite h
  have hlt : x.toBits.toNat < 2 ^ 64 := x.toBits.toNat_lt
  have hleast : leastExponent = -1074 := rfl
  have hword : ∀ bits : Nat, (if (x.toBits.toNat / 2 ^ 63 % 2 == 1) = true then 2 ^ 63 else 0) + bits = x.toBits.toNat →
      x = ofMagnitude (x.toBits.toNat / 2 ^ 63 % 2 == 1) bits := by
    intro bits hbits
    rw [ofMagnitude, hbits, UInt64.ofNat_toNat, ofBits_toBits]
  unfold content contentOfBits
  simp only [if_neg hscale]
  generalize x.toBits.toNat = b at *
  split
  · next hzero =>
    refine ⟨_, _, _, rfl, ⟨by omega, Or.inr rfl, by omega, by omega⟩, hword _ ?_⟩
    unfold magnitudeBits
    split <;> simp_all <;> omega
  · next hpositive =>
    refine ⟨_, _, _, rfl, ⟨by omega, Or.inl (by omega), by omega, by omega⟩, hword _ ?_⟩
    unfold magnitudeBits
    split <;> simp_all <;> omega

end Reckoner.Double
