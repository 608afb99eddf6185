import FlightScript.Decimal.Double
import Mathlib

/-!
# Doubles unpacked

The library computes with doubles in an unpacked form, a sign, a mantissa and an exponent. This
module says which unpacked form the bits of a double have (`unpack_eq_finite`, `unpack_eq_zero`),
and that packing and unpacking again changes nothing but a number that is too great, which
becomes infinite (`unpack_pack`).
-/

namespace FlightScript

namespace Double

open Float.Model (UnpackedFloat Format totalExponent)
open Float.Model.UnpackedFloat

variable {b : BitVec Format.binary64.numBits} {s : Sign} {m : Nat} {e : Int}

/-! ### The fields -/

theorem toNat_unpackMantissa (b : BitVec Format.binary64.numBits) :
    (unpackMantissa b).toNat = b.toNat % 2 ^ 52 := by
  simp [unpackMantissa]

theorem toNat_unpackExponent (b : BitVec Format.binary64.numBits) :
    (unpackExponent b).toNat = b.toNat / 2 ^ 52 % 2 ^ 11 := by
  simp [unpackExponent, Nat.shiftRight_eq_div_pow]

theorem toNat_unpackSign (b : BitVec Format.binary64.numBits) :
    (unpackSign b).toNat = b.toNat / 2 ^ 63 := by
  have h : b.toNat < 2 ^ 64 := b.isLt
  have hmod : (unpackSign b).toNat = b.toNat / 2 ^ 63 % 2 := by
    simp [unpackSign, Nat.shiftRight_eq_div_pow]
  omega

theorem ofBitVec_eq_negative_iff (v : BitVec 1) : Sign.ofBitVec v = .negative ↔ v.toNat = 1 := by
  rcases BitVec.eq_zero_or_eq_one v with rfl | rfl <;> simp [Sign.ofBitVec]

@[simp] theorem ofBitVec_toBitVec (s : Sign) : Sign.ofBitVec s.toBitVec = s := by
  cases s <;> rfl

theorem unpackSign_packComponents {exponent : BitVec 11} {mantissa : BitVec 52} :
    unpackSign (packComponents Format.binary64 s exponent mantissa) = s.toBitVec := by
  simp only [unpackSign, packComponents, BitVec.extractLsb]
  rw [BitVec.extractLsb'_append_eq_of_le (by omega),
    BitVec.extractLsb'_append_eq_of_le (by omega)]
  cases s <;> rfl

/-! ### From the bits to the unpacked form -/

theorem unpack_eq_finite {h : 0 < m} (hu : unpack Format.binary64 b = .finite s m e h) :
    s = Sign.ofBitVec (unpackSign b) ∧
      ((b.toNat / 2 ^ 52 % 2 ^ 11 = 0 ∧ m = b.toNat % 2 ^ 52 ∧ e = -1074) ∨
        (0 < b.toNat / 2 ^ 52 % 2 ^ 11 ∧ b.toNat / 2 ^ 52 % 2 ^ 11 < 2047 ∧
          m = b.toNat % 2 ^ 52 + 2 ^ 52 ∧ e = (b.toNat / 2 ^ 52 % 2 ^ 11 : Nat) - 1075)) := by
  unfold unpack at hu
  simp only at hu
  split at hu
  · split at hu <;> cases hu
  · next htop =>
    split at hu
    · next hlow =>
      split at hu
      · cases hu
      · have hfield := congrArg BitVec.toNat hlow
        injection hu with hs hm he
        rw [toNat_unpackExponent] at hfield
        rw [toNat_unpackMantissa] at hm
        rw [toNat_unpackExponent, hfield] at he
        refine ⟨hs.symm, Or.inl ⟨hfield, hm.symm, ?_⟩⟩
        rw [← he]
        rfl
    · next hlow =>
      injection hu with hs hm he
      refine ⟨hs.symm, Or.inr ⟨?_, ?_, ?_, ?_⟩⟩
      · refine Nat.pos_of_ne_zero fun hzero => hlow (BitVec.eq_of_toNat_eq ?_)
        rw [toNat_unpackExponent, hzero]
        rfl
      · have hne : b.toNat / 2 ^ 52 % 2 ^ 11 ≠ 2047 := fun hall =>
          htop (BitVec.eq_of_toNat_eq (by rw [toNat_unpackExponent, hall]; rfl))
        have hlt := Nat.mod_lt (b.toNat / 2 ^ 52) (by decide : 0 < 2 ^ 11)
        omega
      · rw [← hm, BitVec.toNat_append, toNat_unpackMantissa, Nat.or_comm]
        exact Nat.or_two_pow_eq_add_of_lt (Nat.mod_lt _ (by decide))
      · rw [← he, toNat_unpackExponent]
        rfl

theorem unpack_eq_zero (hu : unpack Format.binary64 b = .zero s) : b.toNat % 2 ^ 63 = 0 := by
  unfold unpack at hu
  simp only at hu
  split at hu
  · split at hu <;> cases hu
  · split at hu
    · next hlow =>
      split at hu
      · next hzero =>
        have hfield := congrArg BitVec.toNat hlow
        have hmantissa := congrArg BitVec.toNat hzero
        rw [toNat_unpackExponent] at hfield
        rw [toNat_unpackMantissa] at hmantissa
        simp only [BitVec.toNat_ofNat, Nat.zero_mod] at hfield hmantissa
        omega
      · cases hu
    · cases hu

/-- What is not finite has the greatest exponent, and is told by the mantissa. -/
theorem exponent_of_not_isFinite (h : (unpack Format.binary64 b).isFinite = false) :
    b.toNat / 2 ^ 52 % 2 ^ 11 = 2047 ∧
      (unpack Format.binary64 b = .notANumber ↔ b.toNat % 2 ^ 52 ≠ 0) := by
  rw [← toNat_unpackExponent, ← toNat_unpackMantissa]
  unfold unpack at h ⊢
  simp only at h ⊢
  split at h
  · next htop =>
    rw [if_pos htop]
    refine ⟨congrArg BitVec.toNat htop, ?_⟩
    split
    · next hzero => simpa using congrArg BitVec.toNat hzero
    · next hne => simpa using mt (BitVec.eq_of_toNat_eq (y := 0)) hne
  · split at h
    · split at h <;> cases h
    · cases h

theorem unpack_eq_infinity (hu : unpack Format.binary64 b = .infinity s) :
    b.toNat % 2 ^ 63 = infinityBits := by
  have hlimit : infinityBits = 2047 * 2 ^ 52 := rfl
  obtain ⟨hfield, hmantissa⟩ := exponent_of_not_isFinite (b := b) (by rw [hu]; rfl)
  rw [hu] at hmantissa
  simp only [reduceCtorEq, false_iff, not_not] at hmantissa
  omega

theorem unpack_eq_notANumber (hu : unpack Format.binary64 b = .notANumber) :
    infinityBits < b.toNat % 2 ^ 63 := by
  have hlimit : infinityBits = 2047 * 2 ^ 52 := rfl
  obtain ⟨hfield, hmantissa⟩ := exponent_of_not_isFinite (b := b) (by rw [hu]; rfl)
  have hne := hmantissa.1 hu
  omega

/-! ### Packed and unpacked again -/

/-- The mantissa and the exponent are those that a double of this size is given. The exponent
may be too great. -/
def IsCanonical : UnpackedFloat → Prop
  | .finite _ m e _ => m < 2 ^ 53 ∧ -1074 ≤ e ∧ (2 ^ 52 ≤ m ∨ e = -1074)
  | _ => True

/-- A number whose exponent is too great becomes infinite. -/
def overflow : UnpackedFloat → UnpackedFloat
  | .finite s m e h => if 971 < e then .infinity s else .finite s m e h
  | u => u

theorem isCanonical_unpack (b : BitVec Format.binary64.numBits) :
    IsCanonical (unpack Format.binary64 b) := by
  cases hu : unpack Format.binary64 b with
  | finite s m e h =>
      obtain ⟨-, ⟨-, hm, he⟩ | ⟨hpos, -, hm, he⟩⟩ := unpack_eq_finite hu
      · exact ⟨by omega, by omega, Or.inr he⟩
      · exact ⟨by omega, by omega, Or.inl (by omega)⟩
  | _ => trivial

theorem unpack_packedInfinity (s : Sign) :
    unpack Format.binary64 (packedInfinity Format.binary64 s) = .infinity s := by
  cases s <;> rfl

theorem unpack_packComponents_low {mantissa : BitVec 52} (h : 0 < mantissa.toNat) :
    unpack Format.binary64 (packComponents Format.binary64 s 0#11 mantissa) =
      .finite s mantissa.toNat (-1074) h := by
  have htop : (0#11 : BitVec 11) ≠ -1#11 := by decide
  have hzero : mantissa ≠ 0#52 := by
    rintro rfl
    exact absurd h (by decide)
  unfold unpack
  simp only [unpackExponent_packComponents, unpackMantissa_packComponents,
    unpackSign_packComponents, ofBitVec_toBitVec, htop, hzero, ↓reduceIte, ↓reduceDIte]
  rfl

theorem unpack_packComponents_of_pos {exponent : BitVec 11} {mantissa : BitVec 52}
    (htop : exponent ≠ -1#11) (hlow : exponent ≠ 0#11) :
    unpack Format.binary64 (packComponents Format.binary64 s exponent mantissa) =
      .finite s (mantissa.toNat + 2 ^ 52) ((exponent.toNat : Int) - 1075) (by omega) := by
  have happend : (1#1 ++ mantissa).toNat = mantissa.toNat + 2 ^ 52 := by
    rw [BitVec.toNat_append, Nat.or_comm]
    exact Nat.or_two_pow_eq_add_of_lt mantissa.isLt
  unfold unpack
  simp only [unpackExponent_packComponents, unpackMantissa_packComponents,
    unpackSign_packComponents, ofBitVec_toBitVec, htop, hlow, ↓reduceIte]
  congr 1

/-- A mantissa with all bits and an exponent that is not too great are kept. -/
theorem unpack_packComponents_full (hfull : 2 ^ 52 ≤ m) (hlt : m < 2 ^ 53) (hle : -1074 ≤ e)
    (htop : e ≤ 971) :
    unpack Format.binary64 (packComponents Format.binary64 s
      (BitVec.ofNat 11 (e + 1075).toNat) (BitVec.ofNat 52 m)) = .finite s m e (by omega) := by
  have hexponent : (BitVec.ofNat 11 (e + 1075).toNat).toNat = (e + 1075).toNat := by
    rw [BitVec.toNat_ofNat, Nat.mod_eq_of_lt (by omega)]
  have hmantissa : (BitVec.ofNat 52 m).toNat + 2 ^ 52 = m := by
    rw [BitVec.toNat_ofNat]
    omega
  have hneg : BitVec.ofNat 11 (e + 1075).toNat ≠ -1#11 := fun heq => by
    have hall : (e + 1075).toNat = 2047 := hexponent.symm.trans (congrArg BitVec.toNat heq)
    omega
  have hzero : BitVec.ofNat 11 (e + 1075).toNat ≠ 0#11 := fun heq => by
    have hnone : (e + 1075).toNat = 0 := hexponent.symm.trans (congrArg BitVec.toNat heq)
    omega
  rw [unpack_packComponents_of_pos hneg hzero]
  congr 1
  omega

theorem pack_finite {h : 0 < m} : pack Format.binary64 (.finite s m e h) =
    if 2047 ≤ (e + 1075).toNat then packedInfinity Format.binary64 s
    else if m.log2 = 52 then
      packComponents Format.binary64 s (BitVec.ofNat 11 (e + 1075).toNat) (BitVec.ofNat 52 m)
    else packComponents Format.binary64 s 0#11 (BitVec.ofNat 52 m) := by
  have hbiased : (e + (Format.binary64.exponentBias : Int) +
      (Format.binary64.mantissaBitsWithoutImplicit : Int)).toNat = (e + 1075).toNat := by
    change (e + 1023 + 52).toNat = _
    rw [Int.add_assoc]
    rfl
  have htop : 2 ^ Format.binary64.exponentBits ≤ (e + 1075).toNat + 1 ↔
      2047 ≤ (e + 1075).toNat := by
    change 2048 ≤ _ ↔ _
    omega
  have hlog : m.log2 + 1 = Format.binary64.mantissaBits ↔ m.log2 = 52 :=
    Nat.add_right_cancel_iff (n := 1)
  unfold pack
  simp only [hbiased, htop, hlog]

theorem unpack_pack {u : UnpackedFloat} (h : IsCanonical u) :
    unpack Format.binary64 (pack Format.binary64 u) = overflow u := by
  cases u with
  | notANumber => rfl
  | infinity s => exact unpack_packedInfinity s
  | zero s => cases s <;> rfl
  | finite s m e hm =>
      obtain ⟨hlt, hle, hnormal⟩ := h
      rw [pack_finite, overflow]
      by_cases htop : 971 < e
      · rw [if_pos (by omega), if_pos htop, unpack_packedInfinity]
      · rw [if_neg (by omega), if_neg htop]
        by_cases hhigh : 2 ^ 52 ≤ m
        · rw [if_pos ((Nat.log2_eq_iff (Nat.ne_of_gt hm)).2 ⟨hhigh, hlt⟩)]
          exact unpack_packComponents_full hhigh hlt hle (not_lt.1 htop)
        · rw [if_neg fun hlog => hhigh ((Nat.log2_eq_iff (Nat.ne_of_gt hm)).1 hlog).1]
          have hmantissa : (BitVec.ofNat 52 m).toNat = m := by
            rw [BitVec.toNat_ofNat, Nat.mod_eq_of_lt (by omega)]
          rw [unpack_packComponents_low (by omega)]
          congr 1
          exact (hnormal.resolve_left hhigh).symm

theorem unpack_packComponents_ne_notANumber {exponent : BitVec 11} {mantissa : BitVec 52}
    (h : exponent ≠ -1#11) :
    unpack Format.binary64 (packComponents Format.binary64 s exponent mantissa) ≠
      .notANumber := by
  unfold unpack
  simp only [unpackExponent_packComponents, h, ↓reduceIte]
  split
  · split <;> simp
  · simp

/-- What is packed is a number if it was one, even if it has to be rounded. -/
theorem unpack_pack_ne_notANumber {u : UnpackedFloat} (h : u ≠ .notANumber) :
    unpack Format.binary64 (pack Format.binary64 u) ≠ .notANumber := by
  cases u with
  | notANumber => exact absurd rfl h
  | infinity s => simp [pack, unpack_packedInfinity]
  | zero s => exact unpack_packComponents_ne_notANumber (by decide)
  | finite s m e hm =>
      rw [pack_finite]
      split
      · simp [unpack_packedInfinity]
      · next hlt =>
        split
        · refine unpack_packComponents_ne_notANumber fun heq => hlt ?_
          have hexponent : (e + 1075).toNat % 2 ^ 11 = 2047 := congrArg BitVec.toNat heq
          omega
        · exact unpack_packComponents_ne_notANumber (by decide)

end Double

end FlightScript
