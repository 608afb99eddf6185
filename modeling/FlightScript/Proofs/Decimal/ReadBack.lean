import FlightScript.Decimal.Shortest
import FlightScript.Proofs.Command.Word
import FlightScript.Proofs.Decimal.Arithmetic
import FlightScript.Proofs.Decimal.Numeral

/-!
# Doubles read back

The shortest numeral of a double is nearest to it (`nearestBits_shortest`), so that both of its
texts are read as the double itself (`read?_plain`, `read?_scientific`). This holds of every
double: of the infinite ones, of the one that is no number, and of both zeros.
-/

namespace FlightScript

theorem Dyadic.value_toDecimal (d : Dyadic) : d.toDecimal.value = d.num / d.den := by
  rw [num_div_den, toDecimal]
  split
  · next hexponent =>
    have hden : d.den = 1 := by
      rw [den, Int.toNat_of_nonpos (Int.neg_nonpos_of_nonneg hexponent)]
    rw [← num_div_den, hden, Decimal.value, zpow_zero, mul_one, Nat.cast_one, div_one]
  · next hexponent =>
    have hnonneg : 0 ≤ -d.exponent := by omega
    have hfive : ((Nat.pow 5 (-d.exponent).toNat : Nat) : ℚ) = (5 ^ d.exponent)⁻¹ := by
      have hpow : ((Nat.pow 5 (-d.exponent).toNat : Nat) : ℚ) = 5 ^ (-d.exponent).toNat := by
        exact_mod_cast rfl
      rw [hpow, ← zpow_natCast, Int.toNat_of_nonneg hnonneg, zpow_neg]
    have hten : (10 : ℚ) ^ d.exponent = 5 ^ d.exponent * 2 ^ d.exponent := by
      rw [← mul_zpow]
      norm_num
    rw [Decimal.value, Nat.cast_mul, hfive, hten, mul_assoc, inv_mul_cancel_left₀ (by positivity)]

namespace Decimal

theorem value_trimZeros (fuel : Nat) (x : Decimal) : (trimZeros fuel x).value = x.value := by
  induction fuel generalizing x with
  | zero => rfl
  | succ fuel ih =>
      rw [trimZeros]
      split
      · next hzero =>
        have hten : (10 : ℚ) ≠ 0 := by norm_num
        have hcoefficient : (x.coefficient : ℚ) = (x.coefficient / 10 : Nat) * 10 := by
          exact_mod_cast (Nat.div_mul_cancel (Nat.dvd_of_mod_eq_zero hzero.2)).symm
        rw [ih, value, value, hcoefficient, zpow_add_one₀ hten]
        ring
      · rfl

end Decimal

namespace Double

open Float.Model (UnpackedFloat Format)
open Float.Model.UnpackedFloat

variable {x : Float}

/-! ### The shortest numeral -/

theorem nearestBits_of_candidate? {bits digits : Nat} {d : Dyadic} {c : Decimal}
    (h : candidate? tie bits d digits = some c) : c.nearestBits = bits := by
  have hfound := List.find?_some h
  exact of_decide_eq_true hfound

/-- The shortest numeral of a finite double is nearest to its magnitude. -/
theorem nearestBits_shortest (tie : Tie) (h : magnitudeBits x < infinityBits) :
    (shortest tie x).nearestBits = magnitudeBits x := by
  simp only [shortest]
  split
  · next hzero =>
    have hvalue : (⟨0, 0⟩ : Decimal).value = (magnitude x).num / (magnitude x).den := by
      rw [Dyadic.num, hzero, Nat.zero_mul, Nat.cast_zero, zero_div, Decimal.value, Nat.cast_zero,
        zero_mul]
    exact Decimal.nearestBits_of_eq_magnitude h hvalue
  · rw [Decimal.nearestBits_congr (Decimal.value_trimZeros 17 _)]
    cases hfound :
        (List.range' 1 17).findSome? (candidate? tie (magnitudeBits x) (magnitude x)) with
    | none =>
        exact Decimal.nearestBits_of_eq_magnitude h (magnitude x).value_toDecimal
    | some c =>
        obtain ⟨digits, -, hc⟩ := List.exists_of_findSome?_eq_some hfound
        exact nearestBits_of_candidate? hc

/-! ### A double and its pattern -/

theorem magnitudeBits_lt_of_isFinite (h : x.isFinite) : magnitudeBits x < infinityBits := by
  have hlimit : infinityBits = 2047 * 2 ^ 52 := rfl
  change x.toModel.unpack.isFinite at h
  change x.toBits.toNat % 2 ^ 63 < _
  cases hu : x.toModel.unpack with
  | finite s m e hm =>
      obtain ⟨-, hfields⟩ := unpack_eq_finite hu
      change (x.toBits.toNat / 2 ^ 52 % 2 ^ 11 = 0 ∧ _) ∨
        (0 < x.toBits.toNat / 2 ^ 52 % 2 ^ 11 ∧ x.toBits.toNat / 2 ^ 52 % 2 ^ 11 < 2047 ∧ _)
        at hfields
      generalize x.toBits.toNat = bits at *
      rcases hfields with ⟨hfield, -⟩ | ⟨-, hfield, -⟩ <;> omega
  | zero s =>
      have hbits : x.toBits.toNat % 2 ^ 63 = 0 := unpack_eq_zero hu
      omega
  | infinity s => simp [hu, UnpackedFloat.isFinite] at h
  | notANumber => simp [hu, UnpackedFloat.isFinite] at h

theorem magnitudeBits_of_isInf (h : x.isInf) : magnitudeBits x = infinityBits := by
  change x.toModel.unpack.isInf at h
  cases hu : x.toModel.unpack with
  | infinity s => exact unpack_eq_infinity hu
  | _ => simp [hu, UnpackedFloat.isInf] at h

/-- There is one value that is not a number. -/
theorem eq_nan_of_isNaN (h : x.isNaN) : x = nan := by
  have hu : unpack Format.binary64 x.toBits.toBitVec = .notANumber := isNaN_iff.1 h
  have hbits : Float.ofBits x.toBits =
      ⟨Float.Model.pack (unpack Format.binary64 x.toBits.toBitVec)⟩ := rfl
  rw [← Float.ofBits_toBits x, hbits, hu]
  rfl

theorem unpack_ofBits (bits : UInt64) :
    (Float.ofBits bits).toModel.unpack = overflow (unpack Format.binary64 bits.toBitVec) :=
  unpack_pack (isCanonical_unpack _)

theorem lt_of_isNaN_ofBits {bits : UInt64} (h : (Float.ofBits bits).isNaN) :
    infinityBits < bits.toNat % 2 ^ 63 := by
  rw [isNaN_iff, unpack_ofBits] at h
  cases hu : unpack Format.binary64 bits.toBitVec with
  | notANumber => exact unpack_eq_notANumber hu
  | finite s m e hm =>
      rw [hu, overflow] at h
      split at h <;> cases h
  | _ =>
      rw [hu] at h
      cases h

/-- The patterns up to that of infinity are those of numbers. -/
theorem not_isNaN_ofMagnitudeBits {bits : Nat} (negative : Bool) (h : bits ≤ infinityBits) :
    ¬ (ofMagnitudeBits negative bits).isNaN := by
  have hlimit : infinityBits = 2047 * 2 ^ 52 := rfl
  have htwo : twoPow 63 = 2 ^ 63 := rfl
  intro hnan
  have hlt := lt_of_isNaN_ofBits hnan
  rw [UInt64.toNat_ofNat', htwo] at hlt
  split at hlt <;> omega

/-- A double is put together from its sign and its magnitude. -/
theorem ofMagnitudeBits_self (x : Float) :
    ofMagnitudeBits (isNegative x) (magnitudeBits x) = x := by
  have hlt : x.toBits.toNat < 2 ^ 64 := x.toBits.toNat_lt
  have hbits : magnitudeBits x + (if isNegative x then twoPow 63 else 0) = x.toBits.toNat := by
    have htwo : twoPow 63 = 2 ^ 63 := rfl
    rw [magnitudeBits, isNegative, htwo]
    split
    · next hneg =>
      have hle := of_decide_eq_true hneg
      omega
    · next hneg =>
      have hle := of_decide_eq_false (Bool.not_eq_true _ ▸ hneg)
      omega
  rw [ofMagnitudeBits, hbits, UInt64.ofNat_toNat]
  exact Float.ofBits_toBits x

/-! ### The two texts -/

def IsUnsigned (cs : List Char) : Prop :=
  ∀ c, cs.head? = some c → c ≠ '-' ∧ c ≠ '+'

theorem read?_sign {cs : List Char} (h : IsUnsigned cs) (negative : Bool) :
    read? (if negative then '-' :: cs else cs) = readUnsigned? negative cs := by
  cases negative with
  | true => rfl
  | false =>
      rw [if_neg Bool.false_ne_true, read?]
      · rintro rest rfl
        exact (h '-' rfl).1 rfl
      · rintro rest rfl
        exact (h '+' rfl).2 rfl

theorem isUnsigned_of_read? {cs : List Char} {y : Decimal} (h : Decimal.read? cs = some y) :
    IsUnsigned cs := by
  cases cs with
  | nil => simp [IsUnsigned]
  | cons c cs =>
      intro d hd
      obtain rfl := Option.some.inj hd
      refine not_or.1 fun hsign => ?_
      rw [Decimal.read?_cons_of_sign cs hsign] at h
      cases h

theorem isAlpha_of_map_toLower {name : String} {cs : List Char}
    (hname : name.toList.all Char.isAlpha) (h : cs.map Char.toLower = name.toList) :
    ∀ c ∈ cs, c.isAlpha := by
  intro c hc
  have hlower : c.toLower ∈ name.toList := h ▸ List.mem_map_of_mem hc
  exact Words.isAlpha_of_toLower (List.all_eq_true.1 hname _ hlower)

/-- A numeral is none of the names of numbers, for it has a digit. -/
theorem readUnsigned?_of_read? {cs : List Char} {y : Decimal} (h : Decimal.read? cs = some y)
    (negative : Bool) : readUnsigned? negative cs = some (y.toDouble negative) := by
  obtain ⟨⟨d, hd, hdigit⟩, -⟩ := Decimal.read?_sound h
  have hname : ∀ name : String, name.toList.all Char.isAlpha →
      cs.map Char.toLower ≠ name.toList := by
    intro name hletters heq
    have halpha := isAlpha_of_map_toLower hletters heq d hd
    rw [Decimal.isAlpha_eq_false_of_isDigit hdigit] at halpha
    cases halpha
  rw [readUnsigned?, if_neg (not_or.2 ⟨hname "inf" rfl, hname "infinity" rfl⟩),
    if_neg (hname "nan" rfl), h, Option.map_some]

/-- A text of a double is read as it if the text of its magnitude is. -/
theorem read?_withSign {cs : List Char} {y : Decimal} (hread : Decimal.read? cs = some y)
    (hnearest : x.isFinite → y.nearestBits = magnitudeBits x) :
    read? (withSign x cs).toList = some x := by
  by_cases hnan : x.isNaN
  · rw [withSign, if_pos hnan, eq_nan_of_isNaN hnan]
    decide
  · rw [withSign, if_neg hnan, String.toList_ofList]
    by_cases hfinite : x.isFinite
    · rw [if_pos hfinite, read?_sign (isUnsigned_of_read? hread), readUnsigned?_of_read? hread,
        Decimal.toDouble, hnearest hfinite, ofMagnitudeBits_self]
    · have hinf : magnitudeBits x = infinityBits :=
        magnitudeBits_of_isInf (isInf_iff.2 ⟨hfinite, hnan⟩)
      have hunsigned : IsUnsigned "inf".toList := by
        rintro c hc
        obtain rfl := Option.some.inj hc
        decide
      rw [if_neg hfinite, read?_sign hunsigned]
      conv_rhs => rw [← ofMagnitudeBits_self x, hinf]
      rfl

/-- What is read as a number has nothing in it that does not belong in a number. -/
theorem forall_isNumeral_of_read? {cs : List Char} (h : read? cs = some x) :
    ∀ c ∈ cs, Decimal.isNumeral c := by
  have hunsigned : ∀ (negative : Bool) (ds : List Char), readUnsigned? negative ds = some x →
      ∀ c ∈ ds, Decimal.isNumeral c := by
    intro negative ds hds
    have hname : ∀ name : String, name.toList.all Char.isAlpha →
        ds.map Char.toLower = name.toList → ∀ c ∈ ds, Decimal.isNumeral c :=
      fun name hletters heq c hc =>
        Decimal.isNumeral_of_isAlpha (isAlpha_of_map_toLower hletters heq c hc)
    simp only [readUnsigned?] at hds
    split at hds
    · next hinf => exact hinf.elim (hname "inf" rfl) (hname "infinity" rfl)
    · split at hds
      · next hnan => exact hname "nan" rfl hnan
      · obtain ⟨y, hy, -⟩ := Option.map_eq_some_iff.1 hds
        exact (Decimal.read?_sound hy).2
  unfold read? at h
  split at h
  · exact List.forall_mem_cons.2 ⟨rfl, hunsigned _ _ h⟩
  · exact List.forall_mem_cons.2 ⟨rfl, hunsigned _ _ h⟩
  · exact hunsigned _ _ h

theorem read?_plain (x : Float) : read? (plain x).toList = some x := by
  obtain ⟨y, hread, hvalue⟩ := (shortest .up x).exists_read?_plain
  refine read?_withSign hread fun hfinite => ?_
  rw [Decimal.nearestBits_congr hvalue,
    nearestBits_shortest .up (magnitudeBits_lt_of_isFinite hfinite)]

theorem read?_scientific (x : Float) : read? (scientific x).toList = some x := by
  obtain ⟨y, hread, hvalue⟩ := (shortest .even x).exists_read?_scientific
  refine read?_withSign hread fun hfinite => ?_
  rw [Decimal.nearestBits_congr hvalue,
    nearestBits_shortest .even (magnitudeBits_lt_of_isFinite hfinite)]

theorem exists_not_isDigit_scientific (x : Float) :
    ∃ c ∈ (scientific x).toList, c.isDigit = false := by
  obtain ⟨c, hc, hdigit⟩ := (shortest .even x).exists_not_isDigit_scientific
  rw [scientific, withSign]
  split
  · exact ⟨'N', by decide, rfl⟩
  · rw [String.toList_ofList]
    have hbody : ∃ c ∈ if x.isFinite then (shortest .even x).scientific else "inf".toList,
        c.isDigit = false := by
      split
      · exact ⟨c, hc, hdigit⟩
      · exact ⟨'i', by decide, rfl⟩
    obtain ⟨d, hd, hfalse⟩ := hbody
    refine ⟨d, ?_, hfalse⟩
    split
    · exact List.mem_cons_of_mem '-' hd
    · exact hd

end Double

end FlightScript
