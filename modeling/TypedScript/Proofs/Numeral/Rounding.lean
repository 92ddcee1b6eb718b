import Mathlib
import TypedScript.Numeral.Decimal

/-! # Decimal numbers are never rounded to what is no number

Where the digits and the power of ten are exact the double is their product or quotient, and
else the number is rounded as a whole. Rounding gives a finite double or an infinite one, and
none of the powers is zero or infinite, so that neither way leads out of the numbers.
-/

namespace TypedScript.Numeral

open Float.Model

def IsFinite : UnpackedFloat → Prop
  | .finite .. => True
  | _ => False

instance : DecidablePred IsFinite := fun x =>
  match x with
  | .finite .. => .isTrue trivial
  | .infinity _ | .notANumber | .zero _ => .isFalse id

variable {spec : Format} {x y : UnpackedFloat}

theorem isNaN_roundWithAccuracy (sign : UnpackedFloat.Sign) (m : Nat) (e : Int)
    (accuracy : UnpackedFloat.Accuracy) :
    (UnpackedFloat.roundWithAccuracy spec sign m e accuracy).isNaN = false := by
  simp only [UnpackedFloat.roundWithAccuracy]
  split <;> rfl

theorem isNaN_mul (hx : x.isNaN = false) (hy : IsFinite y) :
    (UnpackedFloat.mul spec x y).isNaN = false := by
  cases y with
  | finite =>
    cases x with
    | notANumber => cases hx
    | infinity => rfl
    | zero => rfl
    | finite => exact isNaN_roundWithAccuracy ..
  | _ => exact hy.elim

theorem isNaN_div (hx : x.isNaN = false) (hy : IsFinite y) :
    (UnpackedFloat.div spec x y).isNaN = false := by
  cases y with
  | finite =>
    cases x with
    | notANumber => cases hx
    | infinity => rfl
    | zero => rfl
    | finite => exact isNaN_roundWithAccuracy ..
  | _ => exact hy.elim

theorem isNaN_unpack {b : BitVec spec.numBits}
    (h : UnpackedFloat.unpackExponent b = -1#_ → UnpackedFloat.unpackMantissa b = 0#_) :
    (UnpackedFloat.unpack spec b).isNaN = false := by
  simp only [UnpackedFloat.unpack]
  split
  · rw [if_pos (h ‹_›)]
    rfl
  · split
    · split <;> rfl
    · rfl

theorem unpackExponent_ofNat_ne {n : Nat} (h : n + 1 < 2 ^ spec.exponentBits) :
    BitVec.ofNat spec.exponentBits n ≠ -1#_ := by
  intro heq
  have hnat := congrArg BitVec.toNat heq
  rw [BitVec.neg_one_eq_allOnes, BitVec.toNat_allOnes, BitVec.toNat_ofNat,
    Nat.mod_eq_of_lt (by omega)] at hnat
  omega

theorem isNaN_unpack_pack (hx : x.isNaN = false) :
    (UnpackedFloat.unpack spec (UnpackedFloat.pack spec x)).isNaN = false := by
  apply isNaN_unpack
  fun_cases UnpackedFloat.pack spec x with
  | case1 => cases hx
  | case2 => simp [UnpackedFloat.packedInfinity]
  | case3 => simp [UnpackedFloat.packedZero]
  | case4 => simp [UnpackedFloat.packedInfinity]
  | case5 s m e hm _ biased hfits =>
    rw [UnpackedFloat.unpackExponent_packComponents]
    exact fun h => absurd h (unpackExponent_ofNat_ne (by omega))
  | case6 s m e hm _ biased hfits =>
    -- a number below the normal ones has the exponent zero
    rw [UnpackedFloat.unpackExponent_packComponents]
    have hzero : 0 + 1 < 2 ^ spec.exponentBits := by omega
    exact fun h => absurd h (unpackExponent_ofNat_ne hzero)

theorem isNaN_pack (hx : x.isNaN = false) : (pack x).isNaN = false :=
  isNaN_unpack_pack hx

theorem isNaN_normalize (mantissa e : Int) (sign : UnpackedFloat.Sign) :
    (UnpackedFloat.normalize spec mantissa e sign).isNaN = false := by
  simp only [UnpackedFloat.normalize]
  split
  · exact isNaN_roundWithAccuracy ..
  · rfl
  · exact isNaN_roundWithAccuracy ..

theorem isNaN_toFloat_uInt64 (n : UInt64) : n.toFloat.isNaN = false :=
  isNaN_pack (isNaN_normalize ..)

theorem isFinite_of_mem_powersOfTen :
    ∀ f ∈ Float.exactlyRepresentablePowersOfTen.toList, IsFinite f.toModel.unpack := by
  decide +kernel

theorem isNaN_unpackedOfScientific (m : Nat) (e : Int) :
    (UnpackedFloat.ofScientific spec m e).isNaN = false := by
  fun_cases UnpackedFloat.ofScientific spec m e with
  | case1 => rfl
  | case2 => rfl
  | case3 => rfl
  | case4 => exact isNaN_mul rfl trivial
  | case5 => exact isNaN_div rfl trivial

theorem isNaN_ofScientific (m : Nat) (negative : Bool) (e : Nat) :
    (Float.ofScientific m negative e).isNaN = false := by
  simp only [Float.ofScientific]
  split
  · next h =>
    have hsize : e < Float.exactlyRepresentablePowersOfTen.size := Nat.lt_succ_of_le h.2
    have hpower := isFinite_of_mem_powersOfTen _ (Array.getElem_mem_toList hsize)
    split
    · exact isNaN_pack (isNaN_div (isNaN_toFloat_uInt64 _) hpower)
    · exact isNaN_pack (isNaN_mul (isNaN_toFloat_uInt64 _) hpower)
  · exact isNaN_pack (isNaN_unpackedOfScientific ..)

theorem isNaN_toFloat (d : Decimal) : d.toFloat.isNaN = false :=
  isNaN_ofScientific _ _ _

end TypedScript.Numeral
