/-!
# Binary64 numbers by bit pattern

* `Double`: 64 bits, so that every pattern of a not-a-number and the sign of a zero is kept;
* `Double.numEq`: numerical equality, which a not-a-number does not have even with itself;
* `Double.ofDecimal`: the nearest double to a decimal, in exact integer arithmetic.
-/

namespace ItemTree

/-- an IEEE 754 binary64 number -/
structure Double where
  bits : UInt64
  deriving DecidableEq, Repr

namespace Double

/-- sign bit -/
def negative (d : Double) : Bool := d.bits.toNat / Nat.pow 2 63 == 1

/-- biased exponent, `0` for zeros and subnormal numbers, `2047` for the special values -/
def exponentField (d : Double) : Nat := d.bits.toNat / Nat.pow 2 52 % Nat.pow 2 11

/-- the 52 stored bits of the significand -/
def fractionField (d : Double) : Nat := d.bits.toNat % Nat.pow 2 52

def isFinite (d : Double) : Bool := d.exponentField != 2047

def isNaN (d : Double) : Bool := d.exponentField == 2047 && d.fractionField != 0

def isZero (d : Double) : Bool := d.exponentField == 0 && d.fractionField == 0

/-- a finite magnitude is `mantissa * 2 ^ exponent` -/
def mantissa (d : Double) : Nat :=
  if d.exponentField = 0 then d.fractionField else Nat.pow 2 52 + d.fractionField

def exponent (d : Double) : Int := (if d.exponentField = 0 then 1 else d.exponentField : Nat) - 1075

/-- the double just below in magnitude is half as far away as the one just above -/
def atBinade (d : Double) : Bool := d.fractionField == 0 && 1 < d.exponentField

/-- numerical equality: the two zeros are equal, a not-a-number differs from everything -/
def numEq (a b : Double) : Bool := !a.isNaN && !b.isNaN && (a.bits == b.bits || (a.isZero && b.isZero))

/-! ## from a decimal -/

/-- the quotient `num / den` rounded to an integer, a half to the even one -/
def roundHalfEven (num den : Nat) : Nat :=
  let floor := num / den
  let twice := 2 * (num % den)
  if twice < den then floor
  else if den < twice then floor + 1
  else floor + floor % 2

/-- bits of the nearest double to `num / den`, a tie to the even significand; the exponent field and the stored bits
add up, so that a significand rounded up to `2 ^ 53` carries into the exponent -/
def ratioBits (num den : Nat) : Nat :=
  let guess : Int := (Nat.log2 num : Int) - Nat.log2 den - 52
  let fits (e : Int) : Bool := num * Nat.pow 2 (-e).toNat < Nat.pow 2 53 * (den * Nat.pow 2 e.toNat)
  let low := max (-1074) (guess - 1)
  let e := if fits low then low else if fits (low + 1) then low + 1 else low + 2
  (e + 1074).toNat * Nat.pow 2 52 + roundHalfEven (num * Nat.pow 2 (-e).toNat) (den * Nat.pow 2 e.toNat)

/-- the double with a sign and the bits of a magnitude -/
def ofMagnitude (negative : Bool) (bits : Nat) : Double :=
  ⟨UInt64.ofNat ((if negative then Nat.pow 2 63 else 0) + bits)⟩

/-- nearest double to `± significand * 10 ^ exponent`; nothing when it lies beyond the largest finite one. Far
outside the range of the format no power of ten is computed. -/
def ofDecimal (negative : Bool) (significand : Nat) (exponent : Int) : Option Double :=
  if significand = 0 then some (ofMagnitude negative 0)
  else
    let places : Int := (Nat.toDigits 10 significand).length + exponent
    if 310 < places then none
    else if places < -330 then some (ofMagnitude negative 0)
    else
      let bits := ratioBits (significand * Nat.pow 10 exponent.toNat) (Nat.pow 10 (-exponent).toNat)
      if bits < 2047 * Nat.pow 2 52 then some (ofMagnitude negative bits) else none

end Double

end ItemTree
