/-
Binary floating point, by bit pattern.

A number of a binary interchange format is a sign, a biased exponent and a
fraction.  Counted in units of the smallest subnormal every finite value is an
integer (`scaled`), and the bit pattern of an infinity counts as a value above all
finite ones, so comparison is comparison of integers.  Sums and differences of
such integers are exact; `roundMag` then rounds the exact magnitude back to the
format, to nearest with ties to even.  A NaN compares with nothing.
-/
import Mathlib.Tactic.Ring

namespace IowarpCore

/-- A binary interchange format: how many exponent and fraction bits it has. -/
structure FloatFormat where
  expBits : Nat
  fracBits : Nat

namespace FloatFormat

def single : FloatFormat := ⟨8, 23⟩
def double : FloatFormat := ⟨11, 52⟩

variable (F : FloatFormat)

/-- The sign bit, which is also the number of magnitudes. -/
def signBit : Nat := 2 ^ (F.expBits + F.fracBits)

/-- The magnitude bits of an infinity; anything above is a NaN. -/
def infMag : Nat := (2 ^ F.expBits - 1) * 2 ^ F.fracBits

def mag (bits : Nat) : Nat := bits % F.signBit

def isNeg (bits : Nat) : Bool := decide (F.signBit ≤ bits)

def isNaN (bits : Nat) : Bool := decide (F.infMag < F.mag bits)

def isInf (bits : Nat) : Bool := decide (F.mag bits = F.infMag)

/-- The magnitude in units of the smallest subnormal. -/
def scaledMag (m : Nat) : Nat :=
  if m < 2 ^ F.fracBits then m
  else (2 ^ F.fracBits + m % 2 ^ F.fracBits) * 2 ^ (m / 2 ^ F.fracBits - 1)

def scaled (bits : Nat) : Int :=
  if F.isNeg bits then -(F.scaledMag (F.mag bits) : Int) else F.scaledMag (F.mag bits)

def lt (a b : Nat) : Bool := !F.isNaN a && !F.isNaN b && decide (F.scaled a < F.scaled b)

def le (a b : Nat) : Bool := !F.isNaN a && !F.isNaN b && decide (F.scaled a ≤ F.scaled b)

/--
The magnitude nearest to `n / 2 ^ k` units, ties to even.  The quotient keeps
`fracBits + 1` significant bits; a quotient that rounds up to one bit more carries
into the exponent by itself, because the exponent sits above the fraction.
-/
def roundMag (n k : Nat) : Nat :=
  let shift := (n / 2 ^ k).log2 - F.fracBits
  let unit := 2 ^ (k + shift)
  let q := n / unit
  let r := n % unit
  let up := if 2 * r < unit then 0 else if unit < 2 * r then 1 else q % 2
  min (shift * 2 ^ F.fracBits + q + up) F.infMag

/-- The magnitude nearest to `n / d` units, ties to even. -/
def roundQuot (n d : Nat) : Nat :=
  let shift := (n / d).log2 - F.fracBits
  let unit := d * 2 ^ shift
  let q := n / unit
  let r := n % unit
  let up := if 2 * r < unit then 0 else if unit < 2 * r then 1 else q % 2
  min (shift * 2 ^ F.fracBits + q + up) F.infMag

/-- One is `2 ^ unitBits` units. -/
def unitBits : Nat := 2 ^ (F.expBits - 1) + F.fracBits - 2

def ofNat (n : Nat) : Nat := F.roundQuot (n * 2 ^ F.unitBits) 1

/-- The quotient of two positive finite numbers. -/
def div (a b : Nat) : Nat := F.roundQuot (F.scaledMag a * 2 ^ F.unitBits) (F.scaledMag b)

def quietNaN : Nat := F.infMag + 2 ^ (F.fracBits - 1)

def neg (bits : Nat) : Nat :=
  if F.isNeg bits then F.mag bits else F.signBit + F.mag bits

def abs (bits : Nat) : Nat := F.mag bits

/-- Round the exact value `v / 2 ^ k`; an exact zero takes the sign given. -/
def ofScaled (v : Int) (k : Nat) (zeroNeg : Bool) : Nat :=
  if v = 0 then (if zeroNeg then F.signBit else 0)
  else if v < 0 then F.signBit + F.roundMag v.natAbs k
  else F.roundMag v.natAbs k

def add (a b : Nat) : Nat :=
  if F.isNaN a || F.isNaN b then F.quietNaN
  else if F.isInf a then (if F.isInf b && F.isNeg a != F.isNeg b then F.quietNaN else a)
  else if F.isInf b then b
  else F.ofScaled (F.scaled a + F.scaled b) 0 (F.isNeg a && F.isNeg b)

def sub (a b : Nat) : Nat :=
  if F.isNaN b then F.quietNaN else F.add a (F.neg b)

/-- Division by two. -/
def half (a : Nat) : Nat :=
  if F.isNaN a then F.quietNaN
  else if F.isInf a then a
  else F.ofScaled (F.scaled a) 1 (F.isNeg a)

end FloatFormat

/-- A C `float`. -/
structure F32 where
  bits : UInt32
  deriving DecidableEq, Repr, Inhabited

namespace FloatFormat

variable (F : FloatFormat) {a b : Nat}

/-- Numbers are ordered like the integers they count. -/
theorem lt_eq_of_numbers (ha : F.isNaN a = false) (hb : F.isNaN b = false) :
    F.lt a b = decide (F.scaled a < F.scaled b) := by
  rw [lt, ha, hb]
  rfl

end FloatFormat

namespace F32

def lt (a b : F32) : Bool := FloatFormat.single.lt a.bits.toNat b.bits.toNat
def le (a b : F32) : Bool := FloatFormat.single.le a.bits.toNat b.bits.toNat
def sub (a b : F32) : F32 := ⟨UInt32.ofNat (FloatFormat.single.sub a.bits.toNat b.bits.toNat)⟩
def abs (a : F32) : F32 := ⟨UInt32.ofNat (FloatFormat.single.abs a.bits.toNat)⟩

def ofNat (n : Nat) : F32 := ⟨UInt32.ofNat (FloatFormat.single.ofNat n)⟩
def div (a b : F32) : F32 := ⟨UInt32.ofNat (FloatFormat.single.div a.bits.toNat b.bits.toNat)⟩

def zero : F32 := ⟨0⟩
def one : F32 := ⟨0x3f800000⟩
def negOne : F32 := ⟨0xbf800000⟩

end F32

/-- A C `double`. -/
structure F64 where
  bits : UInt64
  deriving DecidableEq, Repr, Inhabited

namespace F64

def isNaN (a : F64) : Bool := FloatFormat.double.isNaN a.bits.toNat
def lt (a b : F64) : Bool := FloatFormat.double.lt a.bits.toNat b.bits.toNat
def add (a b : F64) : F64 := ⟨UInt64.ofNat (FloatFormat.double.add a.bits.toNat b.bits.toNat)⟩
def half (a : F64) : F64 := ⟨UInt64.ofNat (FloatFormat.double.half a.bits.toNat)⟩

end F64

end IowarpCore
