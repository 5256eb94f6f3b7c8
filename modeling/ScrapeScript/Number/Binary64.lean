namespace ScrapeScript

def twoTo (n : Nat) : Nat := Nat.pow 2 n

/-- A double precision number, held as its bit pattern. -/
structure Binary64 where
  bits : UInt64
deriving DecidableEq

namespace Binary64

def negative (x : Binary64) : Bool := twoTo 63 ≤ x.bits.toNat

def exponentField (x : Binary64) : Nat := x.bits.toNat / twoTo 52 % twoTo 11

def fractionField (x : Binary64) : Nat := x.bits.toNat % twoTo 52

def isFinite (x : Binary64) : Bool := x.exponentField != 2047

def isNaN (x : Binary64) : Bool := x.exponentField == 2047 && x.fractionField != 0

/-- A finite number is a whole number of units of two to the minus 1074, this many of them. -/
def units (x : Binary64) : Nat :=
  if x.exponentField = 0 then x.fractionField
  else (twoTo 52 + x.fractionField) * twoTo (x.exponentField - 1)

def unitsPerOne : Nat := twoTo 1074

def isZero (x : Binary64) : Bool := x.isFinite && x.units == 0

def isIntegral (x : Binary64) : Bool := x.isFinite && x.units % unitsPerOne == 0

/-- The whole part, with its sign. -/
def toInt (x : Binary64) : Int :=
  if x.negative then -(x.units / unitsPerOne : Nat) else (x.units / unitsPerOne : Nat)

def magnitude (x : Binary64) : Binary64 := ⟨UInt64.ofNat (x.bits.toNat % twoTo 63)⟩

/-- Equality of the numbers: both zeros are one number and a NaN equals nothing. -/
def sameNumber (x y : Binary64) : Bool :=
  !x.isNaN && !y.isNaN && (x == y || (x.isZero && y.isZero))

def zero : Binary64 := ⟨0⟩

def one : Binary64 := ⟨0x3ff0000000000000⟩

def infinity : Binary64 := ⟨0x7ff0000000000000⟩

end Binary64

end ScrapeScript
