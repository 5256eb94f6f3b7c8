import ScrapeScript.Number.Rounding

namespace ScrapeScript

def tenTo (n : Nat) : Nat := Nat.pow 10 n

/-- The number `coefficient` times ten to the `exponent`. -/
structure Decimal where
  coefficient : Nat
  exponent : Int
deriving DecidableEq

def isDigit (c : Char) : Bool := '0' ≤ c && c ≤ '9'

/-- Digits end where a point comes. -/
theorem span_isDigit_point {ds : List Char} (es : List Char) (h : ∀ d ∈ ds, isDigit d = true) :
    (ds ++ '.' :: es).takeWhile isDigit = ds ∧
      (ds ++ '.' :: es).dropWhile isDigit = '.' :: es := by
  rw [List.takeWhile_append_of_pos h, List.dropWhile_append_of_pos h]
  exact ⟨List.append_nil ds, rfl⟩

namespace Decimal

def digitValue (c : Char) : Nat := c.toNat - '0'.toNat

def natOfDigits (cs : List Char) : Nat := cs.foldl (fun n c => 10 * n + digitValue c) 0

/-- The number that digits with an optional point among them write. -/
def ofChars (cs : List Char) : Decimal :=
  let fraction := (cs.dropWhile isDigit).drop 1
  ⟨natOfDigits (cs.takeWhile isDigit ++ fraction), -(fraction.length : Nat)⟩

def toBinary64 (d : Decimal) : Binary64 :=
  Binary64.ofRatio (d.coefficient * tenTo d.exponent.toNat) (tenTo (-d.exponent).toNat)

end Decimal

end ScrapeScript
