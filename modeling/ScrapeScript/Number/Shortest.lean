import ScrapeScript.Number.Decimal

namespace ScrapeScript

/-- The least `p` such that a quotient is below ten to the `p`. -/
def decimalPlace (num den : Nat) : Int :=
  let guess : Int := (Nat.toDigits 10 num).length - (Nat.toDigits 10 den).length
  if num * tenTo (-guess).toNat < den * tenTo guess.toNat then guess else guess + 1

namespace Binary64

/-- Among the two neighbours of a number on the grid of ten to the `exponent`, the nearer one that
reads back; of two at the same distance the even one. -/
def neighbour? (x : Binary64) (exponent : Int) : Option Decimal :=
  let num := x.units * tenTo (-exponent).toNat
  let den := unitsPerOne * tenTo exponent.toNat
  let nearest := roundHalfEven num den
  let other := if nearest = num / den then nearest + 1 else num / den
  let readsBack (c : Nat) : Bool := (Decimal.mk c exponent).toBinary64 == x.magnitude
  if readsBack nearest then some ⟨nearest, exponent⟩
  else if readsBack other then some ⟨other, exponent⟩
  else none

/-- The magnitude of a finite number in the fewest digits that read back. Seventeen always do. -/
def shortest (x : Binary64) : Decimal :=
  let place := decimalPlace x.units unitsPerOne
  ((List.range 17).findSome? fun (i : Nat) => x.neighbour? (place - (i + 1))).getD
    ⟨x.units * Nat.pow 5 1074, -1074⟩

end Binary64

end ScrapeScript
