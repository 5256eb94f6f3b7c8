import ScrapeScript.Number.Binary64

namespace ScrapeScript

/-- The whole number nearest to a quotient; a half goes to the even neighbour. -/
def roundHalfEven (num den : Nat) : Nat :=
  let below := num / den
  let double := 2 * (num % den)
  if double < den then below
  else if den < double then below + 1
  else below + below % 2

namespace Binary64

/-- The number nearest to a quotient. The significand is rounded in units of a power of two that
leaves it 53 bits, or fewer where that power would be below the smallest unit. A carry out of the
significand runs into the exponent field, and what runs past the largest number is infinite. -/
def ofRatio (num den : Nat) : Binary64 :=
  let scaled := num * unitsPerOne
  let power := Nat.log2 (scaled / den) - 52
  let significand := roundHalfEven scaled (den * twoTo power)
  ⟨UInt64.ofNat (min (power * twoTo 52 + significand) infinity.bits.toNat)⟩

end Binary64

end ScrapeScript
