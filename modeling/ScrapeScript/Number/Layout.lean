import ScrapeScript.Number.Shortest

namespace ScrapeScript

/-- How the digits of a number are set out: which exponents are written with a point in its place,
and the least number of digits of an exponent that is written out. -/
structure NumberLayout where
  positionalFrom : Int
  scientificFrom : Int
  exponentDigits : Nat

/-- Exponents from -4 to 15 are positional, the others have a sign and two digits or more. -/
def NumberLayout.standard : NumberLayout := ⟨-4, 16, 2⟩

namespace NumberLayout

def padLeft (width : Nat) (cs : List Char) : List Char :=
  List.replicate (width - cs.length) '0' ++ cs

def dropTrailingZeros (cs : List Char) : List Char :=
  (cs.reverse.dropWhile (· == '0')).reverse

/-- The digits `ds` with the point before the one numbered `point`. -/
def positional (ds : List Char) (point : Int) : List Char :=
  if point ≤ 0 then '0' :: '.' :: (List.replicate (-point).toNat '0' ++ ds)
  else if point < ds.length then ds.take point.toNat ++ '.' :: ds.drop point.toNat
  else ds ++ List.replicate (point.toNat - ds.length) '0' ++ ['.', '0']

def scientific (layout : NumberLayout) (ds : List Char) (exponent : Int) : List Char :=
  let fraction := ds.drop 1
  ds.take 1 ++ (if fraction.isEmpty then [] else '.' :: fraction) ++
    ['e', if exponent < 0 then '-' else '+'] ++
    padLeft layout.exponentDigits (Nat.toDigits 10 exponent.natAbs)

def chars (layout : NumberLayout) (d : Decimal) : List Char :=
  let all := Nat.toDigits 10 d.coefficient
  let ds := dropTrailingZeros all
  let exponent := all.length + d.exponent - 1
  if layout.positionalFrom ≤ exponent && exponent < layout.scientificFrom then
    positional ds (exponent + 1)
  else scientific layout ds exponent

end NumberLayout

/-- The text of a number: the shortest digits that read back, laid out in the standard way. -/
def Binary64.text (x : Binary64) : String :=
  if x.isNaN then "nan" else
    let sign := if x.negative then "-" else ""
    if !x.isFinite then sign ++ "inf"
    else if x.isZero then sign ++ "0.0"
    else sign ++ String.ofList (NumberLayout.standard.chars x.shortest)

end ScrapeScript
