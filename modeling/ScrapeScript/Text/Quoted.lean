import ScrapeScript.Text.Printable

namespace ScrapeScript

namespace Quoted

def hexDigits (width n : Nat) : List Char :=
  let ds := Nat.toDigits 16 n
  List.replicate (width - ds.length) '0' ++ ds

/-- The shortest of the three escapes by number that holds the code point. -/
def numbered (c : Char) : List Char :=
  let n := c.toNat
  if n < 0x100 then '\\' :: 'x' :: hexDigits 2 n
  else if n < 0x10000 then '\\' :: 'u' :: hexDigits 4 n
  else '\\' :: 'U' :: hexDigits 8 n

def escape (mark c : Char) : List Char :=
  if c = mark || c = '\\' then ['\\', c]
  else if c = '\t' then ['\\', 't']
  else if c = '\n' then ['\\', 'n']
  else if c = '\r' then ['\\', 'r']
  else if isPrintable c then [c]
  else numbered c

/-- Single marks, unless the text holds one of them and no double mark. -/
def mark (cs : List Char) : Char :=
  if cs.contains '\'' && !cs.contains '"' then '"' else '\''

end Quoted

/-- A text between quotation marks on one line, every character that would not show escaped. -/
def quoted (s : String) : String :=
  let m := Quoted.mark s.toList
  String.ofList (m :: (s.toList.flatMap (Quoted.escape m) ++ [m]))

end ScrapeScript
