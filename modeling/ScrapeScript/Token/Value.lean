import ScrapeScript.Number.Layout
import ScrapeScript.Text.Quoted

namespace ScrapeScript

/-- What a token or a literal stands for. -/
inductive Value
  | null
  | bool (b : Bool)
  | string (s : String)
  | number (x : Binary64)
deriving DecidableEq

namespace Value

def ofBool (b : Bool) : Binary64 := if b then Binary64.one else Binary64.zero

/-- Equality of values, in which a truth value is the number one or zero. -/
def same : Value → Value → Bool
  | null, null => true
  | bool a, bool b => a == b
  | string s, string t => s == t
  | number x, number y => x.sameNumber y
  | bool b, number x => (ofBool b).sameNumber x
  | number x, bool b => x.sameNumber (ofBool b)
  | _, _ => false

/-- A value as it is shown in a token. -/
def shown : Value → String
  | null => "None"
  | bool true => "True"
  | bool false => "False"
  | string s => quoted s
  | number x => x.text

/-- A value as a literal of the tree: whole numbers without a point, strings verbatim. -/
def literalText : Value → String
  | null => "null"
  | bool true => "true"
  | bool false => "false"
  | string s => "\"" ++ s ++ "\""
  | number x => if x.isIntegral then toString x.toInt else x.text

end Value

end ScrapeScript
