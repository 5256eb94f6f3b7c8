import ScrapeScript.Diagnostic.Basic
import ScrapeScript.Text.Quoted
import ScrapeScript.Token.Display

namespace ScrapeScript

/-- A report that stops nothing. -/
structure Warning where
  diagnostic : Diagnostic
deriving DecidableEq

namespace Warning

def titles : List (String × String) :=
  [("L001", "Unknown character"), ("L002", "Unterminated string literal"),
    ("L003", "Unterminated block comment")]

/-- The title is that of the code, if the code is known. -/
def make (message : String) (location : Location) (code help : Option String)
    (suggestions : Option (List String)) : Warning :=
  ⟨⟨message, location, "warning", code, help, suggestions, code.bind (titles.lookup ·)⟩⟩

def shown (w : Warning) : String :=
  s!"LexerWarning({quoted w.diagnostic.message}, {w.diagnostic.location.shown})"

end Warning

/-- What a script can have wrong below the level of tokens. -/
inductive LexicalCause
  | unknownCharacter (text : String)
  | openString
  | openComment
deriving DecidableEq

structure LexicalFault where
  cause : LexicalCause
  location : Location
deriving DecidableEq

namespace LexicalCause

def code : LexicalCause → String
  | unknownCharacter _ => "L001"
  | openString => "L002"
  | openComment => "L003"

def message : LexicalCause → String
  | unknownCharacter c => s!"Unknown character: '{c}'"
  | openString => "Unterminated string literal"
  | openComment => "Unterminated block comment"

/-- The parts of the logical operators: each of them doubled, or both, may have been meant. -/
def halfOperators : List String := ["", "&", "|", "&|"]

/-- A code point by number, in four hexadecimal digits or more. -/
def codePoint (text : String) : String :=
  String.ofList (((text.toList.head?.map fun c => Quoted.hexDigits 4 c.toNat).getD []).map
    Char.toUpper)

def help : LexicalCause → String
  | unknownCharacter c =>
    if halfOperators.contains c then s!"Use '{c}{c}' for the logical operator."
    else if c.toList.all isPrintable then
      s!"The character '{c}' is not valid in scrapelang source code."
    else s!"Non-printable character (Unicode: U+{codePoint c}) is not allowed."
  | openString => "String literals must be closed with a matching '\"'. No token was produced."
  | openComment => "The comment consumed the rest of the input."

def suggestions : LexicalCause → Option (List String)
  | unknownCharacter c => if halfOperators.contains c then some [c ++ c] else none
  | openString => some ["Add a closing '\"' quote"]
  | openComment => some ["Add a closing '*/'"]

end LexicalCause

def LexicalFault.warning (f : LexicalFault) : Warning :=
  Warning.make f.cause.message f.location (some f.cause.code) (some f.cause.help)
    f.cause.suggestions

end ScrapeScript
