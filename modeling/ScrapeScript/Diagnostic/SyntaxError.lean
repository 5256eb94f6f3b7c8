import ScrapeScript.Diagnostic.Basic
import ScrapeScript.Token.Basic

namespace ScrapeScript

/-- What a parser hoped to see: a kind of token, or something described in words. -/
inductive Expected
  | kind (kind : TokenKind)
  | words (text : String)
deriving DecidableEq

namespace Expected

def text : Expected → String
  | kind k => k.name
  | words s => s

/-- Advice on a token that is missing. -/
def advice : TokenKind → List String
  | .semicolon => ["Add a semicolon ';' to end the statement"]
  | .rightParen => ["Add a closing parenthesis ')'"]
  | .leftParen => ["Add an opening parenthesis '('"]
  | .rightBrace => ["Add a closing brace '\x7d'"]
  | .comma => ["Separate the arguments with ','"]
  | .inWord => ["Write the loop header as 'for (item in items)'"]
  | _ => []

def suggestions : Expected → List String
  | kind k => advice k
  | words _ => []

end Expected

/-- A report about a token that the grammar has no use for. -/
structure SyntaxError where
  diagnostic : Diagnostic
  token : Option Token
deriving DecidableEq

namespace SyntaxError

def titles : List (String × String) :=
  [("P001", "Unexpected token"), ("P005", "Invalid expression"),
    ("P006", "Invalid assignment target"), ("P013", "Nesting too deep")]

/-- The title is that of the code, if the code is known. -/
def make (message : String) (location : Location) (token : Option Token)
    (code help : Option String) (suggestions : Option (List String)) : SyntaxError :=
  ⟨⟨message, location, "error", code, help, suggestions, code.bind (titles.lookup ·)⟩, token⟩

def atToken (found : Token) (code message help : String) (suggestions : List String) :
    SyntaxError :=
  make message found.location (some found) (some code) (some help) (some suggestions)

def unexpectedMessage (expected : Expected) (found : Token) : String :=
  s!"Expected {expected.text}, found {found.kind.name}"

/-- An empty message is none: the default stands in for both. -/
def unexpected (expected : Expected) (found : Token) (message : Option String) : SyntaxError :=
  atToken found "P001"
    ((message.filter (· != "")).getD (unexpectedMessage expected found))
    (s!"The parser expected to see {expected.text} at this position, " ++
      s!"but found {found.kind.name} instead.")
    expected.suggestions

def notExpression (found : Token) (message : String) : SyntaxError :=
  atToken found "P005" message s!"'{found.lexeme}' cannot start an expression."
    ["Check the expression syntax", "Ensure all operators have operands"]

def notAssignable (equals : Token) : SyntaxError :=
  atToken equals "P006" "Invalid assignment target."
    "Only variables can appear on the left side of '='." ["Use '==' for comparison"]

def tooDeep (found : Token) (limit : Int) : SyntaxError :=
  atToken found "P013" "Expression nested too deeply." s!"Nesting is limited to {limit} levels."
    ["Split the expression into several variables"]

def lexeme (e : SyntaxError) : String := (e.token.map (·.lexeme)).getD ""

def isAtEnd (e : SyntaxError) : Bool := (e.token.map (·.kind == .endOfFile)).getD false

/-- The report on one line. -/
def report (e : SyntaxError) : String :=
  let place := if e.isAtEnd then "at end" else s!"at '{e.lexeme}'"
  let l := e.diagnostic.location
  s!"[line {l.line}, column {l.column}] Error {place}: {e.diagnostic.message}"

end SyntaxError

end ScrapeScript
