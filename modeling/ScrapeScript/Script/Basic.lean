import ScrapeScript.Lexer.Basic
import ScrapeScript.Parser.Basic

namespace ScrapeScript

/-- A text and the name it goes by in reports. -/
structure Script where
  source : String
  file : String := "<string>"

/-- What a whole script comes to. -/
structure Reading where
  statements : List Stmt
  faults : List SyntaxFault
  warnings : List LexicalFault

/-- Warnings alone do not spoil a script. -/
def Reading.ok (r : Reading) : Bool := r.faults.isEmpty

namespace Script

def lexed (script : Script) : Lexed := Lexed.ofString script.source script.file

/-- The tokens that the parser reads. -/
def tokens (script : Script) : List Token := dropTrivia script.lexed.tokens

def warnings (script : Script) : List LexicalFault := script.lexed.faults

def read (script : Script) (options : ParseOptions := {}) : Reading :=
  let (statements, parser) := (Parser.ofTokens script.tokens options).run
  ⟨statements, parser.faults, script.warnings⟩

end Script

def version : String := "0.1.0"

end ScrapeScript
