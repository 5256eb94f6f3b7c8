import ScrapeScript.Lexer.Scan

namespace ScrapeScript

/-- A lexer holds its text and what its last run found. -/
structure Lexer where
  source : String
  file : String := "<unknown>"
  position : Position := Position.start
  tokens : List Token := []
  faults : List LexicalFault := []

/-- Nothing of an earlier run is left after this one. -/
def Lexer.run (lexer : Lexer) : Lexer :=
  let found := Lexed.ofString lexer.source lexer.file
  ⟨lexer.source, lexer.file, found.stop, found.tokens, found.faults⟩

end ScrapeScript
