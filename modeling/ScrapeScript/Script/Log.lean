import ScrapeScript.Script.Basic

namespace ScrapeScript

namespace Log

inductive Level
  | debug
  | warning
deriving DecidableEq

inductive Origin
  | lexer
  | parser
deriving DecidableEq

structure Record where
  level : Level
  origin : Origin
  message : String
deriving DecidableEq

def ofLexicalFault (f : LexicalFault) : Record :=
  ⟨.warning, .lexer, s!"[line {f.location.line}, column {f.location.column}] {f.cause.message}"⟩

def ofSyntaxFault (f : SyntaxFault) : Record := ⟨.warning, .parser, f.error.report⟩

/-- Each fault, and a count that takes in trivia and the end of the file. -/
def ofLexed (file : String) (found : Lexed) : List Record :=
  found.faults.map ofLexicalFault ++
    [⟨.debug, .lexer,
      s!"Tokenized {file}: {found.tokens.length} tokens, {found.faults.length} warnings"⟩]

def ofReading (r : Reading) : List Record :=
  r.faults.map ofSyntaxFault ++
    [⟨.debug, .parser,
      s!"Parsed {r.statements.length} statements with {r.faults.length} errors"⟩]

end Log

/-- All that is logged while a script is read. -/
def Script.log (script : Script) (options : ParseOptions := {}) : List Log.Record :=
  Log.ofLexed script.file script.lexed ++ Log.ofReading (script.read options)

end ScrapeScript
