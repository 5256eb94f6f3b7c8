import ScrapeScript.Parser.Statement
import ScrapeScript.Parser.Stream

namespace ScrapeScript

/-- What parsing makes of a stream: the statements, the faults in the order they were met, and the
tokens ahead where it stopped. -/
structure Parsed where
  statements : List Stmt
  faults : List SyntaxFault
  ahead : List Token

def TokenStream.parse (stream : TokenStream) (limit : Int) : Parsed :=
  match Rule.program (State.start ⟨limit, stream.final⟩ stream.ahead) with
  | .ok statements s => ⟨statements, s.faults, s.ahead⟩
  | .error f s => ⟨[], s.faults ++ [f], s.ahead⟩

/-- How deep a script may nest, and the file that is named where a stream has no tokens. -/
structure ParseOptions where
  limit : Int := 50
  file : String := "<unknown>"

/-- A parser holds its stream and what its last run found. -/
structure Parser where
  limit : Int
  stream : TokenStream
  ahead : List Token
  faults : List SyntaxFault

namespace Parser

def ofTokens (ts : List Token) (options : ParseOptions) : Parser :=
  let stream := TokenStream.ofTokens options.file ts
  ⟨options.limit, stream, stream.ahead, []⟩

/-- The statements, and the parser after the run. Nothing of an earlier run has a part in it. -/
def run (parser : Parser) : List Stmt × Parser :=
  let parsed := parser.stream.parse parser.limit
  (parsed.statements, { parser with ahead := parsed.ahead, faults := parsed.faults })

/-- The index of the next token in the stream. -/
def current (parser : Parser) : Nat := parser.stream.ahead.length - parser.ahead.length

end Parser

end ScrapeScript
