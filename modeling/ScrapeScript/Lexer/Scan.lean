import ScrapeScript.Diagnostic.Warning
import ScrapeScript.Lexer.Munch
import ScrapeScript.Token.Basic

namespace ScrapeScript

/-- What the text of a token stands for. A string loses its marks and keeps its backslashes. -/
def TokenKind.valueOf (kind : TokenKind) (lexeme : List Char) : Value :=
  match kind with
  | .string => .string (String.ofList (lexeme.drop 1).dropLast)
  | .number => .number (Decimal.ofChars lexeme).toBinary64
  | .boolean => .bool (String.ofList lexeme == "true")
  | .identifier => .string (String.ofList lexeme)
  | _ => .null

def Token.ofLexeme (kind : TokenKind) (lexeme : List Char) (l : Location) : Token :=
  ⟨kind, String.ofList lexeme, kind.valueOf lexeme, l⟩

namespace Find

/-- An open comment is still a comment, an open string is no token at all. -/
def kind? : Find → Option TokenKind
  | token kind => some kind
  | openComment => some .comment
  | openString => none
  | unknown => some .unknown

def cause? (lexeme : List Char) : Find → Option LexicalCause
  | token _ => none
  | openComment => some .openComment
  | openString => some .openString
  | unknown => some (.unknownCharacter (String.ofList lexeme))

end Find

namespace Piece

def tokens (p : Piece) (l : Location) : List Token :=
  (p.find.kind?.map fun kind => Token.ofLexeme kind p.lexeme l).toList

def faults (p : Piece) (l : Location) : List LexicalFault :=
  ((p.find.cause? p.lexeme).map fun cause => ⟨cause, l⟩).toList

end Piece

/-- A text taken apart: its tokens, trivia included and the end of the file last, the faults found
on the way and the place where the text ends. -/
structure Lexed where
  tokens : List Token
  faults : List LexicalFault
  stop : Position
deriving DecidableEq

/-- Takes the text at `p` apart, piece by piece. -/
def scan (file : String) (p : Position) : List Char → Lexed
  | [] => ⟨[Token.endOfFile (p.inFile file)], [], p⟩
  | c :: cs =>
    let piece := munch c cs
    let rest := scan file (p.after piece.lexeme) piece.rest
    ⟨piece.tokens (p.inFile file) ++ rest.tokens, piece.faults (p.inFile file) ++ rest.faults,
      rest.stop⟩
termination_by cs => cs.length
decreasing_by exact munch_rest_length_lt c cs

def Lexed.ofString (source file : String) : Lexed := scan file Position.start source.toList

end ScrapeScript
