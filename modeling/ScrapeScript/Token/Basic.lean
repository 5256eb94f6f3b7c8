import ScrapeScript.Source.Position
import ScrapeScript.Token.Kind
import ScrapeScript.Token.Value

namespace ScrapeScript

/-- A piece of a script: its exact text, what it stands for and where it begins. -/
structure Token where
  kind : TokenKind
  lexeme : String
  value : Value
  location : Location
deriving DecidableEq

namespace Token

def isTrivia (t : Token) : Bool := t.kind.isTrivia

def endOfFile (l : Location) : Token := ⟨.endOfFile, "", .null, l⟩

/-- Equality in every field, values by what they stand for. -/
def same (s t : Token) : Bool :=
  s.kind == t.kind && s.lexeme == t.lexeme && s.value.same t.value && s.location == t.location

end Token

/-- The tokens that matter to the parser. -/
def dropTrivia (ts : List Token) : List Token := ts.filter (!·.isTrivia)

theorem dropTrivia_append (ts us : List Token) :
    dropTrivia (ts ++ us) = dropTrivia ts ++ dropTrivia us :=
  List.filter_append ts us

theorem dropTrivia_concat {last : Token} (hlast : last.kind = .endOfFile) (ts : List Token) :
    dropTrivia (ts ++ [last]) = dropTrivia ts ++ [last] := by
  rw [dropTrivia_append]
  simp [dropTrivia, Token.isTrivia, hlast, TokenKind.isTrivia]

end ScrapeScript
