import ScrapeScript.Token.Basic

namespace ScrapeScript

/-- The tokens of a script as the parser reads them: those ahead, and the end of file that comes
last. There may be an end of file among those ahead too. -/
structure TokenStream where
  ahead : List Token
  final : Token
  final_kind : final.kind = .endOfFile
deriving DecidableEq

namespace TokenStream

/-- The end of the file behind its last token. -/
def endAfter (t : Token) : Token :=
  let length : Int := t.lexeme.length
  Token.endOfFile ⟨t.location.file, t.location.line, t.location.column + length,
    t.location.offset + length⟩

/-- Trivia is dropped, and an end of file is put where the tokens have none. -/
def ofTokens (file : String) (ts : List Token) : TokenStream :=
  let kept := dropTrivia ts
  match kept.getLast? with
  | none => ⟨[], Token.endOfFile (Position.start.inFile file), rfl⟩
  | some last =>
    if h : last.kind = .endOfFile then ⟨kept.dropLast, last, h⟩ else ⟨kept, endAfter last, rfl⟩

def toList (s : TokenStream) : List Token := s.ahead ++ [s.final]

def size (s : TokenStream) : Nat := s.ahead.length + 1

theorem length_toList (s : TokenStream) : s.toList.length = s.size := by simp [toList, size]

end TokenStream

end ScrapeScript
