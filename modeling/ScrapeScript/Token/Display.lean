import ScrapeScript.Token.Basic

namespace ScrapeScript

/-- A location with all that it holds. -/
def Location.shown (l : Location) : String :=
  s!"SourceLocation({quoted l.file}, {l.line}, {l.column}, {l.offset})"

namespace Token

/-- Whether the value says more than the lexeme. -/
def valueDiffers (t : Token) : Bool :=
  match t.value with
  | .null => false
  | .string s => s != t.lexeme
  | _ => true

/-- The short form: kind and lexeme, and the value where it differs. -/
def text (t : Token) : String :=
  if t.valueDiffers then s!"{t.kind.name}({quoted t.lexeme} -> {t.value.shown})"
  else s!"{t.kind.name}({quoted t.lexeme})"

/-- A token with all that it holds. -/
def shown (t : Token) : String :=
  s!"Token({t.kind.name}, {quoted t.lexeme}, {t.value.shown}, {t.location.shown})"

end Token

end ScrapeScript
