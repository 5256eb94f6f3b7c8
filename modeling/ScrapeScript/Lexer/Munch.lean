import ScrapeScript.Number.Decimal
import ScrapeScript.Token.Value
import ScrapeScript.Token.Vocabulary

namespace ScrapeScript

def isBlank (c : Char) : Bool := c == ' ' || c == '\t' || c == '\r' || c == '\n'

def isWordStart (c : Char) : Bool :=
  ('a' ≤ c && c ≤ 'z') || ('A' ≤ c && c ≤ 'Z') || c == '_'

def isWordChar (c : Char) : Bool := isWordStart c || isDigit c

/-- What stands at the front of a text. A comment or a string that nothing closes takes the rest. -/
inductive Find
  | token (kind : TokenKind)
  | openComment
  | openString
  | unknown
deriving DecidableEq

/-- A text cut after what stands at its front. -/
structure Piece where
  find : Find
  lexeme : List Char
  rest : List Char

namespace Piece

def withChar (c : Char) (p : Piece) : Piece := ⟨p.find, c :: p.lexeme, p.rest⟩

/-- One token as far as the characters are of a class. -/
def run (kind : TokenKind) (p : Char → Bool) (cs : List Char) : Piece :=
  ⟨.token kind, cs.takeWhile p, cs.dropWhile p⟩

end Piece

/-- A text cut after the first end of a comment. -/
def closeComment? : List Char → Option (List Char × List Char)
  | [] => none
  | '*' :: '/' :: rest => some (['*', '/'], rest)
  | c :: rest => (closeComment? rest).map fun (inner, rest) => (c :: inner, rest)

/-- A text cut after the first quotation mark that no backslash takes with it. -/
def closeString? : List Char → Option (List Char × List Char)
  | [] => none
  | '"' :: rest => some (['"'], rest)
  | '\\' :: c :: rest => (closeString? rest).map fun (inner, rest) => ('\\' :: c :: inner, rest)
  | c :: rest => (closeString? rest).map fun (inner, rest) => (c :: inner, rest)

/-- The text after a slash. -/
def munchSlash (cs : List Char) : Piece :=
  match cs with
  | '/' :: _ => .run .comment (· != '\n') cs
  | '*' :: rest =>
    match closeComment? rest with
    | some (inner, rest) => ⟨.token .comment, '*' :: inner, rest⟩
    | none => ⟨.openComment, cs, []⟩
  | _ => ⟨.token .divide, [], cs⟩

/-- The text after a quotation mark. -/
def munchString (cs : List Char) : Piece :=
  match closeString? cs with
  | some (inner, rest) => ⟨.token .string, inner, rest⟩
  | none => ⟨.openString, cs, []⟩

/-- The text after the first digit of a number. A point belongs to it only before a digit. -/
def munchNumber (cs : List Char) : Piece :=
  let whole := cs.takeWhile isDigit
  match cs.dropWhile isDigit with
  | '.' :: d :: rest =>
    if isDigit d then
      ⟨.token .number, whole ++ '.' :: d :: rest.takeWhile isDigit, rest.dropWhile isDigit⟩
    else ⟨.token .number, whole, '.' :: d :: rest⟩
  | rest => ⟨.token .number, whole, rest⟩

/-- The text after the first character of a word. -/
def munchWord (c : Char) (cs : List Char) : Piece :=
  let tail := cs.takeWhile isWordChar
  ⟨.token (Vocabulary.wordKind (String.ofList (c :: tail))), tail, cs.dropWhile isWordChar⟩

/-- The text after a character that is in no word, number, string or comment. -/
def munchSymbol (c : Char) (cs : List Char) : Piece :=
  match Vocabulary.single? c, Vocabulary.pair? c with
  | some kind, _ => ⟨.token kind, [], cs⟩
  | none, some pair =>
    if cs.head? = some pair.second then ⟨.token pair.both, [pair.second], cs.drop 1⟩
    else ⟨(pair.alone.map Find.token).getD .unknown, [], cs⟩
  | none, none => ⟨.unknown, [], cs⟩

/-- The text after its first character `c`. -/
def munchAfter (c : Char) (cs : List Char) : Piece :=
  if isBlank c then .run .whitespace isBlank cs
  else if isDigit c then munchNumber cs
  else if isWordStart c then munchWord c cs
  else if c = '.' && (cs.head?.map isDigit).getD false then .run .number isDigit cs
  else if c = '/' then munchSlash cs
  else if c = '"' then munchString cs
  else munchSymbol c cs

/-- The piece at the front of a text that begins with `c`. -/
def munch (c : Char) (cs : List Char) : Piece := (munchAfter c cs).withChar c

theorem closeComment?_append {cs inner rest : List Char}
    (h : closeComment? cs = some (inner, rest)) : inner ++ rest = cs := by
  fun_induction closeComment? cs generalizing inner rest with
  | case1 => simp at h
  | case2 =>
    simp only [Option.some.injEq, Prod.mk.injEq] at h
    simp [← h.1, ← h.2]
  | case3 c cs _ ih =>
    obtain ⟨⟨a, b⟩, hab, he⟩ := Option.map_eq_some_iff.1 h
    simp only [Prod.mk.injEq] at he
    obtain ⟨rfl, rfl⟩ := he
    simp [ih hab]

theorem closeString?_append {cs inner rest : List Char}
    (h : closeString? cs = some (inner, rest)) : inner ++ rest = cs := by
  fun_induction closeString? cs generalizing inner rest with
  | case1 => simp at h
  | case2 =>
    simp only [Option.some.injEq, Prod.mk.injEq] at h
    simp [← h.1, ← h.2]
  | case3 c cs ih =>
    obtain ⟨⟨a, b⟩, hab, he⟩ := Option.map_eq_some_iff.1 h
    simp only [Prod.mk.injEq] at he
    obtain ⟨rfl, rfl⟩ := he
    simp [ih hab]
  | case4 c cs _ _ ih =>
    obtain ⟨⟨a, b⟩, hab, he⟩ := Option.map_eq_some_iff.1 h
    simp only [Prod.mk.injEq] at he
    obtain ⟨rfl, rfl⟩ := he
    simp [ih hab]

theorem munchSlash_append (cs : List Char) :
    (munchSlash cs).lexeme ++ (munchSlash cs).rest = cs := by
  unfold munchSlash
  split
  · exact List.takeWhile_append_dropWhile
  · split
    · rename_i h
      simpa using closeComment?_append h
    · simp
  · rfl

theorem munchString_append (cs : List Char) :
    (munchString cs).lexeme ++ (munchString cs).rest = cs := by
  unfold munchString
  split
  · rename_i h
    exact closeString?_append h
  · simp

theorem munchNumber_append (cs : List Char) :
    (munchNumber cs).lexeme ++ (munchNumber cs).rest = cs := by
  unfold munchNumber
  have h := @List.takeWhile_append_dropWhile _ isDigit cs
  split
  · rename_i d rest hd
    rw [hd] at h
    split
    · simp [List.append_assoc, h]
    · exact h
  · exact h

theorem munchSymbol_append (c : Char) (cs : List Char) :
    (munchSymbol c cs).lexeme ++ (munchSymbol c cs).rest = cs := by
  unfold munchSymbol
  split
  · rfl
  · split
    · rename_i h
      cases cs with
      | nil => simp at h
      | cons d ds => simp_all
    · rfl
  · rfl

theorem munchAfter_append (c : Char) (cs : List Char) :
    (munchAfter c cs).lexeme ++ (munchAfter c cs).rest = cs := by
  unfold munchAfter
  split
  · exact List.takeWhile_append_dropWhile
  split
  · exact munchNumber_append cs
  split
  · exact List.takeWhile_append_dropWhile
  split
  · exact List.takeWhile_append_dropWhile
  split
  · exact munchSlash_append cs
  split
  · exact munchString_append cs
  · exact munchSymbol_append c cs

/-- Nothing is lost or invented at a cut. -/
theorem munch_append (c : Char) (cs : List Char) :
    (munch c cs).lexeme ++ (munch c cs).rest = c :: cs := by
  simp [munch, Piece.withChar, munchAfter_append]

theorem munch_lexeme_ne_nil (c : Char) (cs : List Char) : (munch c cs).lexeme ≠ [] := by
  simp [munch, Piece.withChar]

theorem munch_rest_length_lt (c : Char) (cs : List Char) :
    (munch c cs).rest.length < (c :: cs).length := by
  have h := congrArg List.length (munch_append c cs)
  have hn := List.length_pos_iff.2 (munch_lexeme_ne_nil c cs)
  simp only [List.length_append] at h
  omega

/-- Texts are reasoned about piece by piece. -/
@[elab_as_elim]
theorem munch_induction {motive : List Char → Prop} (nil : motive [])
    (cons : ∀ c cs, motive (munch c cs).rest → motive (c :: cs)) : ∀ cs, motive cs
  | [] => nil
  | c :: cs => cons c cs (munch_induction nil cons (munch c cs).rest)
termination_by cs => cs.length
decreasing_by exact munch_rest_length_lt c cs

end ScrapeScript
