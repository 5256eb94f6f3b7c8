import ScrapeScript.Lexer.Munch
import ScrapeScript.Proofs.Number.Numerals

namespace ScrapeScript

/-- A text in which no comment ends. -/
def CommentBody (cs : List Char) : Prop := ¬['*', '/'] <:+: cs

/-- A text in which no string ends: a backslash takes the next character with it. -/
inductive StringBody : List Char → Prop
  | nil : StringBody []
  | plain {c : Char} {cs : List Char} : c ≠ '"' → c ≠ '\\' → StringBody cs → StringBody (c :: cs)
  | escaped (c : Char) {cs : List Char} : StringBody cs → StringBody ('\\' :: c :: cs)

/-- Spaces, tabs and the two characters that end a line. -/
def Blank (c : Char) : Prop := c ∈ [' ', '\t', '\r', '\n']

/-- What a word begins with: a letter of one case or the other, or an underscore. -/
inductive WordStart : Char → Prop
  | capital {c : Char} : 'A' ≤ c → c ≤ 'Z' → WordStart c
  | small {c : Char} : 'a' ≤ c → c ≤ 'z' → WordStart c
  | underscore : WordStart '_'

def WordPart (c : Char) : Prop := WordStart c ∨ Decimal.Digit c

/-- The words that are no names, by the alphabet. -/
def reserved : List (String × TokenKind) :=
  [("attr", .attr), ("else", .elseWord), ("false", .boolean), ("fetch", .fetch), ("for", .forWord),
    ("html", .html), ("if", .ifWord), ("in", .inWord), ("print", .print), ("save", .save),
    ("select", .select), ("text", .text), ("true", .boolean), ("var", .varWord),
    ("xpath", .xpath)]

/-- The texts of the operators and of all that brackets and separates. -/
def signs : List (List Char × TokenKind) :=
  [(['+'], .plus), (['-'], .minus), (['*'], .multiply), (['/'], .divide), (['!'], .not),
    (['&', '&'], .and), (['|', '|'], .or), (['='], .equals), (['=', '='], .equalEqual),
    (['!', '='], .notEqual), (['<'], .less), (['<', '='], .lessEqual), (['>'], .greater),
    (['>', '='], .greaterEqual), (['('], .leftParen), ([')'], .rightParen),
    (['\x7b'], .leftBrace), (['\x7d'], .rightBrace), (['['], .leftBracket),
    ([']'], .rightBracket), ([';'], .semicolon), ([','], .comma), (['.'], .dot),
    (['$'], .dollar)]

/-- The patterns of the tokens: their kinds, their texts, and what may come after them. -/
inductive Spells : TokenKind → List Char → List Char → Prop
  | whitespace {cs : List Char} (rest : List Char) : cs ≠ [] → (∀ c ∈ cs, Blank c) →
    Spells .whitespace cs rest
  | lineComment {cs rest : List Char} : '\n' ∉ cs → (∀ c ∈ rest.head?, c = '\n') →
    Spells .comment ('/' :: '/' :: cs) rest
  | blockComment {cs : List Char} (rest : List Char) : CommentBody cs →
    Spells .comment ('/' :: '*' :: (cs ++ ['*', '/'])) rest
  | openComment {cs : List Char} : CommentBody cs → Spells .comment ('/' :: '*' :: cs) []
  | string {cs : List Char} (rest : List Char) : StringBody cs →
    Spells .string ('"' :: (cs ++ ['"'])) rest
  | number {ds : List Char} (rest : List Char) : ds ≠ [] → (∀ d ∈ ds, Decimal.Digit d) →
    Spells .number ds rest
  | decimal {ds es : List Char} (rest : List Char) : ds ≠ [] → (∀ d ∈ ds, Decimal.Digit d) →
    es ≠ [] → (∀ e ∈ es, Decimal.Digit e) → Spells .number (ds ++ '.' :: es) rest
  | fraction {es : List Char} (rest : List Char) : es ≠ [] → (∀ e ∈ es, Decimal.Digit e) →
    Spells .number ('.' :: es) rest
  | keyword {c : Char} {cs : List Char} {k : TokenKind} (rest : List Char) :
    WordStart c → (∀ d ∈ cs, WordPart d) → (String.ofList (c :: cs), k) ∈ reserved →
    Spells k (c :: cs) rest
  | name {c : Char} {cs : List Char} (rest : List Char) :
    WordStart c → (∀ d ∈ cs, WordPart d) → (∀ k, (String.ofList (c :: cs), k) ∉ reserved) →
    Spells .identifier (c :: cs) rest
  | sign {cs : List Char} {k : TokenKind} (rest : List Char) : (cs, k) ∈ signs → Spells k cs rest

section Classes

variable {c : Char} {w : String} {k : TokenKind} {l : List Char}

theorem blank_iff : Blank c ↔ isBlank c = true := by
  simp [Blank, isBlank, or_assoc]

theorem wordStart_iff : WordStart c ↔ isWordStart c = true := by
  simp only [isWordStart, Bool.or_eq_true, Bool.and_eq_true, decide_eq_true_eq, beq_iff_eq]
  constructor
  · rintro (⟨hle, hge⟩ | ⟨hle, hge⟩ | _)
    · exact .inl (.inr ⟨hle, hge⟩)
    · exact .inl (.inl ⟨hle, hge⟩)
    · exact .inr rfl
  · rintro ((⟨hle, hge⟩ | ⟨hle, hge⟩) | rfl)
    · exact .small hle hge
    · exact .capital hle hge
    · exact .underscore

theorem wordPart_iff : WordPart c ↔ isWordChar c = true := by
  rw [WordPart, wordStart_iff, Decimal.digit_iff, isWordChar, Bool.or_eq_true]

theorem mem_reserved : (w, k) ∈ reserved ↔ (w, k) ∈ Vocabulary.keywords := by
  have hperm : reserved.Perm Vocabulary.keywords := by decide
  exact hperm.mem_iff

/-- A sign is made of two characters or is the first of them alone, or it is a single one. -/
theorem mem_signs : (l, k) ∈ signs ↔
    (∃ p ∈ Vocabulary.pairs,
      l = [p.first, p.second] ∧ k = p.both ∨ l = [p.first] ∧ p.alone = some k) ∨
    (∃ e ∈ Vocabulary.singles, l = [e.1] ∧ k = e.2) ∨ l = ['/'] ∧ k = .divide := by
  constructor
  · have hall : ∀ e ∈ signs,
        (∃ p ∈ Vocabulary.pairs,
          e.1 = [p.first, p.second] ∧ e.2 = p.both ∨ e.1 = [p.first] ∧ p.alone = some e.2) ∨
        (∃ q ∈ Vocabulary.singles, e.1 = [q.1] ∧ e.2 = q.2) ∨ e.1 = ['/'] ∧ e.2 = .divide := by
      decide
    exact hall (l, k)
  · have hpairs : ∀ p ∈ Vocabulary.pairs, ([p.first, p.second], p.both) ∈ signs ∧
        ∀ k ∈ p.alone, ([p.first], k) ∈ signs := by decide
    have hsingles : ∀ e ∈ Vocabulary.singles, ([e.1], e.2) ∈ signs := by decide
    rintro (⟨p, hp, ⟨rfl, rfl⟩ | ⟨rfl, hk⟩⟩ | ⟨e, he, rfl, rfl⟩ | ⟨rfl, rfl⟩)
    · exact (hpairs p hp).1
    · exact (hpairs p hp).2 k hk
    · exact hsingles e he
    · decide

end Classes

/-- A kind that a table gives to certain texts. -/
def TokenKind.isListed (k : TokenKind) : Bool :=
  !(k matches whitespace | comment | number | string | identifier | unknown | endOfFile)

theorem isListed_of_mem_reserved {w : String} {k : TokenKind} (h : (w, k) ∈ reserved) :
    k.isListed = true := by
  have hall : ∀ e ∈ reserved, e.2.isListed = true := by decide
  exact hall _ h

theorem isListed_of_mem_signs {l : List Char} {k : TokenKind} (h : (l, k) ∈ signs) :
    k.isListed = true := by
  have hall : ∀ e ∈ signs, e.2.isListed = true := by decide
  exact hall _ h

namespace Spells

variable {k : TokenKind} {l rest : List Char}

theorem isListed_or (h : Spells k l rest) : k.isListed = true ∨
    k = .whitespace ∨ k = .comment ∨ k = .string ∨ k = .number ∨ k = .identifier := by
  cases h with
  | keyword _ _ _ hk => exact .inl (isListed_of_mem_reserved hk)
  | sign _ hk => exact .inl (isListed_of_mem_signs hk)
  | _ => simp [TokenKind.isListed]

theorem ne_nil (h : Spells k l rest) : l ≠ [] := by
  cases h with
  | whitespace _ hne | number _ hne => exact hne
  | decimal => simp
  | sign _ hk =>
    have hall : ∀ e ∈ signs, e.1 ≠ [] := by decide
    exact hall _ hk
  | _ => exact List.cons_ne_nil _ _

end Spells

section Delimiters

variable {c : Char} {cs body inner rest : List Char}

theorem commentBody_cons :
    CommentBody (c :: cs) ↔ ¬(c = '*' ∧ cs.head? = some '/') ∧ CommentBody cs := by
  have hprefix : ['*', '/'] <+: c :: cs ↔ c = '*' ∧ cs.head? = some '/' := by
    cases cs <;> simp [List.cons_prefix_cons, eq_comm]
  unfold CommentBody
  rw [List.infix_cons_iff, hprefix, not_or]

theorem closeComment?_cons (h : ¬(c = '*' ∧ cs.head? = some '/')) :
    closeComment? (c :: cs) = (closeComment? cs).map fun (inner, rest) => (c :: inner, rest) := by
  rw [closeComment?]
  rintro rest rfl rfl
  exact h ⟨rfl, rfl⟩

theorem closeComment?_append_end (h : CommentBody body) (rest : List Char) :
    closeComment? (body ++ '*' :: '/' :: rest) = some (body ++ ['*', '/'], rest) := by
  induction body with
  | nil => rfl
  | cons c body ih =>
    obtain ⟨hc, hbody⟩ := commentBody_cons.1 h
    have hopen : ¬(c = '*' ∧ (body ++ '*' :: '/' :: rest).head? = some '/') := by
      cases body with
      | nil => simp
      | cons d body => exact hc
    rw [List.cons_append, closeComment?_cons hopen, ih hbody]
    rfl

theorem closeComment?_eq_none (h : CommentBody cs) : closeComment? cs = none := by
  induction cs with
  | nil => rfl
  | cons c cs ih =>
    obtain ⟨hc, hcs⟩ := commentBody_cons.1 h
    rw [closeComment?_cons hc, ih hcs]
    rfl

/-- What is cut off ends with the first end of a comment there is, and without one nothing is. -/
theorem closeComment?_spec (cs : List Char) :
    (∃ body rest, closeComment? cs = some (body ++ ['*', '/'], rest) ∧ CommentBody body) ∨
      (closeComment? cs = none ∧ CommentBody cs) := by
  induction cs with
  | nil => exact .inr ⟨rfl, by simp [CommentBody]⟩
  | cons c cs ih =>
    by_cases hc : c = '*' ∧ cs.head? = some '/'
    · obtain ⟨rfl, hhead⟩ := hc
      obtain ⟨rest, rfl⟩ := List.head?_eq_some_iff.1 hhead
      exact .inl ⟨[], rest, rfl, by simp [CommentBody]⟩
    · rw [closeComment?_cons hc]
      obtain ⟨body, rest, heq, hbody⟩ | ⟨heq, hcs⟩ := ih
      · refine .inl ⟨c :: body, rest, by rw [heq]; rfl, commentBody_cons.2 ⟨?_, hbody⟩⟩
        -- The first two characters are those of the text itself, or the comment ends behind them.
        have happend := closeComment?_append heq
        rw [← happend] at hc
        rintro ⟨rfl, hhead⟩
        obtain ⟨body, rfl⟩ := List.head?_eq_some_iff.1 hhead
        exact hc ⟨rfl, rfl⟩
      · exact .inr ⟨by rw [heq]; rfl, commentBody_cons.2 ⟨hc, hcs⟩⟩

theorem closeString?_cons (hquote : c ≠ '"') (hback : c ≠ '\\') :
    closeString? (c :: cs) = (closeString? cs).map fun (inner, rest) => (c :: inner, rest) := by
  rw [closeString?]
  · exact hquote
  · rintro d rest rfl
    exact absurd rfl hback

theorem closeString?_append_quote (h : StringBody body) (rest : List Char) :
    closeString? (body ++ '"' :: rest) = some (body ++ ['"'], rest) := by
  induction h with
  | nil => rfl
  | plain hquote hback _ ih =>
    rw [List.cons_append, closeString?_cons hquote hback, ih]
    rfl
  | escaped c _ ih =>
    rw [List.cons_append, List.cons_append, closeString?, ih]
    rfl

theorem closeString?_eq_some (h : closeString? cs = some (inner, rest)) :
    ∃ body, inner = body ++ ['"'] ∧ StringBody body := by
  fun_induction closeString? cs generalizing inner rest with
  | case1 => cases h
  | case2 =>
    cases h
    exact ⟨[], rfl, .nil⟩
  | case3 c cs ih =>
    obtain ⟨⟨inner', rest'⟩, heq, hpair⟩ := Option.map_eq_some_iff.1 h
    cases hpair
    obtain ⟨body, rfl, hbody⟩ := ih heq
    exact ⟨'\\' :: c :: body, rfl, .escaped c hbody⟩
  | case4 c cs hquote hback ih =>
    obtain ⟨⟨inner', rest'⟩, heq, hpair⟩ := Option.map_eq_some_iff.1 h
    cases hpair
    obtain ⟨body, rfl, hbody⟩ := ih heq
    refine ⟨c :: body, rfl, .plain hquote ?_ hbody⟩
    -- A backslash takes the next character, and if there is none, no string is closed.
    rintro rfl
    cases cs with
    | nil => cases heq
    | cons d cs => exact hback d cs rfl rfl

end Delimiters

end ScrapeScript
