import ScrapeScript.Proofs.Lexer.Reformatting
import ScrapeScript.Script.File

namespace ScrapeScript

/-- A text with a carriage return before each newline. -/
def withReturns : List Char → List Char
  | [] => []
  | c :: cs => if c = '\n' then '\r' :: '\n' :: withReturns cs else c :: withReturns cs

section Texts

variable {c : Char} {cs : List Char}

@[simp] theorem withReturns_nil : withReturns [] = [] := rfl

@[simp] theorem withReturns_newline (cs : List Char) :
    withReturns ('\n' :: cs) = '\r' :: '\n' :: withReturns cs := if_pos rfl

theorem withReturns_cons (h : c ≠ '\n') (cs : List Char) :
    withReturns (c :: cs) = c :: withReturns cs := if_neg h

theorem withReturns_append (cs ds : List Char) :
    withReturns (cs ++ ds) = withReturns cs ++ withReturns ds := by
  induction cs with
  | nil => rfl
  | cons c cs ih =>
    by_cases hc : c = '\n'
    · subst hc
      simp [ih]
    · simp [withReturns_cons hc, ih]

theorem withReturns_eq_self (h : '\n' ∉ cs) : withReturns cs = cs := by
  induction cs with
  | nil => rfl
  | cons c cs ih =>
    obtain ⟨hc, hcs⟩ := List.ne_and_not_mem_of_not_mem_cons h
    rw [withReturns_cons hc.symm, ih hcs]

theorem forall_mem_withReturns {p : Char → Bool} (hreturn : p '\r' = true)
    (h : ∀ c ∈ cs, p c = true) : ∀ c ∈ withReturns cs, p c = true := by
  induction cs with
  | nil => exact List.forall_mem_nil _
  | cons c cs ih =>
    obtain ⟨hc, hcs⟩ := List.forall_mem_cons.1 h
    unfold withReturns
    split <;> simp_all

theorem head?_withReturns (h : isBlank c = false) :
    (withReturns cs).head? = some c ↔ cs.head? = some c := by
  cases cs with
  | nil => rfl
  | cons d cs =>
    by_cases hd : d = '\n'
    · subst hd
      have hnewline : c ≠ '\n' := by rintro rfl; cases h
      have hreturn : c ≠ '\r' := by rintro rfl; cases h
      simp [hnewline.symm, hreturn.symm]
    · simp [withReturns_cons hd]

end Texts

section Classes

variable {p : Char → Bool} (hnewline : p '\n' = false) (hreturn : p '\r' = false)
  (cs : List Char)

include hnewline hreturn

theorem takeWhile_withReturns :
    (withReturns cs).takeWhile p = withReturns (cs.takeWhile p) := by
  induction cs with
  | nil => rfl
  | cons c cs ih =>
    by_cases hc : c = '\n'
    · subst hc
      simp [hnewline, hreturn]
    · rw [withReturns_cons hc, List.takeWhile_cons, List.takeWhile_cons, ih]
      split <;> simp [withReturns_cons hc]

theorem dropWhile_withReturns :
    (withReturns cs).dropWhile p = withReturns (cs.dropWhile p) := by
  induction cs with
  | nil => rfl
  | cons c cs ih =>
    by_cases hc : c = '\n'
    · subst hc
      simp [hnewline, hreturn]
    · rw [withReturns_cons hc, List.dropWhile_cons, List.dropWhile_cons, ih]
      split <;> simp [withReturns_cons hc]

end Classes

theorem commentBody_withReturns {cs : List Char} (h : CommentBody cs) :
    CommentBody (withReturns cs) := by
  induction cs with
  | nil => exact h
  | cons c cs ih =>
    obtain ⟨hc, hcs⟩ := commentBody_cons.1 h
    by_cases hnewline : c = '\n'
    · subst hnewline
      simpa [commentBody_cons] using ih hcs
    · rw [withReturns_cons hnewline, commentBody_cons, head?_withReturns rfl]
      exact ⟨hc, ih hcs⟩

/-- Both parts of a text that was cut. -/
def cutWithReturns (cut : List Char × List Char) : List Char × List Char :=
  (withReturns cut.1, withReturns cut.2)

theorem closeComment?_withReturns (cs : List Char) :
    closeComment? (withReturns cs) = (closeComment? cs).map cutWithReturns := by
  obtain ⟨body, rest, hclose, hbody⟩ | ⟨hclose, hcs⟩ := closeComment?_spec cs
  · have hend : withReturns ['*', '/'] = ['*', '/'] := withReturns_eq_self (by decide)
    rw [hclose, ← closeComment?_append hclose, withReturns_append, withReturns_append, hend,
      List.append_assoc, Option.map_some, cutWithReturns, withReturns_append, hend]
    exact closeComment?_append_end (commentBody_withReturns hbody) (withReturns rest)
  · rw [hclose, closeComment?_eq_none (commentBody_withReturns hcs)]
    rfl

/-- Behind a backslash the return is taken in place of the newline, and the newline is a character
like any other. -/
theorem closeString?_withReturns (cs : List Char) :
    closeString? (withReturns cs) = (closeString? cs).map cutWithReturns := by
  have hplain {c : Char} (hc : isBlank c = true) (cs : List Char) : closeString? (c :: cs) =
      (closeString? cs).map fun cut => (c :: cut.1, cut.2) := by
    obtain rfl | rfl | rfl | rfl := isBlank_cases hc <;>
      exact closeString?_cons (by decide) (by decide)
  fun_induction closeString? cs with
  | case1 => rfl
  | case2 cs =>
    rw [withReturns_cons (by decide)]
    rfl
  | case3 c cs ih =>
    rw [withReturns_cons (by decide), Option.map_map]
    by_cases hc : c = '\n'
    · subst hc
      rw [withReturns_newline, closeString?, hplain rfl, ih, Option.map_map, Option.map_map]
      rfl
    · rw [withReturns_cons hc, closeString?, ih, Option.map_map]
      congr 1
      funext cut
      simp [cutWithReturns, withReturns_cons, hc]
  | case4 c cs hquote hback ih =>
    rw [Option.map_map]
    by_cases hc : c = '\n'
    · subst hc
      rw [withReturns_newline, hplain rfl, hplain rfl, ih, Option.map_map, Option.map_map]
      rfl
    · -- A backslash that stands last has nothing to take in either text.
      have hlast (d : Char) (ds : List Char) (hslash : c = '\\') : withReturns cs ≠ d :: ds := by
        cases cs with
        | nil => exact (List.cons_ne_nil d ds).symm
        | cons e es => exact (hback e es hslash rfl).elim
      rw [withReturns_cons hc, closeString?, ih, Option.map_map]
      · congr 1
        funext cut
        simp [cutWithReturns, withReturns_cons, hc]
      · exact hquote
      · exact hlast

/-- What is found stays, and so does where, but for the carriage returns. -/
def Piece.withReturns (p : Piece) : Piece :=
  ⟨p.find, ScrapeScript.withReturns p.lexeme, ScrapeScript.withReturns p.rest⟩

section Pieces

variable {c : Char} (cs : List Char)

theorem run_withReturns (k : TokenKind) {p : Char → Bool} (hnewline : p '\n' = false)
    (hreturn : p '\r' = false) :
    Piece.run k p (withReturns cs) = (Piece.run k p cs).withReturns := by
  unfold Piece.run
  rw [takeWhile_withReturns hnewline hreturn, dropWhile_withReturns hnewline hreturn]
  rfl

theorem munchString_withReturns :
    munchString (withReturns cs) = (munchString cs).withReturns := by
  unfold munchString
  rw [closeString?_withReturns]
  cases closeString? cs <;> rfl

theorem munchWord_withReturns : munchWord c (withReturns cs) = (munchWord c cs).withReturns := by
  have htail : withReturns (cs.takeWhile isWordChar) = cs.takeWhile isWordChar :=
    withReturns_eq_self fun h => absurd (List.mem_takeWhile_imp h) (by decide)
  unfold munchWord
  dsimp only
  rw [takeWhile_withReturns rfl rfl, dropWhile_withReturns rfl rfl, htail, Piece.withReturns, htail]

theorem munchNumber_withReturns :
    munchNumber (withReturns cs) = (munchNumber cs).withReturns := by
  have hdigits (cs : List Char) : withReturns (cs.takeWhile isDigit) = cs.takeWhile isDigit :=
    withReturns_eq_self fun h => absurd (List.mem_takeWhile_imp h) (by decide)
  have hreturn : isDigit '\r' = false := rfl
  have hnewline : isDigit '\n' = false := rfl
  unfold munchNumber
  rw [takeWhile_withReturns hnewline hreturn, dropWhile_withReturns hnewline hreturn]
  generalize cs.dropWhile isDigit = rest
  -- What is next may be a point, and a digit behind it is one in both texts or in none.
  match rest with
  | [] => simp [Piece.withReturns, hdigits]
  | [e] => by_cases he : e = '\n' <;> simp [Piece.withReturns, hdigits, he, withReturns_cons]
  | e :: d :: rest =>
    by_cases he : e = '.'
    · subst he
      by_cases hd : d = '\n'
      · simp [Piece.withReturns, hdigits, hd, hreturn, hnewline, withReturns_cons]
      · by_cases hdigit : isDigit d = true
        · simp [Piece.withReturns, hdigits, hd, hdigit, withReturns_append, withReturns_cons,
            takeWhile_withReturns hnewline hreturn, dropWhile_withReturns hnewline hreturn]
        · simp [Piece.withReturns, hdigits, hd, hdigit, withReturns_cons]
    · by_cases hnext : e = '\n' <;> simp [Piece.withReturns, hdigits, he, hnext, withReturns_cons]

theorem munchSymbol_withReturns :
    munchSymbol c (withReturns cs) = (munchSymbol c cs).withReturns := by
  unfold munchSymbol
  split
  · rfl
  · rename_i pair _ hpair
    have hsecond : isBlank pair.second = false := by
      have hall : ∀ p ∈ Vocabulary.pairs, isBlank p.second = false := by decide
      exact hall pair (List.mem_of_find?_eq_some hpair)
    simp only [head?_withReturns hsecond]
    split
    · rename_i hhead
      obtain ⟨ds, rfl⟩ := List.head?_eq_some_iff.1 hhead
      have hnewline : pair.second ≠ '\n' := by
        intro h
        rw [h] at hsecond
        cases hsecond
      simp [Piece.withReturns, withReturns_cons hnewline]
    · rfl
  · rfl

theorem munchSlash_withReturns (hcomment : cs.head? ≠ some '/') :
    munchSlash (withReturns cs) = (munchSlash cs).withReturns := by
  cases cs with
  | nil => rfl
  | cons d ds =>
    by_cases hstar : d = '*'
    · subst hstar
      rw [withReturns_cons (by decide)]
      simp only [munchSlash]
      rw [closeComment?_withReturns]
      cases closeComment? ds with
      | none => simp [Piece.withReturns, withReturns_cons]
      | some cut => simp [Piece.withReturns, cutWithReturns, withReturns_cons]
    · by_cases hd : d = '\n'
      · subst hd
        rfl
      · have hslash : d ≠ '/' := fun h => hcomment (congrArg some h)
        simp [munchSlash, Piece.withReturns, withReturns_cons, hd, hstar, hslash]

end Pieces

/-- A piece of a text, and the one in its place. A comment that ends with its line takes the return
with it. -/
inductive Piece.Returned : Piece → Piece → Prop
  | same (p : Piece) : Returned p p.withReturns
  | comment (l ds : List Char) : Returned ⟨.token .comment, l, '\n' :: ds⟩
      ⟨.token .comment, ScrapeScript.withReturns l ++ ['\r'], '\n' :: ScrapeScript.withReturns ds⟩

theorem Piece.Returned.withChar {p q : Piece} (h : p.Returned q) {c : Char} (hc : c ≠ '\n') :
    (p.withChar c).Returned (q.withChar c) := by
  cases h with
  | same =>
    have hchar : p.withReturns.withChar c = (p.withChar c).withReturns := by
      simp [Piece.withReturns, Piece.withChar, withReturns_cons hc]
    rw [hchar]
    exact .same _
  | comment l ds =>
    have hcomment := Piece.Returned.comment (c :: l) ds
    rwa [withReturns_cons hc] at hcomment

section Munches

variable {c : Char} (cs : List Char)

theorem lineComment_returned :
    (Piece.run .comment (· != '\n') cs).Returned
      (.run .comment (· != '\n') (withReturns cs)) := by
  induction cs with
  | nil => exact .same ⟨.token .comment, [], []⟩
  | cons c cs ih =>
    by_cases hc : c = '\n'
    · subst hc
      exact .comment [] cs
    · have hrun (ds : List Char) : Piece.run .comment (· != '\n') (c :: ds) =
          (Piece.run .comment (· != '\n') ds).withChar c := by
        simp [Piece.run, Piece.withChar, hc]
      rw [withReturns_cons hc, hrun, hrun]
      exact ih.withChar hc

theorem munchSlash_returned : (munchSlash cs).Returned (munchSlash (withReturns cs)) := by
  by_cases hcomment : cs.head? = some '/'
  · obtain ⟨ds, rfl⟩ := List.head?_eq_some_iff.1 hcomment
    have hds : withReturns ('/' :: ds) = '/' :: withReturns ds := withReturns_cons (by decide) ds
    have hrun := lineComment_returned ('/' :: ds)
    rw [hds] at hrun ⊢
    exact hrun
  · rw [munchSlash_withReturns cs hcomment]
    exact .same _

theorem munchAfter_returned (hc : isBlank c = false) :
    (munchAfter c cs).Returned (munchAfter c (withReturns cs)) := by
  -- A point has a digit behind it in both texts or in none.
  have hhead : ((withReturns cs).head?.map isDigit).getD false =
      (cs.head?.map isDigit).getD false := by
    cases cs with
    | nil => rfl
    | cons d ds =>
      unfold withReturns
      split
      · rename_i hd
        rw [hd]
        rfl
      · rfl
  unfold munchAfter
  simp only [hc, hhead, Bool.false_eq_true, if_false]
  split
  · rw [munchNumber_withReturns]
    exact .same _
  split
  · rw [munchWord_withReturns]
    exact .same _
  split
  · rw [run_withReturns cs .number rfl rfl]
    exact .same _
  split
  · exact munchSlash_returned cs
  split
  · rw [munchString_withReturns]
    exact .same _
  · rw [munchSymbol_withReturns]
    exact .same _

theorem munch_returned (hc : isBlank c = false) :
    (munch c cs).Returned (munch c (withReturns cs)) := by
  have hnewline : c ≠ '\n' := by
    rintro rfl
    cases hc
  exact (munchAfter_returned cs hc).withChar hnewline

end Munches

/-- A place in a text, once there are carriage returns in it. -/
def Position.withReturns (text : List Char) (p : Position) : Position :=
  { p with offset := p.offset + (text.take p.offset).count '\n' }

def Location.withReturns (text : List Char) (l : Location) : Location :=
  { l with offset := l.offset + (text.take l.offset.toNat).count '\n' }

def Value.withReturns : Value → Value
  | .string s => .string (String.ofList (ScrapeScript.withReturns s.toList))
  | v => v

/-- A token of a text, once there are carriage returns in it: only strings can have any. -/
def Token.withReturns (text : List Char) (t : Token) : Token :=
  { t with
    lexeme := if t.kind = .string then String.ofList (ScrapeScript.withReturns t.lexeme.toList)
      else t.lexeme
    value := if t.kind = .string then t.value.withReturns else t.value
    location := t.location.withReturns text }

def LexicalFault.withReturns (text : List Char) (f : LexicalFault) : LexicalFault :=
  { f with location := f.location.withReturns text }

def Lexed.withReturns (text : List Char) (found : Lexed) : Lexed :=
  ⟨found.tokens.map (·.withReturns text), found.faults.map (·.withReturns text),
    found.stop.withReturns text⟩

theorem Position.after_withReturns (p : Position) (cs : List Char) :
    p.after (ScrapeScript.withReturns cs) = (p.after cs).shifted 0 (cs.count '\n') := by
  induction cs generalizing p with
  | nil => rfl
  | cons c cs ih =>
    by_cases hc : c = '\n'
    · subst hc
      have hadvance : (p.advance '\r').advance '\n' = (p.advance '\n').shifted 0 1 := by
        simp [advance, shifted]
      rw [withReturns_newline, after_cons, after_cons, hadvance, after_shifted, ih, after_cons,
        List.count_cons_self]
      simp only [shifted, Nat.add_zero, Nat.add_assoc]
    · rw [withReturns_cons hc, after_cons, ih, after_cons, List.count_cons_of_ne hc]

theorem Position.start_withReturns (before rest : List Char) :
    start.after (ScrapeScript.withReturns before) =
      (start.after before).withReturns (before ++ rest) := by
  have hoffset : (start.after before).offset = before.length := by
    rw [after_offset]
    exact Nat.zero_add _
  rw [after_withReturns, Position.withReturns, hoffset, List.take_left]
  simp only [shifted, hoffset, Nat.add_zero]

theorem Position.inFile_withReturns (text : List Char) (p : Position) (file : String) :
    (p.withReturns text).inFile file = (p.inFile file).withReturns text := rfl

/-- Strings and trivia aside, no token goes on to the next line. -/
theorem Spells.newline_not_mem {k : TokenKind} {l rest : List Char} (h : Spells k l rest)
    (hstring : k ≠ .string) (hkept : k.isTrivia = false) : '\n' ∉ l := by
  have hdigit : ¬Decimal.Digit '\n' := fun h => absurd (Decimal.digit_iff.1 h) (by decide)
  have hpart : ¬WordPart '\n' := fun h => absurd (wordPart_iff.1 h) (by decide)
  intro hmem
  cases h with
  | whitespace | lineComment | blockComment | openComment => cases hkept
  | string => exact hstring rfl
  | number _ _ hds => exact hdigit (hds _ hmem)
  | decimal _ _ hds _ hes =>
    obtain hd | he := List.mem_append.1 hmem
    · exact hdigit (hds _ hd)
    · exact hdigit (hes _ (List.mem_of_ne_of_mem (by decide) he))
  | fraction _ _ hes => exact hdigit (hes _ (List.mem_of_ne_of_mem (by decide) hmem))
  | keyword _ hc hcs | name _ hc hcs =>
    obtain rfl | hd := List.mem_cons.1 hmem
    · exact hpart (.inl hc)
    · exact hpart (hcs _ hd)
  | sign _ hsign =>
    have hall : ∀ e ∈ signs, '\n' ∉ e.1 := by decide
    exact hall _ hsign hmem

theorem ofLexeme_withReturns {k : TokenKind} {lexeme rest : List Char} (h : Spells k lexeme rest)
    (hkept : k.isTrivia = false) (text : List Char) (l : Location) :
    Token.ofLexeme k (withReturns lexeme) (l.withReturns text) =
      (Token.ofLexeme k lexeme l).withReturns text := by
  by_cases hstring : k = .string
  · subst hstring
    obtain ⟨body, rfl⟩ : ∃ body, lexeme = '"' :: (body ++ ['"']) := by
      have hmeans := h.means
      generalize TokenKind.string.valueOf lexeme = v at hmeans
      cases hmeans with
      | string body => exact ⟨body, rfl⟩
      | nothing _ _ hne => exact absurd rfl hne
    have hquotes : withReturns ('"' :: (body ++ ['"'])) = '"' :: (withReturns body ++ ['"']) := by
      simp [withReturns_cons, withReturns_append]
    simp [Token.ofLexeme, Token.withReturns, Value.withReturns, valueOf_string, hquotes]
  · rw [withReturns_eq_self (h.newline_not_mem hstring hkept)]
    simp [Token.ofLexeme, Token.withReturns, hstring]

section Scans

variable {text : List Char} {c : Char} {cs : List Char}

theorem kept_tokens_withReturns (hc : isBlank c = false) (l : Location) :
    dropTrivia ((munch c cs).withReturns.tokens (l.withReturns text)) =
      (dropTrivia ((munch c cs).tokens l)).map (·.withReturns text) := by
  unfold Piece.tokens Piece.withReturns
  cases hfind : (munch c cs).find with
  | token k =>
    by_cases hk : k.isTrivia = true
    · simp [Find.kind?, dropTrivia, Token.isTrivia, Token.ofLexeme, hk]
    · have hspells : Spells k (munch c cs).lexeme (munch c cs).rest :=
        munch_spells (by rw [hfind]; rfl)
      have hk : k.isTrivia = false := by simpa using hk
      have hkept (t : Token) (ht : t.kind = k) : dropTrivia [t] = [t] := by
        simp [dropTrivia, Token.isTrivia, ht, hk]
      simp only [Find.kind?, Option.map_some, Option.toList_some]
      rw [ofLexeme_withReturns hspells hk, hkept _ rfl, hkept _ rfl]
      rfl
  | unknown =>
    have hnewline : c ≠ '\n' := by
      rintro rfl
      cases hc
    rw [(munch_of_unknown hfind).1, withReturns_cons hnewline]
    rfl
  | openComment => rfl
  | openString => rfl

theorem faults_withReturns (hc : isBlank c = false) (l : Location) :
    (munch c cs).withReturns.faults (l.withReturns text) =
      ((munch c cs).faults l).map (·.withReturns text) := by
  unfold Piece.faults Piece.withReturns
  cases hfind : (munch c cs).find with
  | unknown =>
    have hnewline : c ≠ '\n' := by
      rintro rfl
      cases hc
    rw [(munch_of_unknown hfind).1, withReturns_cons hnewline]
    rfl
  | _ => rfl

namespace Piece.Returned

variable {p q : Piece} (h : p.Returned q)

include h

theorem kept_tokens (l : Location) :
    dropTrivia (q.tokens l) = dropTrivia (p.withReturns.tokens l) := by
  cases h <;> rfl

theorem faults_eq (l : Location) : q.faults l = p.withReturns.faults l := by
  cases h <;> rfl

/-- The return is a part of the comment in one text and a blank behind it in the other. -/
theorem kept_scan (file : String) (start : Position) :
    (scan file (start.after q.lexeme) q.rest).kept =
      (scan file (start.after (ScrapeScript.withReturns p.lexeme))
        (ScrapeScript.withReturns p.rest)).kept := by
  cases h with
  | same => rfl
  | comment l ds =>
    rw [Position.after_append, withReturns_newline]
    exact (kept_scan_blank (c := '\r') rfl).symm

end Piece.Returned

/-- A carriage return makes no difference to what is found before and behind it. -/
theorem kept_scan_withReturns (file : String) (before cs : List Char) :
    (scan file (Position.start.after (withReturns before)) (withReturns cs)).kept =
      (scan file (Position.start.after before) cs).kept.withReturns (before ++ cs) := by
  induction cs using munch_induction generalizing before with
  | nil =>
    rw [withReturns_nil, scan_nil, scan_nil, Position.start_withReturns before []]
    rfl
  | cons c cs ih =>
    have happend := munch_append c cs
    -- What is behind the piece is found behind its text with the returns.
    have ih := ih (before ++ (munch c cs).lexeme)
    rw [withReturns_append, Position.after_append, Position.after_append, List.append_assoc,
      happend] at ih
    by_cases hc : isBlank c = true
    · have hblanks : ∀ b ∈ (munch c cs).lexeme, isBlank b = true := by
        rw [munch, munchAfter_blank _ hc]
        exact List.forall_mem_cons.2 ⟨hc, all_of_mem_takeWhile⟩
      rw [← kept_scan_blanks (forall_mem_withReturns rfl hblanks), ← kept_scan_blanks hblanks,
        ← withReturns_append, happend] at ih
      exact ih
    · have hc : isBlank c = false := by simpa using hc
      have hnewline : c ≠ '\n' := by
        rintro rfl
        cases hc
      have hreturned := munch_returned cs hc
      rw [withReturns_cons hnewline, kept_scan_cons, kept_scan_cons]
      dsimp only
      rw [hreturned.kept_scan, ih, hreturned.kept_tokens, hreturned.faults_eq,
        Position.start_withReturns before (c :: cs), Position.inFile_withReturns,
        kept_tokens_withReturns hc, faults_withReturns hc]
      simp only [Lexed.withReturns, List.map_append]

end Scans

theorem unifyLineEnds_withReturns {cs : List Char} (h : '\r' ∉ cs) :
    unifyLineEnds (withReturns cs) = cs := by
  induction cs with
  | nil => rfl
  | cons c cs ih =>
    obtain ⟨hc, hcs⟩ := List.ne_and_not_mem_of_not_mem_cons h
    by_cases hnewline : c = '\n'
    · subst hnewline
      rw [withReturns_newline, unifyLineEnds, ih hcs]
    · rw [withReturns_cons hnewline, unifyLineEnds, ih hcs, if_neg hc.symm]
      rintro rest rfl
      exact absurd rfl hc

/-- What a text is written to a file as is read back, with its line ends unified. -/
theorem decodeText?_toUTF8 (s : String) :
    decodeText? s.toUTF8 = some (String.ofList (unifyLineEnds s.toList)) := by
  have hbytes : String.fromUTF8? s.toUTF8 = some s := dif_pos s.isValidUTF8
  rw [decodeText?, hbytes]
  rfl

namespace Script

/-- The script as it is written where lines end with a carriage return and a newline. -/
def withReturns (script : Script) : Script :=
  ⟨String.ofList (ScrapeScript.withReturns script.source.toList), script.file⟩

theorem toList_withReturns (script : Script) : script.withReturns.source.toList =
    ScrapeScript.withReturns script.source.toList := String.toList_ofList

/-- Line ends make no difference but in strings. With carriage returns before its newlines a script
has the same tokens and warnings, at the same lines and columns. Read from a file, where line ends
are unified, it is the very script without them. -/
theorem found_withReturns (script : Script) :
    script.withReturns.tokens = script.tokens.map (·.withReturns script.source.toList) ∧
    script.withReturns.warnings = script.warnings.map (·.withReturns script.source.toList) ∧
    ('\r' ∉ script.source.toList →
      ofFile script.file (some script.withReturns.source.toUTF8) = .ok script) := by
  have hkept : script.withReturns.lexed.kept =
      script.lexed.kept.withReturns script.source.toList := by
    unfold lexed Lexed.ofString
    rw [toList_withReturns]
    exact kept_scan_withReturns script.file [] script.source.toList
  refine ⟨congrArg Lexed.tokens hkept, congrArg Lexed.faults hkept, fun hreturn => ?_⟩
  have hread : decodeText? script.withReturns.source.toUTF8 = some script.source := by
    rw [decodeText?_toUTF8, toList_withReturns, unifyLineEnds_withReturns hreturn,
      String.ofList_toList]
  simp only [ofFile, hread]

/-- A newline behind a backslash in a string, and one behind a comment. -/
theorem found_escapedNewline :
    let script : Script := ⟨"x = \"a\\\nb\"; // c\ny & z;", "a"⟩
    script.withReturns.source = "x = \"a\\\r\nb\"; // c\r\ny & z;" ∧
    script.withReturns.tokens = script.tokens.map (·.withReturns script.source.toList) ∧
    script.withReturns.warnings = script.warnings.map (·.withReturns script.source.toList) ∧
    '\r' ∉ script.source.toList ∧
      ofFile script.file (some script.withReturns.source.toUTF8) = .ok script := by
  intro script
  have hreturn : '\r' ∉ script.source.toList := by decide +kernel
  obtain ⟨htokens, hwarnings, hread⟩ := script.found_withReturns
  exact ⟨by decide +kernel, htokens, hwarnings, hreturn, hread hreturn⟩

end Script

end ScrapeScript
