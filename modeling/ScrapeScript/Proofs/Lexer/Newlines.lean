import ScrapeScript.Proofs.Lexer.Lookahead
import ScrapeScript.Proofs.Lexer.Places
import ScrapeScript.Script.Basic

namespace ScrapeScript

section Shifts

variable (lines chars : Nat)

/-- A place with some lines before the text. The column stays. -/
def Position.shifted (p : Position) : Position := ⟨p.line + lines, p.column, p.offset + chars⟩

def Location.shifted (l : Location) : Location :=
  ⟨l.file, l.line + lines, l.column, l.offset + chars⟩

def Token.shifted (t : Token) : Token := ⟨t.kind, t.lexeme, t.value, t.location.shifted lines chars⟩

def LexicalFault.shifted (f : LexicalFault) : LexicalFault :=
  ⟨f.cause, f.location.shifted lines chars⟩

def Lexed.shifted (found : Lexed) : Lexed :=
  ⟨found.tokens.map (·.shifted lines chars), found.faults.map (·.shifted lines chars),
    found.stop.shifted lines chars⟩

theorem Position.inFile_shifted (p : Position) (file : String) :
    (p.shifted lines chars).inFile file = (p.inFile file).shifted lines chars := rfl

theorem Position.advance_shifted (p : Position) (c : Char) :
    (p.shifted lines chars).advance c = (p.advance c).shifted lines chars := by
  unfold advance shifted
  split <;> simp [Nat.add_right_comm]

theorem Position.after_shifted (p : Position) (cs : List Char) :
    (p.shifted lines chars).after cs = (p.after cs).shifted lines chars := by
  induction cs generalizing p with
  | nil => rfl
  | cons c cs ih => rw [after_cons, advance_shifted, ih, after_cons]

theorem Piece.tokens_shifted (p : Piece) (l : Location) :
    p.tokens (l.shifted lines chars) = (p.tokens l).map (·.shifted lines chars) := by
  unfold tokens
  cases p.find.kind? <;> rfl

theorem Piece.faults_shifted (p : Piece) (l : Location) :
    p.faults (l.shifted lines chars) = (p.faults l).map (·.shifted lines chars) := by
  unfold faults
  cases p.find.cause? p.lexeme <;> rfl

/-- What a text is taken apart into does not depend on where it stands. -/
theorem scan_shifted (file : String) (p : Position) (cs : List Char) :
    scan file (p.shifted lines chars) cs = (scan file p cs).shifted lines chars := by
  induction cs using munch_induction generalizing p with
  | nil =>
    rw [scan_nil, scan_nil]
    rfl
  | cons c cs ih =>
    rw [scan_cons, scan_cons, p.after_shifted, ih, p.inFile_shifted, Piece.tokens_shifted,
      Piece.faults_shifted]
    simp only [Lexed.shifted, List.map_append]

end Shifts

/-- The line after a text begins like the first one, with that text before it. -/
theorem Position.start_newline (cs : List Char) :
    (start.after cs).advance '\n' = start.shifted (cs.count '\n' + 1) (cs.length + 1) := by
  simp only [advance, if_true, shifted, after_line, after_offset, start, Position.mk.injEq,
    true_and]
  omega

namespace Lexed

/-- What the parser is given of a text. -/
def kept (found : Lexed) : Lexed := ⟨dropTrivia found.tokens, found.faults, found.stop⟩

/-- What is found in two texts, of which only the second one has an end. -/
def before (first second : Lexed) : Lexed :=
  ⟨first.tokens.dropLast ++ second.tokens, first.faults ++ second.faults, second.stop⟩

theorem kept_shifted (lines chars : Nat) (found : Lexed) :
    (found.shifted lines chars).kept = found.kept.shifted lines chars := by
  simp only [kept, shifted, dropTrivia, List.filter_map]
  rfl

end Lexed

section Kept

variable {file : String} {p : Position} {c : Char} {bs cs : List Char}

theorem kept_scan_cons : (scan file p (c :: cs)).kept =
    let rest := (scan file (p.after (munch c cs).lexeme) (munch c cs).rest).kept
    ⟨dropTrivia ((munch c cs).tokens (p.inFile file)) ++ rest.tokens,
      (munch c cs).faults (p.inFile file) ++ rest.faults, rest.stop⟩ := by
  rw [scan_cons]
  simp only [Lexed.kept, dropTrivia_append]

theorem kept_scan_stop (file : String) (p : Position) (cs : List Char) :
    ∃ ts, (scan file p cs).kept.tokens = ts ++ [.endOfFile ((p.after cs).inFile file)] := by
  obtain ⟨-, ts, hts⟩ := scan_stop file p cs
  refine ⟨dropTrivia ts, ?_⟩
  rw [← dropTrivia_concat rfl, ← hts]
  rfl

/-- Whether a blank is the first of several makes no difference. -/
theorem kept_scan_blank (h : isBlank c = true) :
    (scan file p (c :: cs)).kept = (scan file (p.advance c) cs).kept := by
  have hrun (q : Position) (d : Char) (ds : List Char) (hd : isBlank d = true) :
      (scan file q (d :: ds)).kept =
        (scan file (q.after (d :: ds.takeWhile isBlank)) (ds.dropWhile isBlank)).kept := by
    rw [kept_scan_cons, munch, munchAfter_blank _ hd]
    rfl
  rw [hrun p c cs h]
  cases cs with
  | nil => rfl
  | cons d ds =>
    by_cases hd : isBlank d = true
    · rw [hrun _ d ds hd, List.takeWhile_cons_of_pos hd, List.dropWhile_cons_of_pos hd]
      rfl
    · rw [List.takeWhile_cons_of_neg hd, List.dropWhile_cons_of_neg hd]
      rfl

theorem kept_scan_blanks (h : ∀ b ∈ bs, isBlank b = true) :
    (scan file p (bs ++ cs)).kept = (scan file (p.after bs) cs).kept := by
  induction bs generalizing p with
  | nil => rfl
  | cons b bs ih =>
    obtain ⟨hb, hbs⟩ := List.forall_mem_cons.1 h
    rw [List.cons_append, kept_scan_blank hb, ih hbs]
    rfl

/-- A string or a comment is missing its end. -/
def LexicalFault.isOpen (f : LexicalFault) : Bool :=
  f.cause == .openString || f.cause == .openComment

theorem Piece.isClosed_of_faults {piece : Piece} {l : Location}
    (h : ∀ f ∈ piece.faults l, f.isOpen = false) : piece.find.isClosed = true := by
  unfold faults at h
  cases hfind : piece.find with
  | token | unknown => rfl
  | openComment | openString =>
    rw [hfind] at h
    cases h _ (List.mem_singleton_self _)

/-- A newline ends what is before it, unless that is a string or a comment. -/
theorem kept_scan_newline (ds : List Char)
    (hclosed : ∀ f ∈ (scan file p cs).faults, f.isOpen = false) :
    (scan file p (cs ++ '\n' :: ds)).kept =
      (scan file p cs).kept.before (scan file ((p.after cs).advance '\n') ds).kept := by
  induction cs using munch_induction generalizing p with
  | nil =>
    rw [scan_nil]
    exact kept_scan_blank rfl
  | cons c cs ih =>
    have happend := munch_append c cs
    rw [scan_cons] at hclosed
    obtain ⟨hpiece, hrest⟩ := List.forall_mem_append.1 hclosed
    have ih := ih hrest
    rw [← p.after_append, happend] at ih
    by_cases hc : isBlank c = true
    · -- What is taken here goes on behind the newline if only blanks are left before it.
      have hblanks : ∀ b ∈ (munch c cs).lexeme, isBlank b = true := by
        rw [munch, munchAfter_blank _ hc]
        exact List.forall_mem_cons.2 ⟨hc, all_of_mem_takeWhile⟩
      have hfirst : (scan file p (c :: cs)).kept =
          (scan file (p.after (munch c cs).lexeme) (munch c cs).rest).kept := by
        rw [← happend, kept_scan_blanks hblanks]
      rw [hfirst, ← ih, ← kept_scan_blanks hblanks, ← List.append_assoc, happend]
    · have hfollowed := munch_followedBy (b := '\n') rfl cs ds (by simpa using hc)
        (Piece.isClosed_of_faults hpiece) fun _ => rfl
      obtain ⟨ts, hts⟩ := kept_scan_stop file (p.after (munch c cs).lexeme) (munch c cs).rest
      have hne : (scan file (p.after (munch c cs).lexeme) (munch c cs).rest).kept.tokens ≠ [] := by
        simp [hts]
      rw [List.cons_append, kept_scan_cons, kept_scan_cons, hfollowed]
      simp only [Piece.followedBy, ih, Lexed.before, List.dropLast_append_of_ne_nil hne,
        List.append_assoc]
      rfl

end Kept

theorem LexicalFault.isOpen_eq_false {f : LexicalFault}
    (h : f.warning.diagnostic.code ≠ some "L002" ∧ f.warning.diagnostic.code ≠ some "L003") :
    f.isOpen = false := by
  obtain ⟨cause, location⟩ := f
  cases cause with
  | unknownCharacter => rfl
  | openString => exact absurd rfl h.1
  | openComment => exact absurd rfl h.2

namespace Script

/-- A newline separates two texts. What is found in the second one is what it holds alone, further
down by the lines of the first. -/
theorem newline_separates (file s t : String)
    (hclosed : ∀ f ∈ (mk s file).warnings, f.warning.diagnostic.code ≠ some "L002" ∧
      f.warning.diagnostic.code ≠ some "L003") :
    let lines := s.toList.count '\n' + 1
    let chars := s.length + 1
    ∃ ts last, (mk s file).tokens = ts ++ [last] ∧ last.kind = .endOfFile ∧
      (mk (s ++ "\n" ++ t) file).tokens =
        ts ++ (mk t file).tokens.map (·.shifted lines chars) ∧
      (mk (s ++ "\n" ++ t) file).warnings =
        (mk s file).warnings ++ (mk t file).warnings.map (·.shifted lines chars) := by
  intro lines chars
  have hnewline : (Lexed.ofString (s ++ "\n" ++ t) file).kept =
      (Lexed.ofString s file).kept.before ((Lexed.ofString t file).kept.shifted lines chars) := by
    have hopen : ∀ f ∈ (scan file .start s.toList).faults, f.isOpen = false :=
      fun f hf => LexicalFault.isOpen_eq_false (hclosed f hf)
    have hscan := kept_scan_newline t.toList hopen
    rw [Position.start_newline, scan_shifted, Lexed.kept_shifted, String.length_toList] at hscan
    unfold Lexed.ofString
    rwa [String.toList_append, String.toList_append, List.append_assoc]
  obtain ⟨ts, hts⟩ := kept_scan_stop file .start s.toList
  refine ⟨ts, _, hts, rfl, ?_, congrArg Lexed.faults hnewline⟩
  have hlast : (Lexed.ofString s file).kept.tokens.dropLast = ts := by
    rw [Lexed.ofString, hts, List.dropLast_concat]
  rw [← hlast]
  exact congrArg Lexed.tokens hnewline

/-- Half an operator on either side of the newline, and a string that is open behind it. -/
theorem separates_halves :
    let s := "x = 1.\n 2. &"
    let t := "& \""
    (∀ f ∈ (mk s "a").warnings, f.warning.diagnostic.code ≠ some "L002" ∧
      f.warning.diagnostic.code ≠ some "L003") ∧
    ∃ ts last, (mk s "a").tokens = ts ++ [last] ∧ last.kind = .endOfFile ∧
      (mk (s ++ "\n" ++ t) "a").tokens = ts ++ (mk t "a").tokens.map (·.shifted 2 13) ∧
      (mk (s ++ "\n" ++ t) "a").warnings =
        (mk s "a").warnings ++ (mk t "a").warnings.map (·.shifted 2 13) := by
  intro s t
  have hclosed : ∀ f ∈ (mk s "a").warnings, f.warning.diagnostic.code ≠ some "L002" ∧
      f.warning.diagnostic.code ≠ some "L003" := by decide +kernel
  have hlines : s.toList.count '\n' + 1 = 2 := by decide +kernel
  have hchars : s.length + 1 = 13 := by decide +kernel
  rw [← hlines, ← hchars]
  exact ⟨hclosed, newline_separates "a" s t hclosed⟩

end Script

end ScrapeScript
