import ScrapeScript.Proofs.Lexer.Division

namespace ScrapeScript

/-- The text of tokens one behind the other. -/
def textOf (ts : List Token) : List Char := ts.flatMap (·.lexeme.toList)

@[simp] theorem textOf_cons (t : Token) (ts : List Token) :
    textOf (t :: ts) = t.lexeme.toList ++ textOf ts := rfl

/-- Tokens that take up all places from one offset to another. -/
inductive Tiles : Nat → List Token → Nat → Prop
  | nil (lo : Nat) : Tiles lo [] lo
  | cons {lo hi : Nat} {t : Token} {ts : List Token} : t.location.offset = lo →
    Tiles (lo + t.lexeme.length) ts hi → Tiles lo (t :: ts) hi

namespace Tiles

variable {lo hi : Nat} {ts : List Token}

theorem eq_add_length (h : Tiles lo ts hi) : hi = lo + (textOf ts).length := by
  induction h with
  | nil lo => rfl
  | @cons lo hi t ts _ _ ih =>
    rw [ih, textOf_cons, List.length_append, String.length_toList, Nat.add_assoc]

/-- Each token is the part of the text that begins at its offset. -/
theorem slice (h : Tiles lo ts hi) {cs : List Char} (hcs : textOf ts <+: cs) :
    ∀ t ∈ ts, ∃ o : Nat, t.location.offset = ((lo + o : Nat) : Int) ∧
      (cs.drop o).take t.lexeme.length = t.lexeme.toList := by
  induction h generalizing cs with
  | nil lo => exact List.forall_mem_nil _
  | @cons lo hi t ts ht _ ih =>
    obtain ⟨rest, rfl⟩ := hcs
    rw [textOf_cons, List.append_assoc]
    refine List.forall_mem_cons.2 ⟨⟨0, ht, ?_⟩, fun u hu => ?_⟩
    · rw [List.drop_zero, ← String.length_toList, List.take_left]
    · obtain ⟨o, ho, htext⟩ := ih (List.prefix_append (textOf ts) rest) u hu
      refine ⟨t.lexeme.length + o, by rw [ho, Nat.add_assoc], ?_⟩
      rw [← String.length_toList (s := t.lexeme), List.drop_length_add_append]
      exact htext

end Tiles

def LexicalFault.opensString (f : LexicalFault) : Bool := f.cause == .openString

theorem LexicalFault.code_eq (f : LexicalFault) :
    (f.warning.diagnostic.code == some "L002") = f.opensString := by
  obtain ⟨cause, location⟩ := f
  cases cause <;> rfl

/-- A text taken apart from an offset on: tokens up to `hi` and the end of the file, with a gap
before it where a string is not closed. -/
structure Partition (lo : Nat) (cs : List Char) (found : Lexed) (ts : List Token) (hi : Nat) :
    Prop where
  tokens : ∃ last, found.tokens = ts ++ [last] ∧ last.kind = .endOfFile ∧ last.lexeme = "" ∧
    last.location.offset = ((lo + cs.length : Nat) : Int)
  kinds : ∀ t ∈ ts, t.kind ≠ .endOfFile ∧ t.lexeme ≠ ""
  tiles : Tiles lo ts hi
  text : textOf ts <+: cs
  gap : (found.faults.filter (·.opensString) = [] ∧ hi = lo + cs.length) ∨
    ∃ f, found.faults.filter (·.opensString) = [f] ∧ f.location.offset = hi ∧ hi < lo + cs.length

namespace Partition

variable {lo hi : Nat} {cs rest : List Char} {found : Lexed} {ts : List Token}

theorem nothing (file : String) (p : Position) :
    Partition p.offset [] (scan file p []) [] p.offset := by
  rw [scan_nil]
  exact ⟨⟨_, rfl, rfl, rfl, rfl⟩, List.forall_mem_nil _, .nil _, List.prefix_refl [],
    .inl ⟨rfl, rfl⟩⟩

/-- A token and what comes after it. -/
theorem token {t : Token} {fs : List LexicalFault} {l : List Char} (htext : t.lexeme = .ofList l)
    (hne : l ≠ []) (hkind : t.kind ≠ .endOfFile) (hoffset : t.location.offset = lo)
    (hfs : fs.filter (·.opensString) = []) (h : Partition (lo + l.length) rest found ts hi) :
    Partition lo (l ++ rest) ⟨t :: found.tokens, fs ++ found.faults, found.stop⟩ (t :: ts) hi := by
  obtain ⟨⟨last, htokens, hlast⟩, hkinds, htiles, hrest, hgap⟩ := h
  have hlexeme : t.lexeme.toList = l := by rw [htext, String.toList_ofList]
  have hlength : t.lexeme.length = l.length := by rw [← String.length_toList, hlexeme]
  have hadd : lo + l.length + rest.length = lo + (l ++ rest).length := by
    rw [List.length_append, Nat.add_assoc]
  rw [hadd] at hlast hgap
  refine ⟨⟨last, by rw [htokens]; rfl, hlast⟩, ?_, .cons hoffset (hlength ▸ htiles), ?_, ?_⟩
  · refine List.forall_mem_cons.2 ⟨⟨hkind, fun hempty => hne ?_⟩, hkinds⟩
    rw [← hlexeme, hempty]
    rfl
  · obtain ⟨tail, rfl⟩ := hrest
    exact ⟨tail, by simp [hlexeme]⟩
  · rwa [List.filter_append, hfs]

/-- A string that is not closed is all that is left. -/
theorem openString (file : String) (p stop : Position) {cs : List Char} (hne : cs ≠ []) :
    Partition p.offset cs ⟨(scan file (p.after cs) []).tokens,
      [⟨.openString, p.inFile file⟩] ++ (scan file (p.after cs) []).faults, stop⟩ [] p.offset := by
  rw [scan_nil]
  refine ⟨⟨_, rfl, rfl, rfl, ?_⟩, List.forall_mem_nil _, .nil _, List.nil_prefix,
    .inr ⟨_, rfl, rfl, ?_⟩⟩
  · exact congrArg Nat.cast (p.after_offset cs)
  · exact Nat.lt_add_of_pos_right (List.length_pos_iff.2 hne)

end Partition

theorem Spells.kind_ne_endOfFile {k : TokenKind} {l rest : List Char} (h : Spells k l rest) :
    k ≠ .endOfFile := by
  obtain hlisted | rfl | rfl | rfl | rfl | rfl := h.isListed_or
  · exact TokenKind.ne_of_class hlisted rfl
  all_goals nofun

section Pieces

variable {c : Char} {cs : List Char}

theorem munch_openString (h : (munch c cs).find = .openString) :
    (munch c cs).lexeme = c :: cs ∧ (munch c cs).rest = [] := by
  have happend := munch_append c cs
  have hunspelled : Unspelled (c :: cs) := unspelled_of_munch (by rw [h]; rfl)
  obtain ⟨-, -, hrest⟩ | ⟨-, hfind, -⟩ := munch_of_unspelled hunspelled
  · rw [hrest, List.append_nil] at happend
    exact ⟨happend, hrest⟩
  · rw [h] at hfind
    cases hfind

theorem munch_kind (h : (munch c cs).find ≠ .openString) :
    ∃ k, (munch c cs).find.kind? = some k ∧ k ≠ .endOfFile := by
  cases hfind : (munch c cs).find with
  | token k =>
    have hspells : Spells k _ _ := munch_spells (by rw [hfind]; rfl)
    exact ⟨k, rfl, hspells.kind_ne_endOfFile⟩
  | openComment => exact ⟨.comment, rfl, nofun⟩
  | openString => exact absurd hfind h
  | unknown => exact ⟨.unknown, rfl, nofun⟩

theorem Piece.filter_faults {p : Piece} (h : p.find ≠ .openString) (l : Location) :
    (p.faults l).filter (·.opensString) = [] := by
  unfold Piece.faults
  cases hfind : p.find with
  | openString => exact absurd hfind h
  | _ => simp [Find.cause?, LexicalFault.opensString]

end Pieces

theorem scan_partition (file : String) (p : Position) (cs : List Char) :
    ∃ ts hi, Partition p.offset cs (scan file p cs) ts hi := by
  induction cs using munch_induction generalizing p with
  | nil => exact ⟨[], p.offset, .nothing file p⟩
  | cons c cs ih =>
    rw [scan_cons]
    by_cases hfind : (munch c cs).find = .openString
    · obtain ⟨hlexeme, hrest⟩ := munch_openString hfind
      refine ⟨[], p.offset, ?_⟩
      rw [Piece.tokens, Piece.faults, hfind, hlexeme, hrest]
      exact .openString file p _ (List.cons_ne_nil c cs)
    · obtain ⟨k, hkind, hne⟩ := munch_kind hfind
      obtain ⟨ts, hi, hrest⟩ := ih (p.after (munch c cs).lexeme)
      rw [p.after_offset] at hrest
      let t := Token.ofLexeme k (munch c cs).lexeme (p.inFile file)
      refine ⟨t :: ts, hi, ?_⟩
      have htoken := hrest.token (t := t) rfl (munch_lexeme_ne_nil c cs) hne rfl
        (Piece.filter_faults hfind (p.inFile file))
      rw [munch_append] at htoken
      rw [Piece.tokens, hkind]
      exact htoken

section Blanks

variable {k : TokenKind} {cs l rest : List Char} {ws : List Word}

theorem Spells.isBlank_of_whitespace (h : Spells k l rest) (hk : k = .whitespace) :
    ∀ c ∈ l, isBlank c = true := by
  cases h with
  | whitespace _ _ hblank => exact fun c hc => blank_iff.1 (hblank c hc)
  | keyword _ _ _ hword =>
    exact absurd hk (TokenKind.ne_of_class (isListed_of_mem_reserved hword) rfl)
  | sign _ hsign => exact absurd hk (TokenKind.ne_of_class (isListed_of_mem_signs hsign) rfl)
  | _ => cases hk

/-- Whitespace that is the longest token ends where no blank comes next. -/
theorem Longest.not_isBlank (h : Longest .whitespace l rest) {c : Char} {cs : List Char}
    (hrest : rest = c :: cs) : isBlank c = false := by
  rw [← Bool.not_eq_true]
  intro hc
  have hblank : ∀ d ∈ l ++ [c], isBlank d = true := by
    refine List.forall_mem_append.2 ⟨h.spells.isBlank_of_whitespace rfl, ?_⟩
    exact List.forall_mem_singleton.2 hc
  have hle := h.length_le (.whitespace cs (by simp) fun d hd => blank_iff.2 (hblank d hd))
    (by simp [hrest])
  rw [List.length_append, List.length_singleton] at hle
  omega

theorem Divides.isBlank_of_whitespace (h : Divides cs ws)
    (hws : [TokenKind.whitespace] <+: (ws ++ [Word.endOfFile]).map Word.kind) :
    ∃ c tail, cs = c :: tail ∧ isBlank c = true := by
  cases h with
  | nothing | openString | unknown =>
    obtain ⟨tail, htail⟩ := hws
    cases htail
  | @token w rest ws hlongest =>
    have hkind : w.kind = .whitespace := by
      obtain ⟨tail, htail⟩ := hws
      exact (List.head_eq_of_cons_eq htail).symm
    obtain ⟨c, l, hl⟩ := List.exists_cons_of_ne_nil hlongest.spells.ne_nil
    refine ⟨c, l ++ rest, by rw [hl]; rfl, ?_⟩
    exact hlongest.spells.isBlank_of_whitespace hkind c (by simp [hl])

theorem Divides.not_two_blanks (h : Divides cs ws) :
    ¬[TokenKind.whitespace, .whitespace] <:+: (ws ++ [Word.endOfFile]).map Word.kind := by
  induction h with
  | nothing | openString => exact fun h => absurd h.length_le (by decide)
  | @token w rest ws hlongest _ hrest ih =>
    rw [List.cons_append, List.map_cons, List.infix_cons_iff, List.cons_prefix_cons]
    rintro (⟨hkind, hnext⟩ | hinfix)
    · obtain ⟨c, tail, htail, hc⟩ := hrest.isBlank_of_whitespace hnext
      rw [← hkind] at hlongest
      rw [hlongest.not_isBlank htail] at hc
      cases hc
    · exact ih hinfix
  | unknown _ _ _ ih =>
    rw [List.cons_append, List.map_cons, List.infix_cons_iff, List.cons_prefix_cons]
    rintro (⟨hkind, -⟩ | hinfix)
    · cases hkind
    · exact ih hinfix

end Blanks

/-- The tokens of a run take up all of its text, or all before a string that is not closed, and one
of whitespace is never next to another. -/
theorem Lexer.run_partition (lexer : Lexer) : ∃ (ts : List Token) (last : Token) (hi : Nat),
    lexer.run.tokens = ts ++ [last] ∧
    (last.kind = .endOfFile ∧ last.lexeme = "" ∧ last.location.offset = lexer.source.length) ∧
    (∀ t ∈ ts, t.kind ≠ .endOfFile ∧ t.lexeme ≠ "" ∧ ∃ o : Nat, t.location.offset = o ∧
      (lexer.source.toList.drop o).take t.lexeme.length = t.lexeme.toList) ∧
    Tiles 0 ts hi ∧ textOf ts = lexer.source.toList.take hi ∧
    ((lexer.run.faults.filter (·.warning.diagnostic.code == some "L002") = [] ∧
        hi = lexer.source.length) ∨
      ∃ f, lexer.run.faults.filter (·.warning.diagnostic.code == some "L002") = [f] ∧
        f.location.offset = hi ∧ hi < lexer.source.length) ∧
    ¬[TokenKind.whitespace, .whitespace] <:+: lexer.run.tokens.map (·.kind) := by
  obtain ⟨ts, hi, ⟨last, htokens, hkind, hlexeme, hoffset⟩, hkinds, htiles, htext, hgap⟩ :=
    scan_partition lexer.file .start lexer.source.toList
  have hstart : Position.start.offset = 0 := rfl
  simp only [hstart, Nat.zero_add, String.length_toList] at hoffset htiles hgap
  refine ⟨ts, last, hi, htokens, ⟨hkind, hlexeme, hoffset⟩, fun t ht => ?_, htiles, ?_, ?_, ?_⟩
  · obtain ⟨o, ho, hslice⟩ := htiles.slice htext t ht
    rw [Nat.zero_add] at ho
    exact ⟨(hkinds t ht).1, (hkinds t ht).2, o, ho, hslice⟩
  · have hhi := htiles.eq_add_length
    rw [Nat.zero_add] at hhi
    rw [hhi]
    exact List.prefix_iff_eq_take.1 htext
  · simp only [LexicalFault.code_eq]
    exact hgap
  · obtain ⟨ws, hws⟩ := exists_divides lexer.source.toList
    have hwords : lexer.run.tokens.map Token.word = ws ++ [.endOfFile] :=
      hws.words_scan lexer.file .start
    have hkinds : lexer.run.tokens.map (·.kind) = (ws ++ [Word.endOfFile]).map Word.kind := by
      rw [← hwords, List.map_map]
      rfl
    rw [hkinds]
    exact hws.not_two_blanks

end ScrapeScript
