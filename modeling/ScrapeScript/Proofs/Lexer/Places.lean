import Mathlib.Data.List.Induction
import ScrapeScript.Proofs.Lexer.Division

namespace ScrapeScript

/-- How many characters stand before the last line of a text. -/
def lineStart (cs : List Char) : Nat := (cs.reverse.dropWhile (· != '\n')).length

theorem lineStart_newline (cs : List Char) : lineStart (cs ++ ['\n']) = cs.length + 1 := by
  simp [lineStart]

theorem lineStart_append {c : Char} (h : c ≠ '\n') (cs : List Char) :
    lineStart (cs ++ [c]) = lineStart cs := by
  simp [lineStart, h]

theorem lineStart_le (cs : List Char) : lineStart cs ≤ cs.length := by
  have h := (List.dropWhile_suffix (l := cs.reverse) (· != '\n')).length_le
  rwa [List.length_reverse] at h

namespace Position

/-- The place behind a text: the line counts its newlines, the column what comes after the last. -/
def behind (cs : List Char) : Position :=
  ⟨1 + cs.count '\n', cs.length - lineStart cs + 1, cs.length⟩

/-- To count on with each character comes to the same place. -/
theorem start_after (cs : List Char) : start.after cs = behind cs := by
  induction cs using List.reverseRecOn with
  | nil => rfl
  | append_singleton cs c ih =>
    have hle := lineStart_le cs
    rw [after_append, ih, after_cons, after_nil, advance]
    unfold behind
    split
    · rename_i hc
      simp [hc, lineStart_newline, Nat.add_assoc]
    · rename_i hc
      rw [lineStart_append hc]
      simp only [List.count_append, List.length_append, List.length_singleton, Position.mk.injEq]
      simp [hc]
      omega

theorem after_line (p : Position) (cs : List Char) :
    (p.after cs).line = p.line + cs.count '\n' := by
  induction cs generalizing p with
  | nil => rfl
  | cons c cs ih =>
    rw [after_cons, ih, List.count_cons, advance]
    split
    · rename_i hc
      simp only [hc, beq_self_eq_true, if_true]
      omega
    · rename_i hc
      simp [hc]

/-- On one line the column goes on with the characters. -/
theorem after_column {cs : List Char} (h : '\n' ∉ cs) (p : Position) :
    (p.after cs).column = p.column + cs.length := by
  induction cs generalizing p with
  | nil => rfl
  | cons c cs ih =>
    rw [List.mem_cons, not_or] at h
    rw [after_cons, ih h.2, advance, if_neg (Ne.symm h.1), List.length_cons]
    dsimp only
    omega

/-- Further on in a text the line is another one, or the column is. -/
theorem eq_nil_of_after {p : Position} {cs : List Char} (hline : (p.after cs).line = p.line)
    (hcolumn : (p.after cs).column = p.column) : cs = [] := by
  rw [after_line] at hline
  have hcount : cs.count '\n' = 0 := by omega
  rw [after_column (List.count_eq_zero.1 hcount)] at hcolumn
  exact List.eq_nil_of_length_eq_zero (by omega)

/-- In one text the line and the column tell where a place is. -/
theorem behind_inj {cs ds es : List Char} (hds : ds <+: cs) (hes : es <+: cs)
    (hline : (behind ds).line = (behind es).line)
    (hcolumn : (behind ds).column = (behind es).column) : ds = es := by
  wlog hprefix : ds <+: es
  · obtain h | h := List.prefix_or_prefix_of_prefix hds hes
    · exact absurd h hprefix
    · exact (this hes hds hline.symm hcolumn.symm h).symm
  obtain ⟨fs, rfl⟩ := hprefix
  rw [← start_after, ← start_after, after_append] at hline hcolumn
  rw [eq_nil_of_after hline.symm hcolumn.symm, List.append_nil]

end Position

/-- The places that a lexed text reports, those of the tokens before those of the warnings. -/
def Lexed.places (found : Lexed) : List Location :=
  found.tokens.map (·.location) ++ found.faults.map (·.warning.diagnostic.location)

section Scans

variable {file : String} {p : Position} {l : Location} {c : Char} {cs : List Char}

theorem Piece.location_tokens {piece : Piece} {t : Token} (h : t ∈ piece.tokens l) :
    t.location = l := by
  obtain ⟨kind, -, rfl⟩ := Option.map_eq_some_iff.1 (Option.mem_toList.1 h)
  rfl

theorem Piece.location_faults {piece : Piece} {f : LexicalFault} (h : f ∈ piece.faults l) :
    f.warning.diagnostic.location = l := by
  obtain ⟨cause, -, rfl⟩ := Option.map_eq_some_iff.1 (Option.mem_toList.1 h)
  rfl

/-- A piece is reported at the place where it begins. -/
theorem mem_places_scan_cons (h : l ∈ (scan file p (c :: cs)).places) :
    l = p.inFile file ∨
      l ∈ (scan file (p.after (munch c cs).lexeme) (munch c cs).rest).places := by
  rw [scan_cons] at h
  simp only [Lexed.places, List.map_append, List.mem_append] at h ⊢
  rcases h with (h | h) | (h | h)
  · obtain ⟨t, ht, rfl⟩ := List.mem_map.1 h
    exact .inl (Piece.location_tokens ht)
  · exact .inr (.inl h)
  · obtain ⟨f, hf, rfl⟩ := List.mem_map.1 h
    exact .inl (Piece.location_faults hf)
  · exact .inr (.inr h)

theorem mem_places_scan (h : l ∈ (scan file p cs).places) :
    ∃ before, before <+: cs ∧ l = (p.after before).inFile file := by
  induction cs using munch_induction generalizing p with
  | nil =>
    rw [scan_nil] at h
    exact ⟨[], List.prefix_refl [], List.mem_singleton.1 h⟩
  | cons c cs ih =>
    obtain rfl | h := mem_places_scan_cons h
    · exact ⟨[], List.nil_prefix, rfl⟩
    · obtain ⟨before, hbefore, rfl⟩ := ih h
      refine ⟨(munch c cs).lexeme ++ before, ?_, by rw [p.after_append]⟩
      rw [← munch_append c cs]
      exact (List.prefix_append_right_inj _).2 hbefore

/-- The end of the file is reported where the text ends. -/
theorem scan_stop (file : String) (p : Position) (cs : List Char) :
    (scan file p cs).stop = p.after cs ∧
      ∃ ts, (scan file p cs).tokens = ts ++ [.endOfFile ((p.after cs).inFile file)] := by
  induction cs using munch_induction generalizing p with
  | nil =>
    rw [scan_nil]
    exact ⟨rfl, [], rfl⟩
  | cons c cs ih =>
    obtain ⟨hstop, ts, hts⟩ := ih (p.after (munch c cs).lexeme)
    rw [← p.after_append, munch_append] at hstop hts
    rw [scan_cons]
    dsimp only
    rw [hts, ← List.append_assoc]
    exact ⟨hstop, _, rfl⟩

end Scans

/-- What the last run of a lexer found. -/
def Lexer.found (lexer : Lexer) : Lexed := ⟨lexer.tokens, lexer.faults, lexer.position⟩

/-- Whatever a lexer holds from earlier runs, each place that it reports has the line and the column
that belong to its offset, which they determine, and it stops at the end of the file. -/
theorem Lexer.run_places (lexer : Lexer) :
    (∀ l ∈ lexer.run.found.places, ∃ before, before <+: lexer.source.toList ∧
      l = (Position.behind before).inFile lexer.file) ∧
    (∀ l ∈ lexer.run.found.places, ∀ l' ∈ lexer.run.found.places,
      l.line = l'.line → l.column = l'.column → l.offset = l'.offset) ∧
    ∃ ts last, lexer.run.tokens = ts ++ [last] ∧ last.kind = .endOfFile ∧
      last.location = lexer.run.position.inFile lexer.file := by
  have hplaces (l : Location) (hl : l ∈ lexer.run.found.places) :
      ∃ before, before <+: lexer.source.toList ∧
        l = (Position.behind before).inFile lexer.file := by
    have hl : l ∈ (scan lexer.file .start lexer.source.toList).places := hl
    obtain ⟨before, hbefore, rfl⟩ := mem_places_scan hl
    exact ⟨before, hbefore, by rw [Position.start_after]⟩
  refine ⟨hplaces, fun l hl l' hl' hline hcolumn => ?_, ?_⟩
  · obtain ⟨before, hbefore, rfl⟩ := hplaces l hl
    obtain ⟨before', hbefore', rfl⟩ := hplaces l' hl'
    have heq := Position.behind_inj hbefore hbefore' (Int.ofNat_inj.1 hline)
      (Int.ofNat_inj.1 hcolumn)
    rw [heq]
  · obtain ⟨hstop, ts, hts⟩ := scan_stop lexer.file .start lexer.source.toList
    exact ⟨ts, _, hts, rfl, congrArg (Position.inFile · lexer.file) hstop.symm⟩

/-- A string with a newline in it, and the beginning of one that is not closed. -/
theorem Lexer.places_openString :
    let lexer : Lexer := { source := "\"\n\"\"", position := ⟨7, 7, 7⟩ }
    ⟨"<unknown>", 2, 2, 3⟩ ∈ lexer.run.found.places ∧
      ∃ before, before <+: lexer.source.toList ∧
        ⟨"<unknown>", 2, 2, 3⟩ = (Position.behind before).inFile lexer.file := by
  intro lexer
  have hmem : ⟨"<unknown>", 2, 2, 3⟩ ∈ lexer.run.found.places := by decide +kernel
  exact ⟨hmem, (run_places lexer).1 _ hmem⟩

end ScrapeScript
