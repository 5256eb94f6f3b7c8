import ScrapeScript.Proofs.Lexer.LineEnds
import ScrapeScript.Proofs.Lexer.Places
import ScrapeScript.Proofs.Parser.Correctness
import ScrapeScript.Proofs.Parser.Markers
import ScrapeScript.Proofs.Tree.Shapes

namespace ScrapeScript

/-- Among tokens that take up all places, one that goes on to the end is the last. -/
theorem Tiles.eq_concat {lo hi : Nat} {ts : List Token} {t : Token} (h : Tiles lo ts hi)
    (hne : ∀ u ∈ ts, u.lexeme ≠ "") (ht : t ∈ ts)
    (hend : (hi : Int) ≤ t.location.offset + t.lexeme.length) : ∃ before, ts = before ++ [t] := by
  induction h with
  | nil lo => cases ht
  | @cons lo hi u us hoffset hus ih =>
    have hothers := (List.forall_mem_cons.1 hne).2
    obtain rfl | ht := List.mem_cons.1 ht
    · have hlength := hus.eq_add_length
      have hnil : us = [] := by
        cases us with
        | nil => rfl
        | cons v vs =>
          have hempty : v.lexeme.toList ≠ [] := fun h =>
            hothers v List.mem_cons_self (String.toList_eq_nil_iff.1 h)
          have hpos := List.length_pos_iff.2 hempty
          rw [textOf_cons, List.length_append] at hlength
          omega
      exact ⟨[], by rw [hnil]; rfl⟩
    · obtain ⟨before, rfl⟩ := ih hothers ht hend
      exact ⟨u :: before, rfl⟩

/-- A token that goes on to the end of a text is what is left of it where the token begins. -/
theorem Tiles.eq_append {hi : Nat} {ts : List Token} {t : Token} {cs before : List Char}
    (h : Tiles 0 ts hi) (htext : textOf ts <+: cs) (ht : t ∈ ts) (hbefore : before <+: cs)
    (hoffset : t.location.offset = before.length)
    (hend : (cs.length : Int) ≤ t.location.offset + t.lexeme.length) :
    cs = before ++ t.lexeme.toList := by
  obtain ⟨rest, rfl⟩ := hbefore
  obtain ⟨o, ho, hslice⟩ := h.slice htext t ht
  have hlength : before.length = o := by omega
  have hall : rest.length ≤ t.lexeme.length := by
    rw [List.length_append] at hend
    omega
  rw [← hlength, List.drop_left, List.take_of_length_le hall] at hslice
  rw [hslice]

/-- A token with another one in place of the end of the file. -/
def Token.moved (final final' t : Token) : Token := if t = final then final' else t

/-- A fault at the end of one stream, as it is met at the end of another. -/
def SyntaxFault.moved (final final' : Token) (f : SyntaxFault) : SyntaxFault :=
  ⟨f.cause, Token.moved final final' f.token⟩

theorem Token.map_moved {final final' : Token} {ts : List Token} (h : ∀ t ∈ ts, t ≠ final) :
    ts.map (moved final final') = ts :=
  (List.map_congr_left fun t ht => if_neg (h t ht)).trans (List.map_id ts)

/-- Only the end of the file is another one. -/
def Recast.moved (limit : Int) {final final' : Token} (hkind : final'.kind = final.kind)
    (hvalue : final'.value = final.value) : Recast ⟨limit, final⟩ ⟨limit, final'⟩ where
  token := Token.moved final final'
  value := id
  kind_eq t := by
    by_cases ht : t = final
    · rw [Token.moved, if_pos ht, hkind, ht]
    · rw [Token.moved, if_neg ht]
  value_eq t := by
    by_cases ht : t = final
    · rw [Token.moved, if_pos ht, hvalue, ht, id]
    · rw [Token.moved, if_neg ht, id]
  final_eq := (if_pos rfl).symm
  limit_le := Int.le_refl limit

namespace TokenStream

variable {stream stream' : TokenStream}

/-- Statements keep no end of file, if there is none but the last. -/
theorem ne_final_of_kept {limit : Int} (h : ∀ t ∈ stream.ahead, t.kind ≠ .endOfFile) {t : Token}
    (ht : t ∈ Stmt.tokensOfAll (stream.parse limit).statements) : t ≠ stream.final := by
  rintro rfl
  exact h _ ((stream.parse_picked limit).tokens_sublist.subset ht) stream.final_kind

/-- With another end of file the same statements are found, and the same faults but that some are
at the other end. -/
theorem parse_moved (limit : Int) (hahead : stream'.ahead = stream.ahead)
    (hvalue : stream'.final.value = stream.final.value)
    (hends : ∀ t ∈ stream.ahead, t.kind ≠ .endOfFile) :
    (stream'.parse limit).statements = (stream.parse limit).statements ∧
      (stream'.parse limit).faults =
        (stream.parse limit).faults.map (.moved stream.final stream'.final) := by
  have hkind := stream'.final_kind.trans stream.final_kind.symm
  have hmap : stream'.ahead = stream.ahead.map (Token.moved stream.final stream'.final) := by
    rw [hahead]
    refine (Token.map_moved fun t ht => ?_).symm
    rintro rfl
    exact hends _ ht stream.final_kind
  rw [parse_recast (.moved limit hkind hvalue) hmap (.inl rfl)]
  refine ⟨Stmt.eq_of_leaves ?_ ?_ ?_, rfl⟩
  · rw [List.map_map]
    exact List.map_congr_left fun s _ => Stmt.shape_mapLeaves _ _ s
  · exact (Stmt.tokensOfAll_map _ _ _).trans
      (Token.map_moved fun t ht => ne_final_of_kept hends ht)
  · exact (Stmt.valuesOfAll_map _ _ _).trans (List.map_id _)

theorem eq_iff : stream = stream' ↔
    stream.ahead = stream'.ahead ∧ stream.final = stream'.final := by
  cases stream
  cases stream'
  simp

/-- Without an end of file one is put behind the last token. -/
theorem ofTokens_cut (file : String) {ts : List Token} {word : Token}
    (hkept : word.isTrivia = false) (hword : word.kind ≠ .endOfFile) :
    ofTokens file (ts ++ [word]) = ⟨dropTrivia (ts ++ [word]), endAfter word, rfl⟩ := by
  have hlast : dropTrivia (ts ++ [word]) = dropTrivia ts ++ [word] := by simp [dropTrivia, hkept]
  simp [ofTokens, hlast, hword]

/-- The end that is put behind a token is where the token ends, if it is on one line. -/
theorem endAfter_eq_iff {word : Token} {p : Position} {file : String}
    (h : word.location = p.inFile file) :
    endAfter word = .endOfFile ((p.after word.lexeme.toList).inFile file) ↔
      '\n' ∉ word.lexeme.toList := by
  refine ⟨fun heq hnewline => ?_, fun hnewline => ?_⟩
  · have hline : word.location.line = ((p.after word.lexeme.toList).line : Int) :=
      congrArg (·.location.line) heq
    rw [h, p.after_line] at hline
    have hline : (p.line : Int) = ((p.line + word.lexeme.toList.count '\n' : Nat) : Int) := hline
    have hpos := List.count_pos_iff.2 hnewline
    omega
  · have hline := p.after_line word.lexeme.toList
    rw [List.count_eq_zero.2 hnewline, Nat.add_zero] at hline
    rw [endAfter, h, Position.inFile, Position.inFile, hline, Position.after_column hnewline,
      p.after_offset, String.length_toList]
    simp

end TokenStream

/-- Strings aside, a token that matters to the parser is on one line. -/
theorem Token.StandsAlone.newline_notMem {t : Token} (h : t.StandsAlone)
    (hstring : t.kind ≠ .string) : '\n' ∉ t.lexeme.toList := by
  obtain ⟨⟨c, cs, hlexeme, hc, hmunch⟩, -, hkept⟩ := h
  have hlexeme : (munch c cs).lexeme = t.lexeme.toList := by rw [hmunch, hlexeme]
  obtain ⟨-, hfind⟩ | ⟨-, hfind⟩ := t.find_cases
  · rw [← hlexeme, (munch_of_unknown (by rw [hmunch, hfind])).1, List.mem_singleton]
    rintro rfl
    cases hc
  · have hspells : Spells t.kind (munch c cs).lexeme (munch c cs).rest :=
      munch_spells (by rw [hmunch, hfind]; rfl)
    rw [← hlexeme]
    exact hspells.newline_not_mem hstring hkept

namespace Lexer

/-- The last character of the text belongs to a token that matters to the parser. -/
def EndsInWord (lexer : Lexer) : Prop :=
  ∃ t ∈ lexer.run.tokens, t.isTrivia = false ∧ t.location.offset < lexer.source.length ∧
    (lexer.source.length : Int) ≤ t.location.offset + t.lexeme.length

theorem exists_lastWord {lexer : Lexer} (h : lexer.EndsInWord) :
    ∃ (ts : List Token) (word : Token) (p : Position),
      lexer.run.tokens =
        ts ++ [word, .endOfFile ((p.after word.lexeme.toList).inFile lexer.file)] ∧
      (∀ t ∈ ts ++ [word], t.kind ≠ .endOfFile) ∧ word.isTrivia = false ∧ word.StandsAlone ∧
      word.location = p.inFile lexer.file := by
  obtain ⟨word, hmem, hkept, hlt, hle⟩ := h
  obtain ⟨us, hi, hpartition⟩ := scan_partition lexer.file .start lexer.source.toList
  obtain ⟨-, us', hrun⟩ := scan_stop lexer.file .start lexer.source.toList
  obtain ⟨last, htokens, -, -, hoffset⟩ := hpartition.tokens
  have hstart : Position.start.offset = 0 := rfl
  rw [hstart, Nat.zero_add, String.length_toList] at hoffset
  have htokens : lexer.run.tokens = us ++ [last] := htokens
  obtain ⟨rfl, hlast⟩ := List.append_inj' (htokens.symm.trans hrun) rfl
  obtain rfl := List.singleton_inj.1 hlast
  -- The end of the file takes up no place, so it is not what the text ends with.
  have hword : word ∈ us := by
    rw [htokens] at hmem
    obtain h | h := List.mem_append.1 hmem
    · exact h
    · rw [List.mem_singleton.1 h, hoffset] at hlt
      exact absurd hlt (Int.lt_irrefl _)
  have hhi : hi ≤ lexer.source.length := by
    rw [hpartition.tiles.eq_add_length, ← String.length_toList]
    exact Nat.le_trans (Nat.zero_add _).le hpartition.text.length_le
  obtain ⟨ts, rfl⟩ := hpartition.tiles.eq_concat (fun t ht => (hpartition.kinds t ht).2) hword
    (by omega)
  have hplace : word.location ∈ (scan lexer.file .start lexer.source.toList).places :=
    List.mem_append_left _ (List.mem_map_of_mem hmem)
  obtain ⟨before, hbefore, hlocation⟩ := mem_places_scan hplace
  have hsource : lexer.source.toList = before ++ word.lexeme.toList := by
    refine hpartition.tiles.eq_append hpartition.text hword hbefore ?_ ?_
    · have hafter := Position.start.after_offset before
      have hoffset : word.location.offset = ((Position.start.after before).offset : Int) :=
        congrArg Location.offset hlocation
      omega
    · rwa [String.length_toList]
  refine ⟨ts, word, Position.start.after before, ?_, fun t ht => (hpartition.kinds t ht).1, hkept,
    standsAlone_of_scan hmem (hpartition.kinds word hword).1 hkept, hlocation⟩
  rw [← Position.after_append, ← hsource, htokens, List.append_assoc]
  rfl

end Lexer

/-- The streams of a text that ends in a word have the same tokens ahead, whether the end of file is
left out or not. -/
theorem Lexer.exists_streams {lexer : Lexer} (file : String) (h : lexer.EndsInWord) :
    let full := TokenStream.ofTokens file lexer.run.tokens
    let cut := TokenStream.ofTokens file lexer.run.tokens.dropLast
    ∃ (ts : List Token) (word : Token) (p : Position),
      lexer.run.tokens = ts ++ [word, full.final] ∧ word.isTrivia = false ∧ word.StandsAlone ∧
      word.location = p.inFile lexer.file ∧ cut.ahead = full.ahead ∧
      (∀ t ∈ cut.ahead, t.kind ≠ .endOfFile) ∧
      full.final = .endOfFile ((p.after word.lexeme.toList).inFile lexer.file) ∧
      cut.final = TokenStream.endAfter word := by
  intro full cut
  obtain ⟨ts, word, p, htokens, hwords, hkept, halone, hlocation⟩ := lexer.exists_lastWord h
  let last : Token := .endOfFile ((p.after word.lexeme.toList).inFile lexer.file)
  have hall : lexer.run.tokens = (ts ++ [word]) ++ [last] := by
    rw [htokens, List.append_assoc]
    rfl
  have hfull : full = ⟨dropTrivia (ts ++ [word]), last, rfl⟩ :=
    TokenStream.ofTokens_eq file (by rw [hall, dropTrivia_concat rfl]) rfl
  have hcut : cut = ⟨dropTrivia (ts ++ [word]), TokenStream.endAfter word, rfl⟩ := by
    have hdrop : lexer.run.tokens.dropLast = ts ++ [word] := by rw [hall, List.dropLast_concat]
    show TokenStream.ofTokens file lexer.run.tokens.dropLast = _
    rw [hdrop, TokenStream.ofTokens_cut file hkept (hwords word (by simp))]
  rw [hfull, hcut]
  exact ⟨ts, word, p, htokens, hkept, halone, hlocation, rfl,
    fun t ht => hwords t (List.mem_filter.1 ht).1, rfl, rfl⟩

/-- A parser of tokens that end in this one beside a parser that has their end of file too. -/
structure Parser.EndRebuilt (word : Token) (cut full : Parser) : Prop where
  ahead : cut.stream.ahead = full.stream.ahead
  file : cut.stream.final.location.file = full.stream.final.location.file
  offset : cut.stream.final.location.offset = full.stream.final.location.offset
  line : full.stream.final.location.line =
    cut.stream.final.location.line + word.lexeme.toList.count '\n'
  eq_iff : cut = full ↔ '\n' ∉ word.lexeme.toList
  statements : cut.run.1 = full.run.1
  faults : full.run.2.faults = cut.run.2.faults.map (.moved cut.stream.final full.stream.final)

namespace Parser

theorem ofTokens_inj {ts us : List Token} {options : ParseOptions} :
    ofTokens ts options = ofTokens us options ↔
      TokenStream.ofTokens options.file ts = TokenStream.ofTokens options.file us :=
  ⟨congrArg stream, fun h => by rw [ofTokens, ofTokens, h]⟩

theorem EndRebuilt.of_streams {word : Token} {p : Position} {file : String}
    {ts us : List Token} {options : ParseOptions}
    (hlocation : word.location = p.inFile file)
    (hahead : (ofTokens us options).stream.ahead = (ofTokens ts options).stream.ahead)
    (hends : ∀ t ∈ (ofTokens us options).stream.ahead, t.kind ≠ .endOfFile)
    (hfull : (ofTokens ts options).stream.final =
      .endOfFile ((p.after word.lexeme.toList).inFile file))
    (hcut : (ofTokens us options).stream.final = TokenStream.endAfter word) :
    EndRebuilt word (ofTokens us options) (ofTokens ts options) := by
  have hvalue : (ofTokens ts options).stream.final.value =
      (ofTokens us options).stream.final.value := by
    rw [hfull, hcut]
    rfl
  obtain ⟨hstatements, hfaults⟩ := TokenStream.parse_moved options.limit hahead.symm hvalue hends
  constructor
  case ahead => exact hahead
  case file =>
    rw [hfull, hcut]
    show word.location.file = file
    rw [hlocation]
    rfl
  case offset =>
    rw [hfull, hcut]
    show word.location.offset + (word.lexeme.length : Int) =
      ((p.after word.lexeme.toList).offset : Int)
    rw [hlocation, p.after_offset, String.length_toList]
    rfl
  case line =>
    rw [hfull, hcut]
    show ((p.after word.lexeme.toList).line : Int) =
      word.location.line + word.lexeme.toList.count '\n'
    rw [hlocation, p.after_line]
    rfl
  case eq_iff =>
    rw [ofTokens_inj, TokenStream.eq_iff, ← TokenStream.endAfter_eq_iff hlocation, ← hfull, ← hcut]
    exact and_iff_right hahead
  case statements => exact hstatements.symm
  case faults => exact hfaults

/-- Where the last word of a text has no newline, an end of file that is left out is put back where
it was. Where it has, which only strings do, the new one is on the line on which the string begins.
The statements are the same in either case, and so are the faults but for that place. -/
theorem endRebuilt (lexer : Lexer) (options : ParseOptions) (h : lexer.EndsInWord) :
    let full := ofTokens lexer.run.tokens options
    let cut := ofTokens lexer.run.tokens.dropLast options
    ∃ ts word, lexer.run.tokens = ts ++ [word, full.stream.final] ∧ word.isTrivia = false ∧
      (word.kind ≠ .string → '\n' ∉ word.lexeme.toList) ∧ EndRebuilt word cut full := by
  intro full cut
  obtain ⟨ts, word, p, htokens, hkept, halone, hlocation, hahead, hends, hfull, hcut⟩ :=
    Lexer.exists_streams options.file h
  exact ⟨ts, word, htokens, hkept, halone.newline_notMem,
    .of_streams hlocation hahead hends hfull hcut⟩

/-- A call that is not closed, behind a string of two lines. -/
theorem endRebuilt_openCall :
    let lexer : Lexer := { source := "f(\"\n\"" }
    let full := ofTokens lexer.run.tokens {}
    let cut := ofTokens lexer.run.tokens.dropLast {}
    lexer.EndsInWord ∧ full.run.2.faults.length = 1 ∧
      ∃ ts word, lexer.run.tokens = ts ++ [word, full.stream.final] ∧ word.isTrivia = false ∧
        (word.kind ≠ .string → '\n' ∉ word.lexeme.toList) ∧ EndRebuilt word cut full := by
  intro lexer full cut
  have hends : lexer.EndsInWord := by
    unfold Lexer.EndsInWord
    decide +kernel
  exact ⟨hends, by decide +kernel, endRebuilt lexer {} hends⟩

/-- The end of the file is put on the line on which the string begins, behind the characters that
it has in all. -/
theorem cut_ne_full_of_string :
    let lexer : Lexer := { source := "\"a\nb\"" }
    let full := ofTokens lexer.run.tokens {}
    let cut := ofTokens lexer.run.tokens.dropLast {}
    lexer.EndsInWord ∧ cut.stream.toList ≠ full.stream.toList ∧
      full.stream.final.location = ⟨"<unknown>", 2, 3, 5⟩ ∧
      cut.stream.final.location = ⟨"<unknown>", 1, 6, 5⟩ ∧
      cut.run.2.faults ≠ full.run.2.faults := by
  intro lexer full cut
  refine ⟨?_, ?_, ?_, ?_, ?_⟩
  · unfold Lexer.EndsInWord
    decide +kernel
  all_goals decide +kernel

end Parser

end ScrapeScript
