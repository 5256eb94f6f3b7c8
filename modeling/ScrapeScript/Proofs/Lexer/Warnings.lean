import ScrapeScript.Proofs.Lexer.Reformatting

namespace ScrapeScript

/-- A text that begins a block comment and does not end it. -/
def OpensComment (cs : List Char) : Prop := ∃ body, cs = '/' :: '*' :: body ∧ CommentBody body

/-- A comment that nothing closes. -/
def Token.IsOpenComment (t : Token) : Prop := t.kind = .comment ∧ OpensComment t.lexeme.toList

theorem not_opensComment_closed (body : List Char) :
    ¬OpensComment ('/' :: '*' :: (body ++ ['*', '/'])) := by
  rintro ⟨_, heq, hbody⟩
  cases heq
  exact hbody ⟨body, [], List.append_nil _⟩

section Comments

variable {c : Char} {cs : List Char}

/-- A comment that is begun is closed where it first can be, or it takes up the rest. -/
theorem munch_comment (cs : List Char) :
    (∃ body rest, munch '/' ('*' :: cs) =
        ⟨.token .comment, '/' :: '*' :: (body ++ ['*', '/']), rest⟩) ∨
      (munch '/' ('*' :: cs) = ⟨.openComment, '/' :: '*' :: cs, []⟩ ∧ CommentBody cs) := by
  obtain ⟨body, rest, hclose, -⟩ | ⟨hclose, hbody⟩ := closeComment?_spec cs
  · refine .inl ⟨body, rest, ?_⟩
    rw [munch, munchAfter_slash, munchSlash, hclose]
    rfl
  · refine .inr ⟨?_, hbody⟩
    rw [munch, munchAfter_slash, munchSlash, hclose]
    rfl

theorem munchSymbol_ne_openComment : (munchSymbol c cs).find ≠ .openComment := by
  unfold munchSymbol
  split
  · nofun
  · split
    · nofun
    · rename_i pair _ _ _
      cases pair.alone <;> nofun
  · nofun

theorem begins_of_openComment (h : (munch c cs).find = .openComment) :
    ∃ ds, c = '/' ∧ cs = '*' :: ds := by
  have h : (munchAfter c cs).find = .openComment := h
  unfold munchAfter at h
  split at h
  · cases h
  split at h
  · obtain ⟨-, hfind, -⟩ := munchNumber_token cs
    rw [hfind] at h
    cases h
  split at h
  · cases h
  split at h
  · cases h
  split at h
  · rename_i hslash
    unfold munchSlash at h
    split at h
    · cases h
    · exact ⟨_, hslash, rfl⟩
    · cases h
  split at h
  · unfold munchString at h
    split at h <;> cases h
  · exact absurd h munchSymbol_ne_openComment

/-- What is found to be an open comment is one, and nothing else is. -/
theorem find_eq_openComment_iff :
    (munch c cs).find = .openComment ↔ OpensComment (munch c cs).lexeme := by
  constructor
  · intro h
    obtain ⟨ds, rfl, rfl⟩ := begins_of_openComment h
    obtain ⟨body, rest, hmunch⟩ | ⟨hmunch, hbody⟩ := munch_comment ds
    · rw [hmunch] at h
      cases h
    · rw [hmunch]
      exact ⟨ds, rfl, hbody⟩
  · rintro hopen
    obtain ⟨ds, hds⟩ : ∃ ds, '/' :: '*' :: ds = c :: cs := by
      obtain ⟨body, hlexeme, -⟩ := hopen
      refine ⟨body ++ (munch c cs).rest, ?_⟩
      rw [← munch_append c cs, hlexeme]
      rfl
    obtain ⟨rfl, rfl⟩ := List.cons_eq_cons.1 hds
    obtain ⟨body, rest, hmunch⟩ | ⟨hmunch, -⟩ := munch_comment ds
    · rw [hmunch] at hopen
      exact absurd hopen (not_opensComment_closed body)
    · rw [hmunch]

end Comments

/-- What is missing at the end of a text, if anything, of which the tokens `ts` take up the front: a
string is, where a quotation mark is left over, and where none is, a comment may be. -/
inductive Missing (file : String) (p : Position) (cs : List Char) (ts : List Token) :
    Option LexicalFault → Prop
  | nothing : textOf ts = cs → (∀ t ∈ ts.getLast?, ¬t.IsOpenComment) → Missing file p cs ts none
  | comment {t : Token} : textOf ts = cs → ts.getLast? = some t → t.IsOpenComment →
    Missing file p cs ts (some ⟨.openComment, t.location⟩)
  | string {rest : List Char} : textOf ts ++ '"' :: rest = cs →
    (∀ t ∈ ts.getLast?, ¬t.IsOpenComment) →
    Missing file p cs ts (some ⟨.openString, (p.after (textOf ts)).inFile file⟩)

namespace Missing

variable {file : String} {p : Position} {l rest : List Char} {t : Token} {ts : List Token}
  {missing : Option LexicalFault}

/-- A token that is no open comment leaves what is missing behind it as it is. -/
theorem behind (htext : t.lexeme.toList = l) (ht : ¬t.IsOpenComment)
    (h : Missing file (p.after l) rest ts missing) :
    Missing file p (l ++ rest) (t :: ts) missing := by
  have hlast (hts : ∀ u ∈ ts.getLast?, ¬u.IsOpenComment) :
      ∀ u ∈ (t :: ts).getLast?, ¬u.IsOpenComment := by
    intro u hu
    rw [List.getLast?_cons, Option.mem_some_iff] at hu
    subst hu
    cases hu : ts.getLast? with
    | none => exact ht
    | some u => exact hts u hu
  cases h with
  | nothing hrest hts => exact .nothing (by rw [textOf_cons, htext, hrest]) (hlast hts)
  | comment hrest hlast hopen =>
    exact .comment (by rw [textOf_cons, htext, hrest]) (by rw [List.getLast?_cons, hlast]; rfl)
      hopen
  | string hrest hts =>
    have hplace : p.after (textOf (t :: ts)) = (p.after l).after (textOf ts) := by
      rw [textOf_cons, htext, p.after_append]
    rw [← hplace]
    exact .string (by rw [textOf_cons, htext, List.append_assoc, hrest]) (hlast hts)

end Missing

/-- The warnings of the unknown ones among some tokens. -/
def unknownFaults (ts : List Token) : List LexicalFault :=
  (ts.filter (·.kind == .unknown)).map Token.unknownFault

section Scans

variable {file : String} {p : Position} {c : Char} {cs : List Char} {l : Location}

theorem isOpenComment_iff {t : Token} (ht : t ∈ (munch c cs).tokens l) :
    t.IsOpenComment ↔ (munch c cs).find = .openComment := by
  obtain ⟨kind, hkind, rfl⟩ := Option.map_eq_some_iff.1 (Option.mem_toList.1 ht)
  have hlexeme : (Token.ofLexeme kind (munch c cs).lexeme l).lexeme.toList =
      (munch c cs).lexeme := String.toList_ofList
  rw [Token.IsOpenComment, hlexeme, ← find_eq_openComment_iff]
  refine and_iff_right_of_imp fun h => ?_
  rw [h] at hkind
  exact (Option.some.inj hkind).symm

/-- What is closed is a token, and is warned of if it is unknown. -/
theorem exists_token_of_isClosed (h : (munch c cs).find.isClosed = true) (l : Location) :
    ∃ t, (munch c cs).tokens l = [t] ∧ (munch c cs).faults l = unknownFaults [t] ∧
      t.lexeme.toList = (munch c cs).lexeme := by
  unfold Piece.tokens Piece.faults
  cases hfind : (munch c cs).find with
  | token k =>
    have hspells : Spells k (munch c cs).lexeme (munch c cs).rest :=
      munch_spells (by rw [hfind]; rfl)
    refine ⟨_, rfl, ?_, String.toList_ofList⟩
    simp [Find.cause?, unknownFaults, Token.ofLexeme, hspells.kind_ne_unknown]
  | unknown => exact ⟨_, rfl, rfl, String.toList_ofList⟩
  | openComment | openString =>
    rw [hfind] at h
    cases h

theorem munch_openComment (h : (munch c cs).find = .openComment) :
    munch c cs = ⟨.openComment, c :: cs, []⟩ := by
  obtain ⟨ds, rfl, rfl⟩ := begins_of_openComment h
  obtain ⟨body, rest, hmunch⟩ | ⟨hmunch, -⟩ := munch_comment ds
  · rw [hmunch] at h
    cases h
  · exact hmunch

theorem quote_of_openString (h : (munch c cs).find = .openString) : c = '"' := by
  have hfits := munchAfter_fits c cs
  have h : (munchAfter c cs).find = .openString := h
  unfold Piece.Fits at hfits
  rw [h] at hfits
  exact hfits.1

/-- A comment or a string that nothing closes is all that is left. -/
theorem scan_open (h : (munch c cs).find.isClosed = false) (file : String) (p : Position) :
    ∃ ts last missing, (scan file p (c :: cs)).tokens = ts ++ [last] ∧
      (scan file p (c :: cs)).faults = unknownFaults ts ++ missing.toList ∧
      Missing file p (c :: cs) ts missing := by
  rw [scan_cons]
  cases hfind : (munch c cs).find with
  | token | unknown =>
    rw [hfind] at h
    cases h
  | openComment =>
    let t := Token.ofLexeme .comment (c :: cs) (p.inFile file)
    have htext : t.lexeme.toList = c :: cs := String.toList_ofList
    have hopen : t.IsOpenComment := by
      refine ⟨rfl, ?_⟩
      have hopens := find_eq_openComment_iff.1 hfind
      rwa [htext, ← show (munch c cs).lexeme = c :: cs by rw [munch_openComment hfind]]
    rw [munch_openComment hfind, scan_nil]
    refine ⟨[t], _, some ⟨.openComment, t.location⟩, rfl, rfl, .comment ?_ rfl hopen⟩
    rw [textOf_cons, htext]
    exact List.append_nil _
  | openString =>
    obtain ⟨hlexeme, hrest⟩ := munch_openString hfind
    obtain rfl := quote_of_openString hfind
    rw [Piece.tokens, Piece.faults, hfind, hrest, scan_nil]
    exact ⟨[], _, _, rfl, rfl, .string rfl fun _ ht => absurd ht (Option.not_mem_none _)⟩

/-- What is warned of is each unknown token, and then what is missing at the end. -/
theorem scan_warnings (file : String) (p : Position) (cs : List Char) :
    ∃ ts last missing, (scan file p cs).tokens = ts ++ [last] ∧
      (scan file p cs).faults = unknownFaults ts ++ missing.toList ∧
      Missing file p cs ts missing := by
  induction cs using munch_induction generalizing p with
  | nil =>
    rw [scan_nil]
    exact ⟨[], _, none, rfl, rfl, .nothing rfl fun _ ht => absurd ht (Option.not_mem_none _)⟩
  | cons c cs ih =>
    by_cases hclosed : (munch c cs).find.isClosed = true
    · rw [scan_cons]
      dsimp only
      obtain ⟨ts, last, missing, htokens, hfaults, hmissing⟩ := ih (p.after (munch c cs).lexeme)
      obtain ⟨t, ht, hwarned, hlexeme⟩ := exists_token_of_isClosed hclosed (p.inFile file)
      have hopen : ¬t.IsOpenComment := by
        rw [isOpenComment_iff (l := p.inFile file) (ht ▸ List.mem_singleton_self t)]
        intro hfind
        rw [hfind] at hclosed
        cases hclosed
      have hbehind := hmissing.behind hlexeme hopen
      rw [munch_append] at hbehind
      refine ⟨t :: ts, last, missing, by rw [ht, htokens]; rfl, ?_, hbehind⟩
      rw [hwarned, hfaults, ← List.append_assoc, unknownFaults, unknownFaults, ← List.map_append,
        ← List.filter_append]
      rfl
    · exact scan_open (by simpa using hclosed) file p

theorem offset_lt_of_mem_faults {f : LexicalFault} {l : List Char} (hl : l ≠ [])
    (hf : f ∈ (scan file (p.after l) cs).faults) : (p.offset : Int) < f.location.offset := by
  have hmem : f.location ∈ (scan file (p.after l) cs).places :=
    List.mem_append_right _ (List.mem_map_of_mem hf)
  obtain ⟨before, -, hlocation⟩ := mem_places_scan hmem
  rw [hlocation]
  have hoffset := (p.after l).after_offset before
  rw [p.after_offset] at hoffset
  have hpos := List.length_pos_iff.2 hl
  simp only [Position.inFile, hoffset]
  omega

theorem scan_faults_increasing (file : String) (p : Position) (cs : List Char) :
    (scan file p cs).faults.Pairwise fun f g => f.location.offset < g.location.offset := by
  induction cs using munch_induction generalizing p with
  | nil =>
    rw [scan_nil]
    exact .nil
  | cons c cs ih =>
    rw [scan_cons]
    refine List.pairwise_append.2 ⟨?_, ih _, fun f hf g hg => ?_⟩
    · unfold Piece.faults
      cases (munch c cs).find.cause? (munch c cs).lexeme with
      | none => exact .nil
      | some => exact List.pairwise_singleton _ _
    · have hlocation : f.location = p.inFile file := Piece.location_faults hf
      rw [hlocation]
      exact offset_lt_of_mem_faults (munch_lexeme_ne_nil c cs) hg

theorem length_lexeme_of_unknown {t : Token} (h : t ∈ (scan file p cs).tokens)
    (hk : t.kind = .unknown) : t.lexeme.length = 1 := by
  induction cs using munch_induction generalizing p with
  | nil =>
    rw [scan_nil] at h
    obtain rfl := List.mem_singleton.1 h
    cases hk
  | cons c cs ih =>
    rw [scan_cons] at h
    obtain h | h := List.mem_append.1 h
    · obtain ⟨kind, hkind, rfl⟩ := Option.map_eq_some_iff.1 (Option.mem_toList.1 h)
      obtain rfl : kind = .unknown := hk
      have hfind : (munch c cs).find = .unknown := by
        cases hfind : (munch c cs).find with
        | token k =>
          have hspells : Spells k (munch c cs).lexeme (munch c cs).rest :=
            munch_spells (by rw [hfind]; rfl)
          rw [hfind] at hkind
          exact absurd (Option.some.inj hkind) hspells.kind_ne_unknown
        | unknown => rfl
        | openComment | openString =>
          rw [hfind] at hkind
          cases hkind
      rw [Token.ofLexeme, (munch_of_unknown hfind).1, String.length_ofList]
      rfl
    · exact ih h

end Scans

/-- The warning of an unknown token: it is reported where the token is, and its character is
quoted. -/
structure LexicalFault.Names (f : LexicalFault) (t : Token) : Prop where
  code : f.warning.diagnostic.code = some "L001"
  location : f.warning.diagnostic.location = t.location
  message : f.warning.diagnostic.message = "Unknown character: '" ++ t.lexeme ++ "'"
  length : t.lexeme.length = 1

theorem unknownFault_names {t : Token} (h : t.lexeme.length = 1) : t.unknownFault.Names t :=
  ⟨rfl, rfl, rfl, h⟩

theorem forall₂_names {ts : List Token}
    (h : ∀ t ∈ ts, t.kind = .unknown → t.lexeme.length = 1) :
    List.Forall₂ LexicalFault.Names (unknownFaults ts) (ts.filter (·.kind == .unknown)) := by
  refine List.forall₂_map_left_iff.2 (List.forall₂_same.2 fun t ht => ?_)
  obtain ⟨hmem, hk⟩ := List.mem_filter.1 ht
  exact unknownFault_names (h t hmem (beq_iff_eq.1 hk))

namespace Missing

variable {file : String} {p : Position} {cs : List Char} {ts : List Token}
  {missing : Option LexicalFault}

theorem mem_comment_iff (h : Missing file p cs ts missing) (f : LexicalFault) :
    f ∈ missing ∧ f.warning.diagnostic.code = some "L003" ↔
      ∃ t, ts.getLast? = some t ∧ t.IsOpenComment ∧ f = ⟨.openComment, t.location⟩ := by
  cases h with
  | nothing _ hclosed =>
    refine ⟨nofun, ?_⟩
    rintro ⟨t, ht, hopen, -⟩
    exact absurd hopen (hclosed t ht)
  | @comment t _ ht hopen =>
    constructor
    · rintro ⟨hf, -⟩
      exact ⟨t, ht, hopen, (Option.some.inj hf).symm⟩
    · rintro ⟨u, hu, -, rfl⟩
      obtain rfl : t = u := Option.some.inj (ht.symm.trans hu)
      exact ⟨rfl, rfl⟩
  | string _ hclosed =>
    constructor
    · rintro ⟨hf, hcode⟩
      rw [← Option.some.inj hf] at hcode
      exact absurd (Option.some.inj hcode) (by decide : "L002" ≠ "L003")
    · rintro ⟨t, ht, hopen, -⟩
      exact absurd hopen (hclosed t ht)

theorem mem_string_iff (h : Missing file p cs ts missing) (f : LexicalFault) :
    f ∈ missing ∧ f.warning.diagnostic.code = some "L002" ↔
      (∃ rest, cs.drop (textOf ts).length = '"' :: rest) ∧
        f = ⟨.openString, (p.after (textOf ts)).inFile file⟩ := by
  cases h with
  | nothing htext =>
    refine ⟨nofun, ?_⟩
    rintro ⟨⟨rest, hrest⟩, -⟩
    rw [htext, List.drop_length] at hrest
    cases hrest
  | comment htext =>
    constructor
    · rintro ⟨hf, hcode⟩
      rw [← Option.some.inj hf] at hcode
      exact absurd (Option.some.inj hcode) (by decide : "L003" ≠ "L002")
    · rintro ⟨⟨rest, hrest⟩, -⟩
      rw [htext, List.drop_length] at hrest
      cases hrest
  | @string rest htext =>
    rw [← htext, List.drop_left]
    constructor
    · rintro ⟨hf, -⟩
      exact ⟨⟨rest, rfl⟩, (Option.some.inj hf).symm⟩
    · rintro ⟨-, rfl⟩
      exact ⟨rfl, rfl⟩

theorem code_eq (h : Missing file p cs ts missing) : ∀ f ∈ missing,
    f.warning.diagnostic.code = some "L002" ∨ f.warning.diagnostic.code = some "L003" := by
  rintro f ⟨⟩
  cases h with
  | comment => exact .inr rfl
  | string => exact .inl rfl

theorem code_ne (h : Missing file p cs ts missing) :
    ∀ f ∈ missing, f.warning.diagnostic.code ≠ some "L001" := by
  intro f hf
  obtain hcode | hcode := h.code_eq f hf <;> rw [hcode] <;> decide

/-- Behind the warnings of unknown tokens, what is missing is the only other one. -/
theorem filter_faults (h : Missing file p cs ts missing) :
    (unknownFaults ts ++ missing.toList).filter (·.warning.diagnostic.code == some "L001") =
      unknownFaults ts := by
  have hall : ∀ f ∈ unknownFaults ts, (f.warning.diagnostic.code == some "L001") = true := by
    intro f hf
    obtain ⟨t, -, rfl⟩ := List.mem_map.1 hf
    rfl
  have hnone : ∀ f ∈ missing.toList, ¬(f.warning.diagnostic.code == some "L001") = true :=
    fun f hf => by simpa using h.code_ne f (Option.mem_toList.1 hf)
  rw [List.filter_append, List.filter_eq_self.2 hall, List.filter_eq_nil_iff.2 hnone,
    List.append_nil]

end Missing

theorem mem_faults_iff {ts : List Token} {missing : Option LexicalFault} {code : String}
    (hcode : code ≠ "L001") (f : LexicalFault) :
    f ∈ unknownFaults ts ++ missing.toList ∧ f.warning.diagnostic.code = some code ↔
      f ∈ missing ∧ f.warning.diagnostic.code = some code := by
  refine and_congr_left fun hf => ?_
  rw [List.mem_append, Option.mem_toList]
  refine or_iff_right fun h => hcode ?_
  obtain ⟨t, -, rfl⟩ := List.mem_map.1 h
  exact (Option.some.inj hf).symm

/-- The warnings of a run are in the order of the text. There is one for each unknown token, and
at most one more, which comes last: for a comment that nothing closes, if that is the last token,
or for the quotation mark behind the last token that no string begins with. -/
theorem Lexer.warnings_of_run (lexer : Lexer) : ∃ (ts : List Token) (last : Token) (hi : Nat),
    (lexer.run.tokens = ts ++ [last] ∧ last.kind = .endOfFile ∧ Tiles 0 ts hi ∧
      textOf ts = lexer.source.toList.take hi) ∧
    (lexer.run.faults.Pairwise fun f g => f.location.offset < g.location.offset) ∧
    List.Forall₂ LexicalFault.Names
      (lexer.run.faults.filter (·.warning.diagnostic.code == some "L001"))
      (lexer.run.tokens.filter (·.kind == .unknown)) ∧
    (∃ missing : Option LexicalFault, lexer.run.faults =
      lexer.run.faults.filter (·.warning.diagnostic.code == some "L001") ++ missing.toList) ∧
    (∀ f, f ∈ lexer.run.faults ∧ f.warning.diagnostic.code = some "L003" ↔
      ∃ t, ts.getLast? = some t ∧ t.IsOpenComment ∧ f = ⟨.openComment, t.location⟩) ∧
    (∀ f, f ∈ lexer.run.faults ∧ f.warning.diagnostic.code = some "L002" ↔
      (∃ rest, lexer.source.toList.drop hi = '"' :: rest) ∧
        f = ⟨.openString, (Position.behind (lexer.source.toList.take hi)).inFile lexer.file⟩) ∧
    ¬((∃ f ∈ lexer.run.faults, f.warning.diagnostic.code = some "L002") ∧
      ∃ f ∈ lexer.run.faults, f.warning.diagnostic.code = some "L003") := by
  obtain ⟨ts, hi, hpartition⟩ := scan_partition lexer.file .start lexer.source.toList
  obtain ⟨last, htokens, hlast, -⟩ := hpartition.tokens
  obtain ⟨ts', last', missing, htokens', hfaults, hmissing⟩ :=
    scan_warnings lexer.file .start lexer.source.toList
  obtain ⟨rfl, -⟩ := List.append_inj' (htokens.symm.trans htokens') rfl
  have hstart : Position.start.offset = 0 := rfl
  have hhi : hi = (textOf ts).length := by
    rw [hpartition.tiles.eq_add_length, hstart, Nat.zero_add]
  have htext : lexer.source.toList.take hi = textOf ts :=
    hhi ▸ (List.prefix_iff_eq_take.1 hpartition.text).symm
  have hrun : lexer.run.faults = unknownFaults ts ++ missing.toList := hfaults
  have hkinds : lexer.run.tokens.filter (·.kind == .unknown) = ts.filter (·.kind == .unknown) := by
    rw [show lexer.run.tokens = ts ++ [last] from htokens, List.filter_append,
      List.filter_singleton, hlast]
    exact List.append_nil _
  have hplace : Position.behind (lexer.source.toList.take hi) =
      Position.start.after (textOf ts) := by rw [htext, Position.start_after]
  refine ⟨ts, last, hi, ⟨htokens, hlast, hpartition.tiles, htext.symm⟩,
    scan_faults_increasing lexer.file .start lexer.source.toList, ?_, ⟨missing, ?_⟩,
    fun f => ?_, fun f => ?_, ?_⟩
  · rw [hrun, hmissing.filter_faults, hkinds]
    exact forall₂_names fun t ht hk =>
      length_lexeme_of_unknown (htokens ▸ List.mem_append_left _ ht) hk
  · rw [hrun, hmissing.filter_faults]
  · rw [hrun, mem_faults_iff (by decide)]
    exact hmissing.mem_comment_iff f
  · rw [hrun, mem_faults_iff (by decide), hplace, hhi]
    exact hmissing.mem_string_iff f
  · rintro ⟨⟨f, hf⟩, f', hf'⟩
    rw [hrun, mem_faults_iff (by decide)] at hf hf'
    obtain rfl : f = f' := Option.some.inj (hf.1.symm.trans hf'.1)
    exact absurd (Option.some.inj (hf.2.symm.trans hf'.2)) (by decide)

end ScrapeScript
