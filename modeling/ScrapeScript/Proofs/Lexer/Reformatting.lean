import ScrapeScript.Proofs.Lexer.Newlines
import ScrapeScript.Proofs.Lexer.Partition

namespace ScrapeScript

namespace Token

/-- What is found where a token begins, if it is no comment. -/
def find (t : Token) : Find := if t.kind = .unknown then .unknown else .token t.kind

theorem find_cases (t : Token) :
    (t.kind = .unknown ∧ t.find = .unknown) ∨ (t.kind ≠ .unknown ∧ t.find = .token t.kind) := by
  unfold find
  split
  · exact .inl ⟨‹_›, rfl⟩
  · exact .inr ⟨‹_›, rfl⟩

theorem kind?_find (t : Token) : t.find.kind? = some t.kind := by
  obtain ⟨hk, h⟩ | ⟨-, h⟩ := t.find_cases <;> rw [h]
  · rw [hk]
    rfl
  · rfl

theorem isClosed_find (t : Token) : t.find.isClosed = true := by
  obtain ⟨-, h⟩ | ⟨-, h⟩ := t.find_cases <;> rw [h] <;> rfl

theorem find_ne_comment {t : Token} (h : t.isTrivia = false) : t.find ≠ .token .comment := by
  obtain ⟨-, hfind⟩ | ⟨-, hfind⟩ := t.find_cases <;> rw [hfind]
  · nofun
  · intro hk
    rw [isTrivia, Find.token.inj hk] at h
    cases h

/-- The warning that belongs to an unknown token. -/
def unknownFault (t : Token) : LexicalFault := ⟨.unknownCharacter t.lexeme, t.location⟩

end Token

/-- A token that its own text is read as, with nothing around it. -/
structure Token.StandsAlone (t : Token) : Prop where
  reads : ∃ c cs, t.lexeme.toList = c :: cs ∧ isBlank c = false ∧
    munch c cs = ⟨t.find, c :: cs, []⟩
  value : t.value = t.kind.valueOf t.lexeme.toList
  kept : t.isTrivia = false

theorem Piece.eq_mk {p : Piece} {find : Find} {lexeme rest : List Char} (hfind : p.find = find)
    (hlexeme : p.lexeme = lexeme) (hrest : p.rest = rest) : p = ⟨find, lexeme, rest⟩ := by
  subst hfind hlexeme hrest
  rfl

section Alone

variable {k : TokenKind} {c : Char} {cs l rest : List Char}

/-- Only a comment looks at what comes after it. -/
theorem Spells.before (h : Spells k l rest) (hk : k ≠ .comment) (rest' : List Char) :
    Spells k l rest' := by
  cases h with
  | whitespace _ hne hblank => exact .whitespace rest' hne hblank
  | lineComment | blockComment | openComment => exact absurd rfl hk
  | string _ hbody => exact .string rest' hbody
  | number _ hne hds => exact .number rest' hne hds
  | decimal _ hne hds hne' hes => exact .decimal rest' hne hds hne' hes
  | fraction _ hne hes => exact .fraction rest' hne hes
  | keyword _ hc hcs hword => exact .keyword rest' hc hcs hword
  | name _ hc hcs hword => exact .name rest' hc hcs hword
  | sign _ hsign => exact .sign rest' hsign

/-- A text that is a token as a whole has no longer one at its front. -/
theorem Spells.longest (h : Spells k l []) : Longest k l [] where
  spells := h
  length_le {j m r} _ htext := by
    have hlength := congrArg List.length htext
    rw [List.length_append, List.append_nil] at hlength
    omega

theorem Find.eq_token {f : Find} (h : f.spelled? = some k) (hk : k ≠ .comment) :
    f = .token k := by
  cases f with
  | token => exact congrArg token (Option.some.inj h)
  | openComment => exact absurd (Option.some.inj h).symm hk
  | openString | unknown => cases h

theorem Spells.kind_ne_unknown (h : Spells k l rest) : k ≠ .unknown := by
  obtain hlisted | rfl | rfl | rfl | rfl | rfl := h.isListed_or
  · exact TokenKind.ne_of_class hlisted rfl
  all_goals nofun

theorem Spells.not_comment (h : Spells k [c] rest) : k ≠ .comment := by
  generalize hl : [c] = l at h
  cases h with
  | lineComment | blockComment | openComment => cases hl
  | keyword _ _ _ hword => exact TokenKind.ne_of_class (isListed_of_mem_reserved hword) rfl
  | sign _ hsign => exact TokenKind.ne_of_class (isListed_of_mem_signs hsign) rfl
  | _ => nofun

theorem munch_of_spells (h : Spells k (c :: cs) []) (hk : k ≠ .comment) :
    munch c cs = ⟨.token k, c :: cs, []⟩ := by
  obtain ⟨hlexeme, hrest, hfind⟩ := h.longest.eq_munch (List.append_nil _)
  exact Piece.eq_mk (Find.eq_token hfind hk) hlexeme.symm hrest.symm

/-- A character that is unknown before some text is unknown before none. -/
theorem munch_of_unknown (h : (munch c cs).find = .unknown) :
    (munch c cs).lexeme = [c] ∧ munch c [] = ⟨.unknown, [c], []⟩ := by
  have hunspelled : Unspelled (c :: cs) := unspelled_of_munch (by rw [h]; rfl)
  have hone : Unspelled [c] := by
    intro k l r hspells htext
    obtain ⟨d, l, rfl⟩ := List.exists_cons_of_ne_nil hspells.ne_nil
    obtain ⟨rfl, hnil⟩ := List.cons_eq_cons.1 htext
    obtain ⟨rfl, rfl⟩ := List.append_eq_nil_iff.1 hnil
    exact hunspelled k [d] cs (hspells.before hspells.not_comment cs) rfl
  obtain ⟨-, hfind, -⟩ | ⟨hquote, -, hlexeme, -⟩ := munch_of_unspelled hunspelled
  · rw [h] at hfind
    cases hfind
  refine ⟨hlexeme, ?_⟩
  obtain ⟨rfl, -⟩ | ⟨-, hfind, hlexeme, hrest⟩ := munch_of_unspelled hone
  · exact absurd rfl hquote
  · exact Piece.eq_mk hfind hlexeme hrest

/-- A token that is found in a text is found in its own lexeme too. -/
theorem standsAlone_of_munch {t : Token} {l : Location} (h : t ∈ (munch c cs).tokens l)
    (hkept : t.isTrivia = false) : t.StandsAlone := by
  obtain ⟨kind, hkind, rfl⟩ := Option.map_eq_some_iff.1 (Option.mem_toList.1 h)
  have hblank : isBlank c = false := by
    rw [← Bool.not_eq_true]
    intro hc
    rw [munch, munchAfter_blank cs hc] at hkind
    obtain rfl := Option.some.inj hkind
    cases hkept
  refine ⟨?_, by simp [Token.ofLexeme], hkept⟩
  have hlexeme : (Token.ofLexeme kind (munch c cs).lexeme l).lexeme.toList =
      c :: (munchAfter c cs).lexeme := String.toList_ofList
  refine ⟨c, (munchAfter c cs).lexeme, hlexeme, hblank, ?_⟩
  cases hfind : (munch c cs).find.spelled? with
  | some k =>
    obtain rfl : kind = k := by
      rw [Find.kind?_of_spelled? hfind] at hkind
      exact (Option.some.inj hkind).symm
    have hcomment : kind ≠ .comment := by
      rintro rfl
      cases hkept
    have hspells : Spells kind (c :: (munchAfter c cs).lexeme) [] :=
      (munch_spells hfind).before hcomment []
    rw [munch_of_spells hspells hcomment, Token.find, if_neg]
    · rfl
    · exact hspells.kind_ne_unknown
  | none =>
    have hunknown : (munch c cs).find = .unknown := by
      cases hf : (munch c cs).find <;> simp_all [Find.spelled?, Find.kind?]
    obtain ⟨hone, halone⟩ := munch_of_unknown hunknown
    have hnil : (munchAfter c cs).lexeme = [] := (List.cons_eq_cons.1 hone).2
    rw [hunknown] at hkind
    rw [hnil, halone, Token.find, if_pos]
    exact (Option.some.inj hkind).symm

end Alone

theorem standsAlone_of_scan {file : String} {p : Position} {cs : List Char} {t : Token}
    (h : t ∈ (scan file p cs).tokens) (hend : t.kind ≠ .endOfFile) (hkept : t.isTrivia = false) :
    t.StandsAlone := by
  induction cs using munch_induction generalizing p with
  | nil =>
    rw [scan_nil] at h
    exact absurd (congrArg Token.kind (List.mem_singleton.1 h)) hend
  | cons c cs ih =>
    rw [scan_cons] at h
    obtain h | h := List.mem_append.1 h
    · exact standsAlone_of_munch h hkept
    · exact ih h

/-- Tokens one behind the other, each with what comes between it and the next. -/
def spacedText (parts : List (Token × String)) : String :=
  String.join (parts.map fun part => part.1.lexeme ++ part.2)

/-- Only blanks come between tokens, and at least one of them. -/
structure Spaced (parts : List (Token × String)) : Prop where
  blank : ∀ part ∈ parts, ∀ b ∈ part.2.toList, isBlank b = true
  parted : ∀ part ∈ parts.dropLast, part.2 ≠ ""

section Spacing

variable {t : Token} {sep : String} {parts : List (Token × String)} {c : Char} {cs : List Char}

theorem toList_spacedText_cons : (spacedText ((t, sep) :: parts)).toList =
    t.lexeme.toList ++ (sep.toList ++ (spacedText parts).toList) := by
  simp [spacedText]

theorem Spaced.tail (h : Spaced ((t, sep) :: parts)) : Spaced parts := by
  refine ⟨fun part hpart => h.blank part (List.mem_cons_of_mem _ hpart), fun part hpart => ?_⟩
  cases parts with
  | nil => cases hpart
  | cons => exact h.parted part (List.mem_cons_of_mem _ hpart)

/-- Behind a token the text ends, or a blank is next. -/
theorem Spaced.next (h : Spaced ((t, sep) :: parts)) :
    ∀ b ∈ (sep.toList ++ (spacedText parts).toList).head?, isBlank b = true := by
  cases parts with
  | nil =>
    intro b hb
    have hsep := h.blank _ List.mem_cons_self
    rw [spacedText, List.map_nil, String.join_nil] at hb
    exact hsep b (List.mem_of_mem_head? (by simpa using hb))
  | cons part parts =>
    have hne : sep ≠ "" := h.parted _ List.mem_cons_self
    have hne : sep.toList ≠ [] := by simpa using hne
    intro b hb
    rw [List.head?_append_of_ne_nil _ hne] at hb
    exact h.blank _ List.mem_cons_self b (List.mem_of_mem_head? hb)

/-- What a text alone is read as, it is read as where it ends or a blank is next. -/
theorem munch_parted {find : Find} {rest : List Char} (hc : isBlank c = false)
    (h : munch c cs = ⟨find, c :: cs, []⟩) (hclosed : find.isClosed = true)
    (hcomment : find ≠ .token .comment) (hrest : ∀ b ∈ rest.head?, isBlank b = true) :
    munch c (cs ++ rest) = ⟨find, c :: cs, rest⟩ := by
  cases rest with
  | nil => rw [List.append_nil, h]
  | cons b ds =>
    rw [munch_followedBy (hrest b rfl) cs ds hc (by rw [h]; exact hclosed), h]
    · rfl
    · rw [h]
      exact fun hfind => absurd hfind hcomment

/-- A token that stands alone is read again before a blank, and is warned of if it is unknown. -/
theorem Token.StandsAlone.read (h : t.StandsAlone) {rest : List Char}
    (hrest : ∀ b ∈ rest.head?, isBlank b = true) (file : String) (p : Position) :
    ∃ u, u.word = t.word ∧ (scan file p (t.lexeme.toList ++ rest)).kept =
      ⟨u :: (scan file (p.after t.lexeme.toList) rest).kept.tokens,
        (([u].filter (·.kind == .unknown)).map Token.unknownFault) ++
          (scan file (p.after t.lexeme.toList) rest).kept.faults,
        (scan file (p.after t.lexeme.toList) rest).kept.stop⟩ := by
  obtain ⟨⟨c, cs, hlexeme, hc, hmunch⟩, hvalue, hkept⟩ := h
  have hpiece := munch_parted hc hmunch t.isClosed_find (find_ne_comment hkept) hrest
  let u := Token.ofLexeme t.kind (c :: cs) (p.inFile file)
  have hword : u.word = t.word := by
    rw [word_ofLexeme, Token.word, hvalue, hlexeme]
  have htokens : (munch c (cs ++ rest)).tokens (p.inFile file) = [u] := by
    rw [hpiece, Piece.tokens, kind?_find]
    rfl
  have hfaults : (munch c (cs ++ rest)).faults (p.inFile file) =
      ([u].filter (·.kind == .unknown)).map Token.unknownFault := by
    rw [hpiece, Piece.faults]
    obtain ⟨hk, hfind⟩ | ⟨hk, hfind⟩ := t.find_cases
    · simp [hfind, Find.cause?, u, Token.ofLexeme, hk, Token.unknownFault]
    · simp [hfind, Find.cause?, u, Token.ofLexeme, hk]
  have hdrop : dropTrivia [u] = [u] := by
    have hu : u.isTrivia = false := hkept
    simp [dropTrivia, hu]
  refine ⟨u, hword, ?_⟩
  rw [hlexeme, List.cons_append, kept_scan_cons, htokens, hfaults, hpiece, hdrop]
  rfl

theorem kept_scan_spaced (halone : ∀ part ∈ parts, part.1.StandsAlone) (h : Spaced parts)
    (file : String) (p : Position) :
    ∃ us q, us.map Token.word = parts.map (·.1.word) ∧
      (scan file p (spacedText parts).toList).kept = ⟨us ++ [.endOfFile (q.inFile file)],
        (us.filter (·.kind == .unknown)).map Token.unknownFault, q⟩ := by
  induction parts generalizing p with
  | nil => exact ⟨[], p, rfl, by rw [show (spacedText []).toList = [] from rfl, scan_nil]; rfl⟩
  | cons part parts ih =>
    obtain ⟨t, sep⟩ := part
    obtain ⟨ht, halone⟩ := List.forall_mem_cons.1 halone
    obtain ⟨u, hu, hread⟩ := ht.read h.next file p
    obtain ⟨us, q, hus, hscan⟩ := ih halone h.tail ((p.after t.lexeme.toList).after sep.toList)
    rw [← kept_scan_blanks (h.blank _ List.mem_cons_self)] at hscan
    refine ⟨u :: us, q, congrArg₂ List.cons hu hus, ?_⟩
    rw [toList_spacedText_cons, hread, hscan, ← List.map_append, ← List.filter_append]
    rfl

end Spacing

namespace Script

/-- The tokens of a script stand alone, its end aside. -/
theorem tokens_standAlone {script : Script} {ts : List Token} {last : Token}
    (h : script.tokens = ts ++ [last]) : ∀ t ∈ ts, t.StandsAlone := by
  obtain ⟨us, hi, hpartition⟩ := scan_partition script.file .start script.source.toList
  obtain ⟨last', htokens, hlast, -⟩ := hpartition.tokens
  have hscan : script.lexed.tokens = us ++ [last'] := htokens
  rw [tokens, hscan, dropTrivia_concat hlast] at h
  intro t ht
  rw [← (List.append_inj' h rfl).1] at ht
  obtain ⟨hmem, hkept⟩ := List.mem_filter.1 ht
  have hscanned : t ∈ (scan script.file .start script.source.toList).tokens :=
    htokens ▸ List.mem_append_left _ hmem
  exact standsAlone_of_scan hscanned (hpartition.kinds t hmem).1 (by simpa using hkept)

/-- Reformatted, a script has the same tokens: each stands by itself, whatever blanks are put around
it. Only the unknown ones are warned of. -/
theorem reformatted_words {script : Script} {parts : List (Token × String)} {last : Token}
    {indent : String} (file : String) (htokens : script.tokens = parts.map Prod.fst ++ [last])
    (hindent : ∀ b ∈ indent.toList, isBlank b = true) (hspaced : Spaced parts) :
    let again : Script := ⟨indent ++ spacedText parts, file⟩
    ∃ us last', again.tokens = us ++ [last'] ∧ last'.kind = .endOfFile ∧
      us.map Token.word = parts.map (·.1.word) ∧
      again.warnings = (us.filter (·.kind == .unknown)).map Token.unknownFault ∧
      ∀ f ∈ again.warnings, f.warning.diagnostic.code = some "L001" := by
  intro again
  have halone : ∀ part ∈ parts, part.1.StandsAlone := fun part hpart =>
    tokens_standAlone htokens part.1 (List.mem_map_of_mem hpart)
  obtain ⟨us, q, hus, hscan⟩ := kept_scan_spaced halone hspaced file
    (Position.start.after indent.toList)
  rw [← kept_scan_blanks hindent, ← String.toList_append] at hscan
  have hwarnings : again.warnings = (us.filter (·.kind == .unknown)).map Token.unknownFault :=
    congrArg Lexed.faults hscan
  refine ⟨us, _, congrArg Lexed.tokens hscan, rfl, hus, hwarnings, fun f hf => ?_⟩
  rw [hwarnings] at hf
  obtain ⟨u, -, rfl⟩ := List.mem_map.1 hf
  rfl

/-- Tokens that end where another one begins, half an operator, and a comment that is not closed. -/
theorem reformatted_tight :
    let script : Script := ⟨"x=1.&\"\\\"//\"/*", "a"⟩
    let parts := script.tokens.dropLast.zip ["\r\n", " ", "\t", " \n", "\n", ""]
    script.tokens = parts.map Prod.fst ++ [.endOfFile ⟨"a", 1, 14, 13⟩] ∧ Spaced parts ∧
      parts.length = 6 ∧
      let again : Script := ⟨" " ++ spacedText parts, "b"⟩
      ∃ us last', again.tokens = us ++ [last'] ∧ last'.kind = .endOfFile ∧
        us.map Token.word = parts.map (·.1.word) ∧
        again.warnings = (us.filter (·.kind == .unknown)).map Token.unknownFault ∧
        ∀ f ∈ again.warnings, f.warning.diagnostic.code = some "L001" := by
  intro script parts
  have htokens : script.tokens = parts.map Prod.fst ++ [.endOfFile ⟨"a", 1, 14, 13⟩] := by
    decide +kernel
  have hblank : ∀ part ∈ parts, part.2.toList.all isBlank = true := by decide +kernel
  have hspaced : Spaced parts :=
    ⟨fun part hpart => List.all_eq_true.1 (hblank part hpart), by decide +kernel⟩
  have hindent : ∀ b ∈ " ".toList, isBlank b = true := List.all_eq_true.1 (by decide +kernel)
  exact ⟨htokens, hspaced, by decide +kernel, reformatted_words "b" htokens hindent hspaced⟩

end Script

end ScrapeScript
