import ScrapeScript.Proofs.Parser.Correctness
import ScrapeScript.Proofs.Parser.KeptTokens
import ScrapeScript.Proofs.Parser.Misses
import ScrapeScript.Proofs.Parser.Surroundings

namespace ScrapeScript

namespace Rule

variable {g : Setting}

section Declarations

variable {p : TokenKind → Bool} {us rest : List Token} {s : Stmt} {next : Token}

/-- An alternative that no condition waits for is refused. -/
theorem faulty_of_alternative (hp : Closes p) {t : State g} (ht : nextKind t.ahead = .elseWord) :
    Faulty (declarationsUntil p expression statement) t := by
  have hreads : ReadsClauses (fun _ => True) .declarations
      (declarationsUntil p expression statement : Rule g (List Stmt))
      (fun n => (declarationsUntil p expression statement : Rule (g.deepened n) (List Stmt))) :=
    declarations_reads hp.endOfFile (fun _ => trivial) g.levels_le_deepened
  by_contra hclean
  obtain ⟨ss, u, hrun, hfaults⟩ := hreads.keeps.exists_ok hclean
  obtain ⟨ss', u', hrun', -, hend⟩ := declarationsUntil_ends hp.endOfFile t
  rw [hrun] at hrun'
  cases hrun'
  obtain ⟨-, ts, hts, hclause, -⟩ := hreads.clean hrun hfaults
  cases hclause with
  | nothing =>
    rw [List.nil_append] at hts
    exact hp.ne_elseWord _ hend (hts ▸ ht)
  | @next us vs _ _ hs =>
    have hstart : (nextKind (us ++ (vs ++ u.ahead))).startsNothing = false := hs.starts _
    rw [← List.append_assoc, ← hts, ht] at hstart
    cases hstart

/-- Declarations go on behind the token that is refused, with one fault more. -/
theorem declarations_of_unstopped (hp : Closes p) (h : Unstopped us s) {t : State g}
    (hneed : t.depth + s.need ≤ g.levels) (hfaults : t.faults = [])
    (ht : t.ahead = us ++ next :: rest) (hends : next.kind.endsExpression = true)
    (hnext : next.kind ≠ .semicolon) :
    declarationsUntil p expression statement t = afterFaults [⟨.missing s.stop, next⟩]
      (declarationsUntil p expression statement { t with ahead := Recovery.seek next rest }) := by
  have hfirst : declaration expression statement t = .ok none
      (({ t with ahead := Recovery.seek next rest } : State g).afterFaults
        [⟨.missing s.stop, next⟩]) := by
    have hmisses := (misses_of_unstopped h hneed hends hnext).recovering rfl ht rfl
    simp only [State.afterFaults, hfaults] at hmisses ⊢
    exact hmisses
  rw [declarationsUntil_step hp.endOfFile (ht ▸ hp.eq_false _ (h.starts _)), bind_of_ok hfirst]
  rw [← (declarationsUntil_heedless hp.endOfFile _ _ _ rfl).1]
  simp

/-- A program of which one semicolon is missing is read as if the statement, the next token and all
up to a boundary were not there, with one fault more. Only an alternative at the boundary, which
could belong to a condition before the statement, is refused. -/
theorem program_of_unstopped {pre post : List Token} {ss ss' : List Stmt}
    (hss : Omission s .declarations pre post ss ss') (hneed : Stmt.needOfAll ss ≤ g.levels)
    (h : Unstopped us s) (hends : next.kind.endsExpression = true)
    (hnext : next.kind ≠ .semicolon) :
    ∃ o : Outcome g (List Stmt),
      program (.start g (pre ++ (us ++ next :: rest))) =
        afterFaults [⟨.missing s.stop, next⟩] o ∧
      (nextKind (Recovery.seek next rest) ≠ .elseWord →
        o = program (.start g (pre ++ Recovery.seek next rest))) ∧
      (nextKind (Recovery.seek next rest) = .elseWord → faultsOf o ≠ []) := by
  obtain ⟨inner, hinner, p, k, hp, hk, hencloses⟩ :=
    enclosed_of_omission (g := g) hss 0 (by omega) _ closes_program
  have hstart := TokenKind.ne_elseWord (h.starts (next :: rest))
  obtain ⟨t, hdepth, hahead, hfaults, hrun⟩ := hencloses (.start g _) _ rfl rfl hstart
  have hloop := declarations_of_unstopped hp h (hdepth ▸ hinner) hfaults hahead hends hnext
  let u : State g := { t with ahead := Recovery.seek next rest }
  refine ⟨k (declarationsUntil p expression statement u), ?_, fun hne => ?_, fun helse => ?_⟩
  · exact hrun.trans (by rw [hloop, hk])
  · obtain ⟨u', hdepth', hahead', hfaults', hrun'⟩ := hencloses (.start g _) _ rfl rfl hne
    have hu : u = u' := by
      cases u'
      simp_all [u, State.start]
    rw [hu]
    exact hrun'.symm
  · -- The declarations come to an end with a fault, which is still found by what surrounds them.
    obtain ⟨found, v, hfound, -⟩ := declarationsUntil_ends hp.endOfFile u
    have hfaulty := faulty_of_alternative hp (t := u) helse
    unfold Faulty at hfaulty
    rw [hfound] at hfaulty ⊢
    intro hnone
    have hstays := hk.faults_prefix found v
    rw [hnone, List.prefix_nil] at hstays
    exact hfaulty (hstays.trans hfaults.symm)

end Declarations

end Rule

namespace TokenStream

/-- Tokens in front of others do not change where the stream ends. -/
theorem ahead_append (file : String) {us : List Token} (hus : (ofTokens file us).ahead ≠ [])
    (ts : List Token) :
    (ofTokens file (ts ++ us)).ahead = dropTrivia ts ++ (ofTokens file us).ahead := by
  have hkept : dropTrivia us ≠ [] := fun hnil => hus (by simp [ofTokens, hnil])
  obtain ⟨vs, v, hvs⟩ := (List.eq_nil_or_concat' (dropTrivia us)).resolve_left hkept
  have hlast : (dropTrivia us).getLast? = some v := by simp [hvs]
  have hlast' : (dropTrivia ts ++ dropTrivia us).getLast? = some v := by simp [hvs]
  unfold ofTokens
  simp only [dropTrivia_append, hlast, hlast']
  by_cases hv : v.kind = .endOfFile
  · simp [hv, hvs, ← List.append_assoc]
  · simp [hv]

variable {pre post us rest : List Token} {next : Token} {s : Stmt} {ss ss' : List Stmt}

/-- A run without faults returns the trees that the tokens before the first end of file make. -/
theorem parse_of_program (stream : TokenStream) (limit : Int) {ts : List Token}
    (hclean : (stream.parse limit).faults = []) (hahead : stream.ahead = ts ++ rest)
    (h : Grammar.Program .nearest (ts ++ sentence rest) ss) :
    (stream.parse limit).statements = ss ∧ Stmt.needOfAll ss ≤ limit.toNat := by
  have hkinds (t : Token) (ht : t ∈ ts) : t.kind ≠ .endOfFile :=
    (h.kinds t (List.mem_append_left _ ht)).1
  rw [← sentence_append hkinds, ← hahead] at h
  obtain rfl := Rule.program_unique (stream.parse_clean hclean).2 h
  exact ⟨rfl, Stmt.needOfAll_le fun s hs => (stream.parse_wellFormed limit s hs).2⟩

theorem parse_of_unstopped (stream : TokenStream) (limit : Int)
    (hahead : stream.ahead = pre ++ (us ++ next :: rest))
    (hss : Omission s .declarations pre post ss ss') (hneed : Stmt.needOfAll ss ≤ limit.toNat)
    (hs : Unstopped us s) (hends : next.kind.endsExpression = true)
    (hnext : next.kind ≠ .semicolon) :
    ∃ fs, (stream.parse limit).faults = ⟨.missing s.stop, next⟩ :: fs ∧
      (nextKind (Recovery.seek next rest) ≠ .elseWord →
        let spared := { stream with ahead := pre ++ Recovery.seek next rest }.parse limit
        (stream.parse limit).statements = spared.statements ∧ fs = spared.faults) ∧
      (nextKind (Recovery.seek next rest) = .elseWord → fs ≠ []) := by
  obtain ⟨o, hrun, hspared, halternative⟩ :=
    Rule.program_of_unstopped (g := ⟨limit, stream.final⟩) hss hneed hs hends hnext
  rw [← hahead] at hrun
  obtain ⟨found, t, hfound, -⟩ := Rule.program_ends (.start ⟨limit, stream.final⟩ stream.ahead)
  rw [hfound] at hrun
  cases o with
  | error f t => cases hrun
  | ok found' u =>
    cases hrun
    rw [parse_of_ok hfound]
    refine ⟨u.faults, rfl, fun hne => ?_, halternative⟩
    intro spared
    have hparse : spared = ⟨found, u.faults, u.ahead⟩ := parse_of_ok (hspared hne).symm
    rw [hparse]
    exact ⟨rfl, rfl⟩

/-- A program is not made of fewer tokens than it is written with. -/
theorem parse_ne_of_length_lt (stream : TokenStream) (limit : Int) {g : Grammar} {ts : List Token}
    (h : g.Program ts ss) (hlt : stream.ahead.length < ts.length) :
    (stream.parse limit).statements ≠ ss := by
  rintro rfl
  have hslots := Picked.length_le (stream.parse_picked limit)
  have hfills := h.fills.length_eq
  simp only [ClauseRule.slots] at hfills
  omega

end TokenStream

/-- A word that opens a statement ends an expression, and so does a brace that ends a block. -/
theorem TokenKind.endsExpression_of_boundary {k : TokenKind}
    (h : k.startsStatement = true ∨ k = .rightBrace) :
    k.endsExpression = true ∧ k ≠ .semicolon ∧ k ≠ .endOfFile := by
  cases k <;> simp_all [startsStatement, endsExpression, endsOperation, precedence?]

namespace Parser

/-- A semicolon that is forgotten before a word that opens a statement, or before the brace that
ends the block, costs more than its own statement. The fault is at that token, which is passed over
together with all up to a boundary, and the run is that of the tokens without these, one fault more.
An alternative at the boundary is another fault. What would have been left of the program without
that one statement is not returned with that one fault. -/
theorem run_of_unstopped {before after pre us rest : List Token} {stop next : Token} {s : Stmt}
    {ss ss' : List Stmt} (options : ParseOptions)
    (hclean : (ofTokens (before ++ stop :: after) options).run.2.faults = [])
    (hbefore : dropTrivia before = pre ++ us)
    (hafter : (ofTokens after options).stream.ahead = next :: rest)
    (hs : Unstopped us s) (hstop : stop.kind = .semicolon)
    (hss : Omission s .declarations pre (sentence (next :: rest)) ss ss')
    (hnext : next.kind.startsStatement = true ∨ next.kind = .rightBrace) :
    let run := (ofTokens (before ++ after) options).run
    let spared := { (ofTokens (before ++ after) options).stream with
      ahead := pre ++ Recovery.seek next rest }.parse options.limit
    (ofTokens (before ++ stop :: after) options).run.1 = ss ∧
      ∃ fs, run.2.faults = ⟨.missing s.stop, next⟩ :: fs ∧
        (nextKind (Recovery.seek next rest) ≠ .elseWord →
          run.1 = spared.statements ∧ fs = spared.faults) ∧
        (nextKind (Recovery.seek next rest) = .elseWord → fs ≠ []) ∧
        ((∀ t ∈ rest, t.kind ≠ .endOfFile) → ¬(run.1 = ss' ∧ fs = [])) := by
  obtain ⟨hends, hne, heof⟩ := TokenKind.endsExpression_of_boundary hnext
  have hprogram := hss.clause (hs.clause hstop)
  have hkept : (ofTokens after options).stream.ahead ≠ [] := by
    rw [hafter]
    exact List.cons_ne_nil next rest
  have hstream : (ofTokens (before ++ stop :: after) options).stream.ahead =
      pre ++ (us ++ [stop]) ++ next :: rest := by
    have hsemicolon : dropTrivia [stop] = [stop] := by
      simp [dropTrivia, Token.isTrivia, hstop, TokenKind.isTrivia]
    rw [List.append_cons before stop after, ← hafter, ← List.append_assoc pre, ← hbefore]
    refine (TokenStream.ahead_append options.file hkept _).trans ?_
    rw [dropTrivia_append, hsemicolon]
    rfl
  have hahead : (ofTokens (before ++ after) options).stream.ahead =
      pre ++ (us ++ next :: rest) := by
    rw [← hafter, ← List.append_assoc, ← hbefore]
    exact TokenStream.ahead_append options.file hkept before
  obtain ⟨hsame, hneed⟩ := TokenStream.parse_of_program _ options.limit hclean hstream hprogram
  obtain ⟨fs, hfaults, hspared, halternative⟩ :=
    TokenStream.parse_of_unstopped _ options.limit hahead hss hneed hs hends hne
  refine ⟨hsame, fs, hfaults, hspared, halternative, fun hrest hright => ?_⟩
  by_cases helse : nextKind (Recovery.seek next rest) = .elseWord
  · exact halternative helse hright.2
  · -- More than the tokens of the statement are gone, and what is left would need all the others.
    have hsentence : sentence (next :: rest) = next :: rest :=
      sentence_eq_self (List.forall_mem_cons.2 ⟨heof, hrest⟩)
    have hwithout := hss.clause_without
    rw [hsentence] at hwithout
    have hshort := (Recovery.seek_suffix next rest).length_le
    refine TokenStream.parse_ne_of_length_lt _ options.limit hwithout ?_
      ((hspared helse).1.symm.trans hright.1)
    simp only [List.length_append, List.length_cons]
    omega

/-- A block of two statements, the first of them without its semicolon. -/
theorem run_unstoppedInBlock :
    let before := [.leftBrace, .identifier].map Token.ofKind
    let stop := Token.ofKind .semicolon
    let after := [.print, .leftParen, .identifier, .rightParen, .semicolon, .rightBrace,
      .endOfFile].map Token.ofKind
    let name := Expr.variable (.ofKind .identifier)
    (ofTokens (before ++ stop :: after) {}).run.2.faults = [] ∧
      (ofTokens (before ++ stop :: after) {}).run.1 = [.block [.expression name, .print name]] ∧
      ∃ fs, (ofTokens (before ++ after) {}).run.2.faults =
          ⟨.missing .semicolonAfterExpression, .ofKind .print⟩ :: fs ∧
        ¬((ofTokens (before ++ after) {}).run.1 = [.block [.print name]] ∧ fs = []) := by
  intro before stop after name
  have hname : Phrase Expr.IsVariable .expression [.ofKind .identifier] name :=
    Expr.WellFormed.phrase (.variable rfl) (.cons rfl .nil)
  have hprint : Clause .nearest .declarations
      ([.print, .leftParen, .identifier, .rightParen, .semicolon].map Token.ofKind)
      [.print name] :=
    program_of_wellFormed (by simpa using .print (.variable rfl))
      (.cons rfl <| .cons rfl <| .cons rfl <| .cons rfl <| .cons rfl .nil)
  have hblock : Omission (.expression name) .declarations [.ofKind .leftBrace]
      (sentence (.ofKind .print :: [.leftParen, .identifier, .rightParen, .semicolon,
        .rightBrace].map Token.ofKind))
      [.block [.expression name, .print name]] [.block [.print name]] :=
    .inside (.block rfl (.here hprint) rfl) .nothing
  have hbefore : dropTrivia before = [.ofKind .leftBrace] ++ [.ofKind .identifier] := rfl
  have hclean : (ofTokens (before ++ stop :: after) {}).run.2.faults = [] := by decide +kernel
  obtain ⟨hstatements, fs, hfaults, -, -, hwrong⟩ :=
    run_of_unstopped {} hclean hbefore rfl (.expression hname) rfl hblock (.inl rfl)
  exact ⟨hclean, hstatements, fs, hfaults, hwrong (by decide)⟩

/-- Without its semicolon the first of two statements takes the second one with it. -/
theorem run_unstoppedAtTop :
    let before := [.identifier].map Token.ofKind
    let stop := Token.ofKind .semicolon
    let print := [.print, .leftParen, .identifier, .rightParen, .semicolon].map Token.ofKind
    let last := Token.ofKind .endOfFile
    let name := Expr.variable (.ofKind .identifier)
    (ofTokens (before ++ stop :: (print ++ [last])) {}).run.2.faults = [] ∧
      Unstopped before (.expression name) ∧
      Omission (.expression name) .declarations [] print [.expression name, .print name]
        [.print name] ∧
      (ofTokens (before ++ (print ++ [last])) {}).run.1 ≠ [.print name] := by
  intro before stop print last name
  have hname : Phrase Expr.IsVariable .expression before name :=
    Expr.WellFormed.phrase (.variable rfl) (.cons rfl .nil)
  have hprint : Clause .nearest .declarations print [.print name] :=
    program_of_wellFormed (by simpa using .print (.variable rfl))
      (.cons rfl <| .cons rfl <| .cons rfl <| .cons rfl <| .cons rfl .nil)
  have hnone : (ofTokens (before ++ (print ++ [last])) {}).run.1.length = 0 := by decide +kernel
  refine ⟨by decide +kernel, .expression hname, .here hprint, fun h => ?_⟩
  rw [h] at hnone
  cases hnone

end Parser

end ScrapeScript
