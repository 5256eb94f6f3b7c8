import ScrapeScript.Proofs.Parser.Correctness
import ScrapeScript.Proofs.Parser.Fragments

namespace ScrapeScript

namespace Rule

/-- What a program stands before is read as if it stood alone, unless an alternative comes first,
which would belong to the program. -/
theorem program_append {g : Setting} {s u : State g} {ts v : List Token} {ss ss' : List Stmt}
    (h : Grammar.nearest.Program ts ss) (hneed : Stmt.needOfAll ss ≤ g.levels)
    (hdepth : s.depth = 0) (hs : s.ahead = ts ++ v) (hv : nextKind v ≠ .elseWord)
    (hrest : program { s with ahead := v } = .ok ss' u) : program s = .ok (ss ++ ss') u := by
  match h with
  | .nothing =>
    have hstate : s = { s with ahead := v } := by
      cases s
      simp_all
    rw [hstate]
    exact hrest
  | @Clause.next _ us vs x xs hx hxs =>
    rw [Stmt.needOfAll, Nat.max_le] at hneed
    rw [List.append_assoc] at hs
    obtain ⟨j, hj, hnext⟩ := exists_nextKind_declarations hxs hv
    have hmade := declaration_made hx (g := g) (d := 0) (by omega) fun _ => hj
    have hfirst := hmade s (vs ++ v) hdepth hs (hnext v rfl)
    have hothers := program_append hxs hneed.2 (s := { s with ahead := vs ++ v }) hdepth rfl hv
      hrest
    refine program_step (o := some x) (fun hend => ?_) hfirst hothers
    have hstarts := hx.starts (vs ++ v)
    rw [← hs, hend] at hstarts
    cases hstarts

end Rule

namespace TokenStream

variable {limit : Int} {file : String} {ts : List Token}

theorem ahead_ofTokens (file : String) (hts : ∀ t ∈ ts, t.kind ≠ .endOfFile) :
    (ofTokens file ts).ahead = dropTrivia ts := by
  unfold ofTokens
  dsimp only
  split
  · rename_i h
    exact (List.getLast?_eq_none_iff.1 h).symm
  · rename_i last h
    have hlast : last ∈ ts := (List.mem_filter.1 (List.mem_of_getLast? h)).1
    rw [dif_neg (hts last hlast)]

theorem ahead_ofTokens_concat (file : String) {last : Token} (hlast : last.kind = .endOfFile)
    (ts : List Token) : (ofTokens file (ts ++ [last])).ahead = dropTrivia ts :=
  congrArg ahead (ofTokens_eq file (dropTrivia_concat hlast ts) hlast)

/-- A stream that is parsed without faults by itself makes the same statements before others. -/
theorem program_append_of_clean {stream : TokenStream} {last : Token} {v : List Token}
    {ss : List Stmt} {u : State ⟨limit, last⟩} (hstream : ∀ t ∈ stream.ahead, t.kind ≠ .endOfFile)
    (hclean : (stream.parse limit).faults = []) (hv : nextKind v ≠ .elseWord)
    (hrest : Rule.program (.start ⟨limit, last⟩ v) = .ok ss u) :
    Rule.program (.start ⟨limit, last⟩ (stream.ahead ++ v)) =
      .ok ((stream.parse limit).statements ++ ss) u := by
  have hprogram := (parse_clean _ hclean).2
  rw [sentence_eq_self hstream] at hprogram
  have hneed := Stmt.needOfAll_le fun s hs => (stream.parse_wellFormed limit s hs).2
  exact Rule.program_append hprogram hneed rfl rfl hv hrest

end TokenStream

namespace Rule

variable {g : Setting} {ts rest : List Token} {stop : Token} {ss : List Stmt} {u : State g}

/-- Before a program, one statement adds itself to it or a fault. -/
theorem program_of_fragment (hts : Fragment ts) (hstop : stop.kind = .semicolon)
    (hrest : program (.start g rest) = .ok ss u) :
    ∃ (o : Option Stmt) (fs : List SyntaxFault),
      program (.start g (ts ++ stop :: rest)) = .ok (o.toList ++ ss) (u.afterFaults fs) ∧
        fs.length = if o.isNone then 1 else 0 := by
  have hstart : nextKind (ts ++ stop :: rest) ≠ .endOfFile := by
    cases ts with
    | nil => simp [hstop]
    | cons t ts => exact (hts.kinds t (by simp)).2.1
  obtain ⟨x, hx⟩ | ⟨f, hf⟩ :=
    declaration_of_fragment (s := .start g (ts ++ stop :: rest)) hts rfl hstop
  · exact ⟨some x, [], program_step hstart hx hrest, rfl⟩
  · -- The fault is there before the program that comes next, which does not look at it.
    have hafter : program ((State.start g rest).afterFaults [f]) =
        Rule.afterFaults [f] (program (.start g rest)) :=
      Routine.program.afterFaults [f] (.start g rest)
    rw [hrest] at hafter
    exact ⟨none, [f], program_step hstart hf hafter, rfl⟩

end Rule

namespace Parser

theorem run_of_program {ts words : List Token} {last : Token} {options : ParseOptions}
    {ss : List Stmt} {u : State ⟨options.limit, last⟩} (hts : dropTrivia ts = words ++ [last])
    (hlast : last.kind = .endOfFile)
    (h : Rule.program (.start ⟨options.limit, last⟩ words) = .ok ss u) :
    (ofTokens ts options).run.1 = ss ∧ (ofTokens ts options).run.2.faults = u.faults ∧
      (ofTokens ts options).run.2.ahead = u.ahead := by
  have hparse : (TokenStream.ofTokens options.file ts).parse options.limit =
      ⟨ss, u.faults, u.ahead⟩ := by
    rw [TokenStream.ofTokens_eq options.file hts hlast]
    unfold TokenStream.parse
    rw [h]
  exact ⟨congrArg Parsed.statements hparse, congrArg Parsed.faults hparse,
    congrArg Parsed.ahead hparse⟩

/-- One statement costs at most one fault, wherever it is wrong, and nothing of what stands before
and after it is lost. -/
theorem fragment_costs_one {ts : List Token} {stop : Token} (hts : Fragment ts)
    (hstop : stop.kind = .semicolon) :
    (∀ (g : Setting) (s : State g) (rest : List Token), s.ahead = ts ++ stop :: rest →
      (∃ x, Rule.declaration Rule.expression Rule.statement s =
        .ok (some x) { s with ahead := rest }) ∨
      ∃ f, Rule.declaration Rule.expression Rule.statement s =
        .ok none { s with ahead := rest, faults := s.faults ++ [f] }) ∧
    (nextKind ts ≠ .elseWord →
      ∀ (options : ParseOptions) (before after : List Token) (last : Token),
        (∀ t ∈ before, t.kind ≠ .endOfFile) → (ofTokens before options).run.2.faults = [] →
        last.kind = .endOfFile →
        let whole := (ofTokens (before ++ ts ++ stop :: (after ++ [last])) options).run
        let alone := (ofTokens (after ++ [last]) options).run
        ∃ (o : Option Stmt) (fs : List SyntaxFault),
          whole.1 = (ofTokens before options).run.1 ++ o.toList ++ alone.1 ∧
            whole.2.faults = fs ++ alone.2.faults ∧ fs.length = if o.isNone then 1 else 0) := by
  refine ⟨fun g s rest hs => Rule.declaration_of_fragment hts hs hstop, ?_⟩
  intro helse options before after last hbefore hclean hlast whole alone
  have hkept := dropTrivia_concat hlast after
  have hfragment : dropTrivia ts = ts :=
    List.filter_eq_self.2 fun t ht => by simp [(hts.kinds t ht).2.2]
  have hwhole : dropTrivia (before ++ ts ++ stop :: (after ++ [last])) =
      dropTrivia before ++ (ts ++ stop :: dropTrivia after) ++ [last] := by
    have hsemicolon : stop.isTrivia = false := by simp [Token.isTrivia, hstop, TokenKind.isTrivia]
    rw [dropTrivia_append, dropTrivia_append, hfragment, ← List.singleton_append,
      dropTrivia_append, hkept]
    simp [dropTrivia, hsemicolon]
  obtain ⟨ss, u, hrun, -⟩ :=
    Rule.program_ends (.start ⟨options.limit, last⟩ (dropTrivia after))
  obtain ⟨o, fs, hprogram, hfs⟩ := Rule.program_of_fragment hts hstop hrun
  have hnext : nextKind (ts ++ stop :: dropTrivia after) ≠ .elseWord := by
    cases ts with
    | nil => simp [hstop]
    | cons t ts => exact helse
  have hahead := TokenStream.ahead_ofTokens options.file hbefore
  have hkinds (t : Token) (ht : t ∈ (TokenStream.ofTokens options.file before).ahead) :
      t.kind ≠ .endOfFile := by
    rw [hahead] at ht
    exact hbefore t (List.mem_filter.1 ht).1
  have hall := TokenStream.program_append_of_clean hkinds hclean hnext hprogram
  rw [hahead] at hall
  obtain ⟨hstatements, hfaults, -⟩ := run_of_program hwhole hlast hall
  obtain ⟨hstatements', hfaults', -⟩ := run_of_program hkept hlast hrun
  refine ⟨o, fs, ?_, ?_, hfs⟩
  · rw [hstatements, hstatements', List.append_assoc]
    rfl
  · rw [hfaults, hfaults']
    rfl

/-- A sum without its second operand, between two statements. -/
theorem unfinishedSum_costs_one :
    let sum := [.identifier, .plus].map Token.ofKind
    let named := [.identifier, .semicolon].map Token.ofKind
    let stop := Token.ofKind .semicolon
    let last := Token.ofKind .endOfFile
    let whole := (ofTokens (named ++ sum ++ stop :: (named ++ [last])) {}).run
    Fragment sum ∧ (ofTokens named {}).run.2.faults = [] ∧
      ∃ (o : Option Stmt) (fs : List SyntaxFault),
        whole.1 = (ofTokens named {}).run.1 ++ o.toList ++ (ofTokens (named ++ [last]) {}).run.1 ∧
          whole.2.faults = fs ++ (ofTokens (named ++ [last]) {}).run.2.faults ∧
            fs.length = if o.isNone then 1 else 0 := by
  intro sum named stop last whole
  have hsum : Fragment sum := by
    refine ⟨by decide, fun t ht => ?_, by decide⟩
    obtain rfl : Token.ofKind .identifier = t := Option.some.inj ht
    exact ⟨nofun, nofun, nofun⟩
  have hstop : stop.kind = .semicolon := rfl
  have hnamed : (ofTokens named {}).run.2.faults = [] := by decide +kernel
  exact ⟨hsum, hnamed,
    (fragment_costs_one hsum hstop).2 nofun {} named named last (by decide) hnamed rfl⟩

/-- The index at which a run stops, counted from the end. -/
theorem current_run {ts words : List Token} {last : Token} (options : ParseOptions)
    (hts : dropTrivia ts = words ++ [last]) (hlast : last.kind = .endOfFile) :
    (ofTokens ts options).run.2.current =
      words.length - (ofTokens ts options).run.2.ahead.length := by
  have hstream : (ofTokens ts options).run.2.stream = ⟨words, last, hlast⟩ :=
    TokenStream.ofTokens_eq options.file hts hlast
  rw [current, hstream]

/-- Before other tokens a program that is parsed without faults keeps its statements, and the other
tokens are parsed as if they stood alone, unless an alternative comes first. -/
theorem run_append {before after : List Token} {stop : Option Token} {last : Token}
    (options : ParseOptions) (hbefore : ∀ t ∈ before, t.kind ≠ .endOfFile)
    (hstop : ∀ t ∈ stop, t.kind = .endOfFile)
    (hclean : (ofTokens (before ++ stop.toList) options).run.2.faults = [])
    (hlast : last.kind = .endOfFile)
    (helse : nextKind (dropTrivia (after ++ [last])) ≠ .elseWord) :
    let first := (ofTokens (before ++ stop.toList) options).run
    let second := (ofTokens (after ++ [last]) options).run
    let whole := (ofTokens (before ++ (after ++ [last])) options).run
    whole.1 = first.1 ++ second.1 ∧ whole.2.faults = second.2.faults ∧
      whole.2.current = (dropTrivia before).length + second.2.current := by
  intro first second whole
  have hahead : (TokenStream.ofTokens options.file (before ++ stop.toList)).ahead =
      dropTrivia before := by
    cases stop with
    | none =>
      rw [Option.toList_none, List.append_nil]
      exact TokenStream.ahead_ofTokens options.file hbefore
    | some t => exact TokenStream.ahead_ofTokens_concat options.file (hstop t rfl) before
  have hkinds (t : Token)
      (ht : t ∈ (TokenStream.ofTokens options.file (before ++ stop.toList)).ahead) :
      t.kind ≠ .endOfFile := by
    rw [hahead] at ht
    exact hbefore t (List.mem_filter.1 ht).1
  have hafter := dropTrivia_concat hlast after
  have hwhole : dropTrivia (before ++ (after ++ [last])) =
      dropTrivia before ++ dropTrivia after ++ [last] := by
    rw [dropTrivia_append, hafter, List.append_assoc]
  have hnext : nextKind (dropTrivia after) ≠ .elseWord := by
    rw [hafter] at helse
    cases hkept : dropTrivia after with
    | nil => nofun
    | cons t ts =>
      rw [hkept] at helse
      exact helse
  obtain ⟨ss, u, hrun, honward, -⟩ :=
    Rule.program_ends (.start ⟨options.limit, last⟩ (dropTrivia after))
  have hall := TokenStream.program_append_of_clean hkinds hclean hnext hrun
  rw [hahead] at hall
  obtain ⟨hstatements, hfaults, hrest⟩ := run_of_program hwhole hlast hall
  obtain ⟨hstatements', hfaults', hrest'⟩ := run_of_program hafter hlast hrun
  refine ⟨?_, hfaults.trans hfaults'.symm, ?_⟩
  · rw [hstatements, hstatements']
    rfl
  · have hlength := honward.length_le
    rw [current_run options hwhole hlast, current_run options hafter hlast, hrest, hrest',
      List.length_append]
    exact Nat.add_sub_assoc hlength _

/-- A condition without an alternative, and a fault and an end of file after it. -/
theorem openCondition_append :
    let before := [.ifWord, .leftParen, .identifier, .rightParen, .identifier, .semicolon,
      .whitespace].map Token.ofKind
    let after := [.comment, .plus, .endOfFile, .identifier, .semicolon].map Token.ofKind
    let last := Token.ofKind .endOfFile
    let first := (ofTokens (before ++ [last]) {}).run
    let second := (ofTokens (after ++ [last]) {}).run
    let whole := (ofTokens (before ++ (after ++ [last])) {}).run
    first.2.faults = [] ∧ second.2.faults ≠ [] ∧
      whole.1 = first.1 ++ second.1 ∧ whole.2.faults = second.2.faults ∧
        whole.2.current = (dropTrivia before).length + second.2.current := by
  intro before after last first second whole
  have hbefore : ∀ t ∈ before, t.kind ≠ .endOfFile := by decide
  have hstop : ∀ t ∈ some last, t.kind = .endOfFile := by decide
  have hclean : (ofTokens (before ++ (some last).toList) {}).run.2.faults = [] := by decide +kernel
  have hfaults : second.2.faults ≠ [] := by decide +kernel
  have helse : nextKind (dropTrivia (after ++ [last])) ≠ .elseWord := by decide
  have happend := run_append {} hbefore hstop hclean rfl helse
  exact ⟨hclean, hfaults, happend⟩

end Parser

end ScrapeScript
