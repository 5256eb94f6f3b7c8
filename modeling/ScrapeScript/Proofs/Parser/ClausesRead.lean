import ScrapeScript.Proofs.Grammar.Clause
import ScrapeScript.Proofs.Parser.PhrasesRead

namespace ScrapeScript

theorem TokenKind.startsForm_cases {k : TokenKind} (h : k.startsForm = true) :
    k = .ifWord ∨ k = .forWord ∨ k = .leftBrace ∨ k = .fetch ∨ k = .save ∨ k = .print := by
  cases k <;> simp_all [startsForm]

/-- Only a sequence of declarations may be empty. -/
theorem Clause.ne_nil {g : Grammar} {rule : ClauseRule} {ts : List Token} {x : rule.Tree}
    (h : Clause g rule ts x) (hrule : rule ≠ .declarations) : ts ≠ [] := by
  induction h <;> simp_all

namespace Rule

variable {g : Setting} {ι : Type} {g' : ι → Setting} {target : Expr → Prop}
  {expression : Rule g Expr} {expression' : ∀ i, Rule (g' i) Expr}
  {statement : Rule g Stmt} {statement' : ∀ i, Rule (g' i) Stmt}

/-- A rule reads the clauses of a rule of the grammar, in which nothing is said about what may
stand before an alternative. -/
abbrev ReadsClauses (target : Expr → Prop) (rule : ClauseRule) (r : Rule g rule.Tree)
    (r' : ∀ i, Rule (g' i) rule.Tree) : Prop :=
  Reads (∀ e, target e) r r' (Clause (.plain target) rule)

/-- A rule reads what is left of a statement behind its first word. -/
abbrev ReadsBehind (target : Expr → Prop) (word : Token) (r : Rule g Stmt)
    (r' : ∀ i, Rule (g' i) Stmt) : Prop :=
  Reads (∀ e, target e) r r' fun ts s => Clause (.plain target) .statement (word :: ts) s

theorem expressionStatement_reads (he : ReadsPhrases target .expression expression expression') :
    ReadsClauses target .statement (expressionStatement expression)
      (fun i => expressionStatement (expression' i)) := by
  refine .mono (he.bind fun e => .bind (.demand _) fun _ => .pure _) ?_
  rintro _ _ ⟨us, _, e, rfl, he, _, _, stop, rfl, ⟨rfl, hs⟩, rfl, rfl⟩
  exact .expression he hs

theorem initializer_reads (he : ReadsPhrases target .expression expression expression') :
    Reads (∀ e, target e) (initializer expression) (fun i => initializer (expression' i))
      (.optional (· == .equals) fun _ => Phrase target .expression) :=
  .branch rfl (.pure none) fun _ _ => he.map fun _ e he => ⟨e, rfl, he⟩

theorem variableDeclaration_reads (he : ReadsPhrases target .expression expression expression') :
    Reads (∀ e, target e) (variableDeclaration expression)
      (fun i => variableDeclaration (expression' i))
      fun ts s => ∀ word : Token, word.kind = .varWord →
        Clause (.plain target) .declaration (word :: ts) s := by
  refine .mono (.bind (.demand _) fun name => (initializer_reads he).bind fun o =>
    .bind (.demand _) fun _ => .pure _) ?_
  rintro _ _ ⟨_, _, name, rfl, ⟨rfl, hn⟩, us, _, o, rfl, ho, _, _, stop, rfl, ⟨rfl, hs⟩, rfl, rfl⟩
  intro word hw
  cases o with
  | none =>
    obtain rfl := Language.optional_none_iff.1 ho
    exact .declare hw hn hs
  | some e =>
    obtain ⟨equals, vs, rfl, heq, he⟩ := Language.optional_some_iff.1 ho
    exact .define hw hn (by simpa using heq) he hs

theorem conditional_reads (he : ReadsPhrases target .expression expression expression')
    (hs : ReadsClauses target .statement statement statement') {word : Token}
    (hw : word.kind = .ifWord) :
    ReadsBehind target word (conditional expression statement)
      (fun i => conditional (expression' i) (statement' i)) := by
  refine .mono (.bind (.demand _) fun _ => he.bind fun c => .bind (.demand _) fun _ =>
    hs.bind fun s => .branch rfl (.pure _) fun other _ =>
      hs.map (m := fun us r => ∃ t, r = Stmt.ifElse c s t ∧
        Clause (.plain target) .statement us t) fun us t ht => ⟨t, rfl, ht⟩) ?_
  rintro _ _ ⟨_, _, opening, rfl, ⟨rfl, ho⟩, us, _, c, rfl, hc, _, _, closing, rfl, ⟨rfl, hr⟩, vs,
    _, s, rfl, hs, ⟨rfl, rfl⟩ | ⟨other, ws, rfl, hother, t, rfl, ht⟩⟩
  · rw [List.append_nil]
    exact .ifThen hw ho hc hr hs
  · exact .ifElse hw ho hc hr hs trivial (by simpa using hother) ht

theorem loop_reads (he : ReadsPhrases target .expression expression expression')
    (hs : ReadsClauses target .statement statement statement') {word : Token}
    (hw : word.kind = .forWord) :
    ReadsBehind target word (loop expression statement)
      (fun i => loop (expression' i) (statement' i)) := by
  refine .mono (.bind (.demand _) fun _ => .bind (.demand _) fun item => .bind (.demand _) fun _ =>
    he.bind fun e => .bind (.demand _) fun _ => hs.map
      (m := fun us r => ∃ t, r = Stmt.loop item e t ∧
        Clause (.plain target) .statement us t) fun us t ht => ⟨t, rfl, ht⟩) ?_
  rintro _ _ ⟨_, _, opening, rfl, ⟨rfl, ho⟩, _, _, item, rfl, ⟨rfl, hi⟩, _, _, inside, rfl,
    ⟨rfl, hin⟩, us, _, e, rfl, he, _, vs, closing, rfl, ⟨rfl, hr⟩, s, rfl, hs⟩
  exact .loop hw ho hi hin he hr hs

/-- What is the same in a request for a page and in a line of output. -/
theorem command_reads {o c e : Expectation} (ho : o.kind = .leftParen) (hc : c.kind = .rightParen)
    (he : e.kind = .semicolon) {make : Expr → Stmt} {l : Language Stmt}
    (hx : ReadsPhrases target .expression expression expression')
    (hl : ∀ {opening us x closing stop}, opening.kind = .leftParen →
      Phrase target .expression us x → closing.kind = .rightParen → stop.kind = .semicolon →
      l (opening :: (us ++ [closing, stop])) (make x)) :
    Reads (∀ e, target e)
      (do
        let _ ← demand o
        let x ← expression
        let _ ← demand c
        let _ ← demand e
        return make x)
      (fun i => do
        let _ ← demand o
        let x ← expression' i
        let _ ← demand c
        let _ ← demand e
        return make x) l := by
  refine .mono (.bind (.demand o) fun _ => hx.bind fun x => .bind (.demand c) fun _ =>
    .bind (.demand e) fun _ => .pure _) ?_
  rintro _ _ ⟨_, _, opening, rfl, ⟨rfl, ho'⟩, us, _, x, rfl, hx, _, _, closing, rfl, ⟨rfl, hc'⟩, _,
    _, stop, rfl, ⟨rfl, hs'⟩, rfl, rfl⟩
  exact hl (ho'.trans ho) hx (hc'.trans hc) (hs'.trans he)

theorem fetch_reads (he : ReadsPhrases target .expression expression expression') {word : Token}
    (hw : word.kind = .fetch) :
    ReadsBehind target word (fetch expression) (fun i => fetch (expression' i)) :=
  command_reads rfl rfl rfl he fun ho he hc hs => .fetch hw ho he hc hs

theorem print_reads (he : ReadsPhrases target .expression expression expression') {word : Token}
    (hw : word.kind = .print) :
    ReadsBehind target word (print expression) (fun i => print (expression' i)) :=
  command_reads rfl rfl rfl he fun ho he hc hs => .print hw ho he hc hs

theorem save_reads (he : ReadsPhrases target .expression expression expression') {word : Token}
    (hw : word.kind = .save) :
    ReadsBehind target word (save expression) (fun i => save (expression' i)) := by
  refine .mono (.bind (.demand _) fun _ => he.bind fun d => .bind (.demand _) fun _ =>
    he.bind fun e => .bind (.demand _) fun _ => .bind (.demand _) fun _ => .pure _) ?_
  rintro _ _ ⟨_, _, opening, rfl, ⟨rfl, ho⟩, us, _, d, rfl, hd, _, _, comma, rfl, ⟨rfl, hm⟩, vs, _,
    e, rfl, he, _, _, closing, rfl, ⟨rfl, hc⟩, _, _, stop, rfl, ⟨rfl, hs⟩, rfl, rfl⟩
  exact .save hw ho hd hm he hc hs

theorem declaration_reads (he : ReadsPhrases target .expression expression expression')
    (hs : ReadsClauses target .statement statement statement') :
    Reads (∀ e, target e) (declaration expression statement)
      (fun i => declaration (expression' i) (statement' i))
      fun ts o => ∃ s, o = some s ∧ Clause (.plain target) .declaration ts s := by
  refine .mono (.recovering (.branch rfl hs fun _ _ => variableDeclaration_reads he)) ?_
  rintro ts _ ⟨s, rfl, hs | ⟨word, us, rfl, hw, hs⟩⟩
  · exact ⟨s, rfl, .statement hs⟩
  · exact ⟨s, rfl, hs word (by simpa using hw)⟩

/-- One more declaration, or nothing. -/
def MoreDeclaration (target : Expr → Prop) : Language (Option (Option Stmt)) :=
  .or (fun ts o => ts = [] ∧ o = none) fun ts o =>
    ∃ s, o = some (some s) ∧ Clause (.plain target) .declaration ts s

theorem clause_of_many {ts : List Token} {found : List (Option Stmt)}
    (h : Language.Many (MoreDeclaration target) ts found) :
    Clause (.plain target) .declarations ts (found.filterMap id) := by
  induction h with
  | stop h =>
    obtain ⟨rfl, -⟩ | ⟨s, hsome, -⟩ := h
    · exact .nothing
    · cases hsome
  | next h _ ih =>
    obtain ⟨-, hnone⟩ | ⟨s, hsome, hs⟩ := h
    · cases hnone
    · cases hsome
      exact .next hs ih

theorem declarationUnless_reads {p : TokenKind → Bool} (hp : p .endOfFile = true)
    (he : ReadsPhrases target .expression expression expression')
    (hs : ReadsClauses target .statement statement statement') :
    Reads (∀ e, target e) (declarationUnless p expression statement)
      (fun i => declarationUnless p (expression' i) (statement' i)) (MoreDeclaration target) := by
  refine .mono (.peek (m := fun _ => MoreDeclaration target) (stopsAt_eq hp)
    (fun _ => stopsAt_eq hp) fun b => ?_) fun ts o ⟨_, h⟩ => h
  cases b with
  | true => exact .mono (.pure none) fun _ _ => .inl
  | false =>
    refine .map (declaration_reads he hs) ?_
    rintro ts _ ⟨s, rfl, hs⟩
    exact .inr ⟨s, rfl, hs⟩

theorem not_moreDeclaration_nil {o : Option Stmt} : ¬MoreDeclaration target [] (some o) := by
  rintro (⟨-, hnone⟩ | ⟨s, -, hs⟩)
  · cases hnone
  · exact hs.ne_nil nofun rfl

theorem declarationsUntil_reads {p : TokenKind → Bool} (hp : p .endOfFile = true)
    (he : ReadsPhrases target .expression expression expression')
    (hs : ReadsClauses target .statement statement statement') :
    ReadsClauses target .declarations (declarationsUntil p expression statement)
      (fun i => declarationsUntil p (expression' i) (statement' i)) := by
  have hidle (i : ι) : Idle (declarationUnless p (expression' i) (statement' i)) := by
    intro s hs
    unfold declarationUnless
    rw [bind_of_ok (stopsAt_eq hp s), hs, hp]
    rfl
  exact .map (.many (declarationUnless_reads hp he hs) (.inl ⟨rfl, rfl⟩)
    (fun _ => not_moreDeclaration_nil) hidle) fun _ _ => clause_of_many

theorem block_reads (he : ReadsPhrases target .expression expression expression')
    (hs : ReadsClauses target .statement statement statement') {word : Token}
    (hw : word.kind = .leftBrace) :
    ReadsBehind target word (block expression statement)
      (fun i => block (expression' i) (statement' i)) := by
  refine .mono ((declarationsUntil_reads rfl he hs).bind fun ss => .bind (.demand _) fun _ =>
    .pure _) ?_
  rintro _ _ ⟨us, _, ss, rfl, hss, _, _, closing, rfl, ⟨rfl, hc⟩, rfl, rfl⟩
  exact .block hw hss hc

theorem form_reads (he : ReadsPhrases target .expression expression expression')
    (hs : ReadsClauses target .statement statement statement') :
    ReadsClauses target .statement (form expression statement)
      (fun i => form (expression' i) (statement' i)) := by
  refine .mono (.branch (m := fun word us s => Clause (.plain target) .statement (word :: us) s)
    rfl (expressionStatement_reads he) fun word hword => ?_) ?_
  · obtain hk | hk | hk | hk | hk | hk := TokenKind.startsForm_cases hword <;> simp only [hk]
    · exact conditional_reads he hs hk
    · exact loop_reads he hs hk
    · exact block_reads he hs hk
    · exact fetch_reads he hk
    · exact save_reads he hk
    · exact print_reads he hk
  · rintro ts s (hs | ⟨word, us, rfl, -, hs⟩)
    · exact hs
    · exact hs

theorem statementUpTo_succ (n : Nat) : (statementUpTo (n + 1) : Rule g Stmt) =
    within (form (expressionUpTo n) (statementUpTo n)) := by
  funext s
  rw [statementUpTo]

theorem statementUpTo_reads_of_keeps (hvariable : ∀ t, target (.variable t))
    (hlevels : ∀ i, g.levels ≤ (g' i).levels)
    (hkeeps : ∀ i n, Keeps (statementUpTo n : Rule (g' i) Stmt)) {n : Nat} {n' : ι → Nat}
    (hn : ∀ i, n ≤ n' i) :
    ReadsClauses target .statement (statementUpTo n : Rule g Stmt)
      (fun i => (statementUpTo (n' i) : Rule (g' i) Stmt)) := by
  induction n generalizing n' with
  | zero =>
    have hexpression := expressionStatement_reads (upTo_reads hvariable hlevels hn).1
    exact tooDeep_reads (fun s => by rw [statementUpTo]) (fun i => hkeeps i _)
      hexpression.possible
  | succ n ih =>
    obtain ⟨m, rfl⟩ : ∃ m : ι → Nat, n' = fun i => m i + 1 :=
      ⟨fun i => n' i - 1, funext fun i => (Nat.sub_add_cancel (Nat.one_le_of_lt (hn i))).symm⟩
    have hn (i : ι) : n ≤ m i := Nat.le_of_succ_le_succ (hn i)
    simp only [statementUpTo_succ]
    exact (form_reads (upTo_reads hvariable hlevels hn).1 (ih hn)).within hlevels

theorem statementUpTo_keeps (n : Nat) : Keeps (statementUpTo n : Rule g Stmt) :=
  (@statementUpTo_reads_of_keeps g Empty nofun (fun _ => True) (fun _ => trivial) nofun nofun n
    nofun nofun).keeps

theorem statementUpTo_reads (hvariable : ∀ t, target (.variable t))
    (hlevels : ∀ i, g.levels ≤ (g' i).levels) {n : Nat} {n' : ι → Nat} (hn : ∀ i, n ≤ n' i) :
    ReadsClauses target .statement (statementUpTo n : Rule g Stmt)
      (fun i => (statementUpTo (n' i) : Rule (g' i) Stmt)) :=
  statementUpTo_reads_of_keeps hvariable hlevels (fun _ => statementUpTo_keeps) hn

/-- Rules that are given the levels that are left at each depth. -/
theorem Reads.atDepth {α : Type} {loose : Prop} {r : Nat → Rule g α}
    {r' : ∀ i, Nat → Rule (g' i) α} {l : Language α} (hlevels : ∀ i, g.levels ≤ (g' i).levels)
    (h : ∀ (n : Nat) (n' : ι → Nat), (∀ i, n ≤ n' i) →
      Reads loose (r n) (fun i => r' i (n' i)) l) :
    Reads loose (fun s => r (g.levels - s.depth) s)
      (fun i s => r' i ((g' i).levels - s.depth) s) l where
  possible := (h 0 (fun _ => 0) fun _ => Nat.le_refl 0).possible
  keeps s := (h _ (fun i => (g' i).levels) fun i =>
    Nat.le_trans (Nat.sub_le _ _) (hlevels i)).keeps s
  keeps' i s := (h 0 (fun i => (g' i).levels - s.depth) fun _ => Nat.zero_le _).keeps' i s
  clean {s t a} hr ht := by
    -- What is left is less in the first setting than in the others, at whatever depth.
    have hn (i : ι) := Nat.sub_le_sub_right (hlevels i) s.depth
    obtain ⟨hdepth, ts, hts, hl, hmakes⟩ := (h _ _ hn).clean hr ht
    refine ⟨hdepth, ts, hts, hl, fun i s' v hs' hv hk => ?_⟩
    have hs := hmakes i s' v hs' hv hk
    rw [← hs'] at hs
    exact hs
  fault {s f} hf hdeep := by
    have hn (i : ι) := Nat.sub_le_sub_right (hlevels i) s.depth
    obtain ⟨ts, rest, hafter, hcomplete, hrefuses⟩ := (h _ _ hn).fault hf hdeep
    refine ⟨ts, rest, hafter, hcomplete, fun i s' v hs' hv hk => ?_⟩
    have hs := hrefuses i s' v hs' hv hk
    rw [← hs'] at hs
    exact hs

theorem declarations_reads {p : TokenKind → Bool} (hp : p .endOfFile = true)
    (hvariable : ∀ t, target (.variable t)) (hlevels : ∀ i, g.levels ≤ (g' i).levels) :
    ReadsClauses target .declarations
      (declarationsUntil p Rule.expression Rule.statement : Rule g (List Stmt))
      (fun i => (declarationsUntil p Rule.expression Rule.statement : Rule (g' i) (List Stmt))) :=
  declarationsUntil_reads hp
    (.atDepth hlevels fun _ _ hn => (upTo_reads hvariable hlevels hn).1)
    (.atDepth hlevels fun _ _ hn => statementUpTo_reads hvariable hlevels hn)

theorem program_reads (hvariable : ∀ t, target (.variable t))
    (hlevels : ∀ i, g.levels ≤ (g' i).levels) :
    ReadsClauses target .declarations (program : Rule g (List Stmt))
      (fun i => (program : Rule (g' i) (List Stmt))) :=
  declarations_reads rfl hvariable hlevels

end Rule

end ScrapeScript
