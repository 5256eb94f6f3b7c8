import ScrapeScript.Proofs.Parser.Carries
import ScrapeScript.Proofs.Parser.Progress

namespace ScrapeScript

namespace Recast

variable {g g' : Setting} (c : Recast g g')

abbrev expr : Expr → Expr := Expr.mapLeaves c.token c.value

abbrev stmt : Stmt → Stmt := Stmt.mapLeaves c.token c.value

end Recast

namespace Rule

variable {g g' : Setting} {c : Recast g g'}

section Phrases

variable {expression operand : Rule g Expr} {expression' operand' : Rule g' Expr}

theorem chain_carries (p : Nat) (ho : Carries c [] c.expr operand operand') :
    Carries c [] c.expr (chain p operand) (chain p operand') := by
  have hstep (left : Expr) : Carries c [] (Option.map c.expr) (operation operand p left)
      (operation operand' p (c.expr left)) :=
    .accept rfl (.pure rfl) fun op _ => ho.map fun right => rfl
  exact ho.bind fun left => .iterate hstep left

theorem chains_carry (ps : List Nat) (ho : Carries c [] c.expr operand operand') :
    Carries c [] c.expr (ps.foldr chain operand) (ps.foldr chain operand') := by
  induction ps with
  | nil => exact ho
  | cons p ps ih => exact chain_carries p ih

variable (he : Carries c [] c.expr expression expression')

include he

theorem primary_carries : Carries c [] c.expr (primary expression) (primary expression') := by
  refine .accept rfl (.fail nofun) fun t ht => ?_
  obtain hk | hk | hk | hk | hk | hk := TokenKind.startsPrimary_cases ht <;>
    simp only [c.kind_eq, hk]
  · exact .pure rfl
  · exact he.bind fun _ => (Carries.demand _).bind fun _ => .pure rfl
  · exact (Carries.demand _).bind fun _ => he.bind fun _ => (Carries.demand _).bind fun _ =>
      .pure rfl
  all_goals exact .pure (congrArg Expr.literal (c.value_eq t))

theorem arguments_carries :
    Carries c [] (List.map c.expr) (arguments expression) (arguments expression') := by
  have hnext : Carries c [] (Option.map c.expr) (nextArgument expression)
      (nextArgument expression') :=
    .accept rfl (.pure rfl) fun _ _ => he.map fun _ => rfl
  refine .peek (p := (· == .rightParen)) (nextIs_eq nofun) (nextIs_eq nofun) fun b => ?_
  cases b with
  | true => exact .pure rfl
  | false => exact he.bind fun _ => hnext.many.bind fun _ => .pure rfl

theorem finishCall_carries (subject : Expr) :
    Carries c [] c.expr (finishCall expression subject)
      (finishCall expression' (c.expr subject)) :=
  (arguments_carries he).bind fun _ => (Carries.demand _).bind fun _ =>
    .pure (by simp [Expr.mapLeaves])

theorem suffix_carries (subject : Expr) :
    Carries c [] (Option.map c.expr) (suffix expression subject)
      (suffix expression' (c.expr subject)) := by
  refine .accept rfl (.pure rfl) fun t ht => ?_
  obtain hk | hk : t.kind = .leftParen ∨ t.kind = .dot := by
    revert ht
    cases t.kind <;> simp
  · simp only [c.kind_eq, hk]
    exact (finishCall_carries he subject).map fun _ => rfl
  · simp only [c.kind_eq, hk]
    exact .accept rfl (.fail (by simp)) fun _ _ => .pure rfl

theorem callLevel_carries : Carries c [] c.expr (callLevel expression) (callLevel expression') :=
  (primary_carries he).bind fun subject => .iterate (suffix_carries he) subject

variable (ho : Carries c [] c.expr operand operand')

include ho

theorem unary_carries :
    Carries c [] c.expr (unary expression operand) (unary expression' operand') :=
  .accept rfl (callLevel_carries he) fun _ _ => ho.map fun _ => rfl

/-- The sign of an assignment is refused before any other token behind it is. -/
theorem assignment_carries (hsilent : ∀ s, recorded (expression s) = s.faults) :
    Carries c [] c.expr (assignment expression operand) (assignment expression' operand') := by
  refine (chains_carry _ (unary_carries he ho)).bind fun target =>
    .acceptSign rfl (.pure rfl) fun op hop => ?_
  cases target with
  | «variable» name =>
    refine .behind ?_ [op]
    exact he.bind fun value => .pure rfl
  | _ => exact he.refuse hsilent (beq_iff_eq.1 hop)

end Phrases

/-- Faults in an expression are not recorded before they end the statement. -/
theorem expressionUpTo_silent (n : Nat) (s : State g) :
    recorded (expressionUpTo n s) = s.faults := by
  have hpassage : Passage (·.isInPhrase = true)
      fun s t : State g => t.faults = s.faults ∧ t.depth = s.depth := {
    refl _ := ⟨rfl, rfl⟩
    trans h h' := ⟨h'.1.trans h.1, h'.2.trans h.2⟩
    depth_eq h := h.2
    read _ _ := ⟨rfl, rfl⟩
    within _ h := ⟨h.1, by simp [State.leave, h.2, State.enter]⟩ }
  have halong : Along [] _ s.depth (expressionUpTo n) (expressionUpTo n) :=
    (upTo_along hpassage n s.depth).1
  have hrun := (halong s rfl).2.1
  cases h : expressionUpTo n s <;> rw [h] at hrun <;> exact hrun

/-- In the other setting there may be more levels left, but no more if the limit is the same. -/
theorem upTo_carries {n n' : Nat} (hle : n ≤ n') (heq : g.limit = g'.limit → n = n') :
    Carries c [] c.expr (expressionUpTo n) (expressionUpTo n') ∧
      Carries c [] c.expr (operandUpTo n) (operandUpTo n') := by
  induction n generalizing n' with
  | zero =>
    exact ⟨.tooDeep (fun s => by rw [expressionUpTo]) fun h s => by rw [← heq h, expressionUpTo],
      .tooDeep (fun s => by rw [operandUpTo]) fun h s => by rw [← heq h, operandUpTo]⟩
  | succ n ih =>
    obtain ⟨n', rfl⟩ : ∃ m, n' = m + 1 := ⟨n' - 1, by omega⟩
    obtain ⟨he, ho⟩ := ih (Nat.le_of_succ_le_succ hle) fun h => Nat.succ.inj (heq h)
    simp only [expressionUpTo_succ, operandUpTo_succ]
    exact ⟨(assignment_carries he ho (expressionUpTo_silent n)).within,
      (unary_carries he ho).within⟩

section Clauses

variable {expression : Rule g Expr} {expression' : Rule g' Expr}
  (he : Carries c [] c.expr expression expression')

include he

theorem variableDeclaration_carries :
    Carries c [] c.stmt (variableDeclaration expression) (variableDeclaration expression') := by
  have hinitializer : Carries c [] (Option.map c.expr) (initializer expression)
      (initializer expression') :=
    .accept rfl (.pure rfl) fun _ _ => he.map fun _ => rfl
  exact (Carries.demand _).bind fun _ => hinitializer.bind fun _ => (Carries.demand _).bind fun _ =>
    .pure rfl

theorem expressionStatement_carries :
    Carries c [] c.stmt (expressionStatement expression) (expressionStatement expression') :=
  he.bind fun _ => (Carries.demand _).bind fun _ => .pure rfl

theorem command_carries (o l e : Expectation) {make : Expr → Stmt}
    (hmake : ∀ x, make (c.expr x) = c.stmt (make x)) :
    Carries c [] c.stmt
      (do
        let _ ← demand o
        let x ← expression
        let _ ← demand l
        let _ ← demand e
        return make x)
      (do
        let _ ← demand o
        let x ← expression'
        let _ ← demand l
        let _ ← demand e
        return make x) :=
  (Carries.demand _).bind fun _ => he.bind fun x => (Carries.demand _).bind fun _ =>
    (Carries.demand _).bind fun _ => .pure (hmake x)

theorem save_carries : Carries c [] c.stmt (save expression) (save expression') :=
  (Carries.demand _).bind fun _ => he.bind fun _ => (Carries.demand _).bind fun _ =>
    he.bind fun _ => (Carries.demand _).bind fun _ => (Carries.demand _).bind fun _ => .pure rfl

variable {statement : Rule g Stmt} {statement' : Rule g' Stmt}
  (hs : Carries c [] c.stmt statement statement')

include hs

theorem conditional_carries :
    Carries c [] c.stmt (conditional expression statement) (conditional expression' statement') :=
  (Carries.demand _).bind fun _ => he.bind fun _ => (Carries.demand _).bind fun _ =>
    hs.bind fun _ => .accept rfl (.pure rfl) fun _ _ => hs.map fun _ => rfl

theorem loop_carries :
    Carries c [] c.stmt (loop expression statement) (loop expression' statement') :=
  (Carries.demand _).bind fun _ => (Carries.demand _).bind fun _ => (Carries.demand _).bind fun _ =>
    he.bind fun _ => (Carries.demand _).bind fun _ => hs.map fun _ => rfl

theorem declaration_carries :
    Carries c [] (Option.map c.stmt) (declaration expression statement)
      (declaration expression' statement') :=
  .recovering (.accept rfl hs fun _ _ => variableDeclaration_carries he)

theorem declarationsUntil_carries {p : TokenKind → Bool} (hp : p .endOfFile = true) :
    Carries c [] (List.map c.stmt) (declarationsUntil p expression statement)
      (declarationsUntil p expression' statement') := by
  have hunless : Carries c [] (Option.map (Option.map c.stmt))
      (declarationUnless p expression statement) (declarationUnless p expression' statement') := by
    refine .peek (stopsAt_eq hp) (stopsAt_eq hp) fun b => ?_
    cases b with
    | true => exact .pure rfl
    | false => exact (declaration_carries he hs).map fun _ => rfl
  refine hunless.many.bind fun found => .pure ?_
  rw [List.filterMap_map, List.map_filterMap]
  rfl

theorem block_carries :
    Carries c [] c.stmt (block expression statement) (block expression' statement') :=
  (declarationsUntil_carries he hs rfl).bind fun inner => (Carries.demand _).bind fun _ =>
    .pure (by simp [Stmt.mapLeaves])

theorem behind_carries (word : TokenKind) :
    Carries c [] c.stmt (behind word expression statement)
      (behind word expression' statement') := by
  unfold behind
  split
  · exact conditional_carries he hs
  · exact loop_carries he hs
  · exact block_carries he hs
  · exact command_carries he _ _ _ fun _ => rfl
  · exact save_carries he
  · exact command_carries he _ _ _ fun _ => rfl

theorem form_carries :
    Carries c [] c.stmt (form expression statement) (form expression' statement') := by
  refine .accept rfl (expressionStatement_carries he) fun t _ => ?_
  show Carries c [] c.stmt (behind t.kind expression statement)
    (behind (c.token t).kind expression' statement')
  rw [c.kind_eq]
  exact behind_carries he hs t.kind

end Clauses

theorem statementUpTo_carries {n n' : Nat} (hle : n ≤ n') (heq : g.limit = g'.limit → n = n') :
    Carries c [] c.stmt (statementUpTo n) (statementUpTo n') := by
  induction n generalizing n' with
  | zero =>
    exact .tooDeep (fun s => by rw [statementUpTo]) fun h s => by rw [← heq h, statementUpTo]
  | succ n ih =>
    obtain ⟨n', rfl⟩ : ∃ m, n' = m + 1 := ⟨n' - 1, by omega⟩
    have hle : n ≤ n' := Nat.le_of_succ_le_succ hle
    have heq (h : g.limit = g'.limit) : n = n' := Nat.succ.inj (heq h)
    simp only [statementUpTo_succ]
    exact (form_carries (upTo_carries hle heq).1 (ih hle heq)).within

/-- A rule may nest through the levels that are left. -/
theorem Carries.atDepth {α : Type} {m : α → α} {upTo : Nat → Rule g α} {upTo' : Nat → Rule g' α}
    (h : ∀ n n', n ≤ n' → (g.limit = g'.limit → n = n') → Carries c [] m (upTo n) (upTo' n')) :
    Carries c [] m (fun s => upTo (g.levels - s.depth) s)
      fun s => upTo' (g'.levels - s.depth) s := by
  refine .pointwise fun s => ⟨_, _, rfl, rfl, h _ _ ?_ fun hlimit => ?_⟩
  · exact Nat.sub_le_sub_right c.levels_le s.depth
  · show g.levels - s.depth = g'.levels - s.depth
    rw [Setting.levels, Setting.levels, hlimit]

theorem expression_carries : Carries c [] c.expr (expression : Rule g Expr) expression :=
  .atDepth fun _ _ hle heq => (upTo_carries hle heq).1

theorem statement_carries : Carries c [] c.stmt (statement : Rule g Stmt) statement :=
  .atDepth fun _ _ => statementUpTo_carries

theorem program_carries : Carries c [] (List.map c.stmt) (program : Rule g (List Stmt)) program :=
  declarationsUntil_carries expression_carries statement_carries rfl

end Rule

/-- A stream whose tokens are those of another one, recast, is parsed as that one is. -/
theorem TokenStream.parse_recast {stream stream' : TokenStream} {limit limit' : Int}
    (c : Recast ⟨limit, stream.final⟩ ⟨limit', stream'.final⟩)
    (hahead : stream'.ahead = stream.ahead.map c.token)
    (hshares : Setting.Shares ⟨limit, stream.final⟩ ⟨limit', stream'.final⟩
      (stream.parse limit).faults) :
    stream'.parse limit' = ⟨(stream.parse limit).statements.map c.stmt,
      (stream.parse limit).faults.map c.fault, (stream.parse limit).ahead.map c.token⟩ := by
  obtain ⟨t, hrun, hfaults, hrest, -⟩ := stream.parse_ends limit
  have hstart : c.state (.start _ stream.ahead) = .start _ stream'.ahead := by
    rw [hahead]
    rfl
  have hsame := (Rule.program_carries (c := c)).same (.start _ stream.ahead)
  rw [hrun, hstart] at hsame
  rw [← hfaults] at hshares
  rw [parse_of_ok (hsame hshares), ← hfaults, ← hrest]
  rfl

end ScrapeScript
