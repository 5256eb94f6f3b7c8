import Mathlib.Data.List.NodupEquivFin
import ScrapeScript.Proofs.Parser.Gathers
import ScrapeScript.Parser.Basic

namespace ScrapeScript

namespace Rule

variable {g : Setting} {expression operand : Rule g Expr}

section Phrases

variable (he : Gathers [] expression Expr.slots)

include he

theorem primary_gathers : Gathers [] (primary expression) Expr.slots := by
  refine .accept rfl .fail fun t ht => ?_
  obtain hk | hk | hk | hk | hk | hk := TokenKind.startsPrimary_cases ht <;> simp only [hk]
  · exact ⟨.kept t, rfl, .pure rfl⟩
  · refine ⟨.kind .leftParen, hk, ?_⟩
    exact (he.behind _).bind fun e => .bind .demand_kind fun _ => .pure rfl
  · refine ⟨.kept t, rfl, ?_⟩
    refine .bind .demand_kind fun _ => (he.behind _).bind fun e => .bind .demand_kept fun paren =>
      .pure ?_
    simp [Expr.slots, Expr.slotsOfArguments, Expr.slotsOfMore, Expectation.kind]
  · exact ⟨.literal t.value, ⟨.inl hk, rfl⟩, .pure rfl⟩
  · exact ⟨.literal t.value, ⟨.inr (.inl hk), rfl⟩, .pure rfl⟩
  · exact ⟨.literal t.value, ⟨.inr (.inr hk), rfl⟩, .pure rfl⟩

theorem arguments_gathers : Gathers [] (arguments expression) Expr.slotsOfArguments := by
  have hnext : Gathers [] (nextArgument expression) fun o : Option Expr =>
      o.elim [] fun a => .kind .comma :: a.slots := by
    refine .accept rfl (.pure rfl) fun t ht => ⟨.kind .comma, beq_iff_eq.1 ht, ?_⟩
    exact (he.behind _).map fun a => rfl
  refine .peek (p := (· == .rightParen)) (nextIs_eq nofun) fun b => ?_
  cases b with
  | true => exact .pure rfl
  | false =>
    have hmore : Gathers [] (many (nextArgument expression)) Expr.slotsOfMore :=
      .many rfl (fun _ _ => rfl) hnext
    exact he.bind fun a => (hmore.behind _).bind fun as => .pure rfl

theorem finishCall_gathers (subject : Expr) :
    Gathers (subject.slots ++ [.kind .leftParen]) (finishCall expression subject) Expr.slots := by
  refine ((arguments_gathers he).behind _).bind fun as => .bind .demand_kept fun paren => .pure ?_
  simp [Expr.slots]

theorem suffix_gathers (subject : Expr) :
    Gathers subject.slots (suffix expression subject) fun o => (o.getD subject).slots := by
  refine .accept rfl (.pure rfl) fun t ht => ?_
  obtain hk | hk : t.kind = .leftParen ∨ t.kind = .dot := by
    revert ht
    cases t.kind <;> simp
  · simp only [hk]
    refine ⟨.kind .leftParen, hk, ?_⟩
    exact (finishCall_gathers he subject).map fun _ => rfl
  · simp only [hk]
    refine ⟨.kind .dot, hk, ?_⟩
    refine .accept rfl .fail fun name _ => ⟨.kept name, rfl, .pure ?_⟩
    simp [Expr.slots]

theorem callLevel_gathers : Gathers [] (callLevel expression) Expr.slots :=
  (primary_gathers he).bind fun subject => .iterate (suffix_gathers he) subject

variable (ho : Gathers [] operand Expr.slots)

include ho

theorem unary_gathers : Gathers [] (unary expression operand) Expr.slots :=
  .accept rfl (callLevel_gathers he) fun op _ =>
    ⟨.kept op, rfl, (ho.behind _).map fun _ => rfl⟩

omit he in
theorem chain_gathers (p : Nat) : Gathers [] (chain p operand) Expr.slots := by
  have hstep (left : Expr) :
      Gathers left.slots (operation operand p left) fun o => (o.getD left).slots := by
    refine .accept (by simp [TokenKind.precedence?]) (.pure rfl) fun op _ => ⟨.kept op, rfl, ?_⟩
    exact (ho.behind _).map fun right => by simp [Expr.slots]
  exact ho.bind fun left => .iterate hstep left

theorem assignment_gathers : Gathers [] (assignment expression operand) Expr.slots := by
  have hunary := unary_gathers he ho
  have hbinary : Gathers [] (binary (unary expression operand)) Expr.slots :=
    chain_gathers (chain_gathers (chain_gathers (chain_gathers (chain_gathers (chain_gathers
      hunary 6) 5) 4) 3) 2) 1
  refine hbinary.bind fun target => .accept rfl (.pure rfl) fun op _ => ⟨.kept op, rfl, ?_⟩
  refine (he.behind _).bind fun value => ?_
  cases target with
  | «variable» name => exact .pure rfl
  | _ => exact .throw

end Phrases

theorem upTo_gathers (n : Nat) : Gathers [] (expressionUpTo n : Rule g Expr) Expr.slots ∧
    Gathers [] (operandUpTo n : Rule g Expr) Expr.slots := by
  induction n with
  | zero => exact ⟨.fail, .fail⟩
  | succ n ih =>
    obtain ⟨he, ho⟩ := ih
    exact ⟨.within (assignment_gathers he ho), .within (unary_gathers he ho)⟩

section Clauses

variable {statement : Rule g Stmt} (he : Gathers [] expression Expr.slots)

include he

theorem variableDeclaration_gathers :
    Gathers [.kind .varWord] (variableDeclaration expression) Stmt.slots := by
  have hinitializer : Gathers [] (initializer expression) fun o : Option Expr =>
      o.elim [] fun e => .kind .equals :: e.slots :=
    .accept rfl (.pure rfl) fun t ht =>
      ⟨.kind .equals, beq_iff_eq.1 ht, (he.behind _).map fun _ => rfl⟩
  refine .bind .demand_kept fun name => (hinitializer.behind _).bind fun o =>
    .bind .demand_kind fun _ => .pure ?_
  cases o <;> simp [Stmt.slots, Expectation.kind]

theorem expressionStatement_gathers : Gathers [] (expressionStatement expression) Stmt.slots :=
  he.bind fun _ => .bind .demand_kind fun _ => .pure rfl

theorem fetch_gathers : Gathers [.kind .fetch] (fetch expression) Stmt.slots := by
  refine .bind .demand_kind fun _ => (he.behind _).bind fun url => .bind .demand_kind fun _ =>
    .bind .demand_kind fun _ => .pure ?_
  simp [Stmt.slots, Expectation.kind]

theorem save_gathers : Gathers [.kind .save] (save expression) Stmt.slots := by
  refine .bind .demand_kind fun _ => (he.behind _).bind fun data => .bind .demand_kind fun _ =>
    (he.behind _).bind fun target => .bind .demand_kind fun _ => .bind .demand_kind fun _ =>
      .pure ?_
  simp [Stmt.slots, Expectation.kind]

theorem print_gathers : Gathers [.kind .print] (print expression) Stmt.slots := by
  refine .bind .demand_kind fun _ => (he.behind _).bind fun value => .bind .demand_kind fun _ =>
    .bind .demand_kind fun _ => .pure ?_
  simp [Stmt.slots, Expectation.kind]

variable (hs : Gathers [] statement Stmt.slots)

include hs

theorem conditional_gathers :
    Gathers [.kind .ifWord] (conditional expression statement) Stmt.slots := by
  refine .bind .demand_kind fun _ => (he.behind _).bind fun condition => .bind .demand_kind fun _ =>
    (hs.behind _).bind fun thenBranch => .accept rfl (.pure ?_) fun other hother =>
      ⟨.kind .elseWord, beq_iff_eq.1 hother, (hs.behind _).map fun elseBranch => ?_⟩
  · simp [Stmt.slots, Expectation.kind]
  · simp [Stmt.slots, Expectation.kind]

theorem loop_gathers : Gathers [.kind .forWord] (loop expression statement) Stmt.slots := by
  refine .bind .demand_kind fun _ => .bind .demand_kept fun item => .bind .demand_kind fun _ =>
    (he.behind _).bind fun iterable => .bind .demand_kind fun _ => (hs.behind _).map fun body => ?_
  simp [Stmt.slots, Expectation.kind]

variable (honward : ∀ s, Onward s (stateOf (declaration expression statement s)))

include honward

theorem declaration_gathers : Gathers [] (declaration expression statement) fun o : Option Stmt =>
    o.elim [] Stmt.slots :=
  .recovering (.accept rfl hs fun _ hword =>
    ⟨.kind .varWord, beq_iff_eq.1 hword, variableDeclaration_gathers he⟩) honward

/-- What was passed over leaves nothing in the statements. -/
theorem declarationsUntil_gathers {p : TokenKind → Bool} (hp : p .endOfFile = true) :
    Gathers [] (declarationsUntil p expression statement) Stmt.slotsOfAll := by
  have hunless : Gathers [] (declarationUnless p expression statement)
      fun o : Option (Option Stmt) => o.elim [] fun o => o.elim [] Stmt.slots := by
    refine .peek (stopsAt_eq hp) fun b => ?_
    cases b with
    | true => exact .pure rfl
    | false => exact (declaration_gathers he hs honward).map fun _ => rfl
  have hmany : Gathers [] (many (declarationUnless p expression statement))
      fun found => Stmt.slotsOfAll (found.filterMap id) :=
    .many rfl (fun o os => by cases o <;> rfl) hunless
  exact hmany.bind fun found => .pure rfl

theorem block_gathers : Gathers [.kind .leftBrace] (block expression statement) Stmt.slots :=
  ((declarationsUntil_gathers he hs honward rfl).behind _).bind fun _ =>
    .bind .demand_kind fun _ => .pure rfl

theorem form_gathers : Gathers [] (form expression statement) Stmt.slots := by
  refine .accept rfl (expressionStatement_gathers he) fun word hword =>
    ⟨.kind word.kind, rfl, ?_⟩
  obtain hk | hk | hk | hk | hk | hk := TokenKind.startsForm_cases hword <;> simp only [hk]
  · exact conditional_gathers he hs
  · exact loop_gathers he hs
  · exact block_gathers he hs honward
  · exact fetch_gathers he
  · exact save_gathers he
  · exact print_gathers he

end Clauses

/-- In a block as at the top, a declaration goes on from where it begins. -/
theorem declaration_onward (n : Nat) (s : State g) :
    Onward s (stateOf (declaration (expressionUpTo n) (statementUpTo n) s)) := by
  have he : Along [] Onward s.depth (expressionUpTo n : Rule g Expr) (expressionUpTo n) :=
    (upTo_along Onward.passage n s.depth).1
  have hs : Along [] Onward s.depth (statementUpTo n : Rule g Stmt) (statementUpTo n) :=
    statementUpTo_along Onward.passage (fun _ _ _ h => h.resume) n s.depth
  exact (declaration_along Onward.passage he hs (fun _ _ _ h => h.resume) s rfl).2

theorem statementUpTo_gathers (n : Nat) :
    Gathers [] (statementUpTo n : Rule g Stmt) Stmt.slots := by
  induction n with
  | zero => exact .fail
  | succ n ih => exact .within (form_gathers (upTo_gathers n).1 ih (declaration_onward n))

theorem program_gathers : Gathers [] (program : Rule g (List Stmt)) Stmt.slotsOfAll :=
  declarationsUntil_gathers (fun s => (upTo_gathers (g.levels - s.depth)).1 s)
    (fun s => statementUpTo_gathers (g.levels - s.depth) s) Routine.declaration.onward rfl

end Rule

/-- The statements are written with slots that are filled by some of the tokens, in their order. -/
theorem TokenStream.parse_picked (stream : TokenStream) (limit : Int) :
    Picked (Stmt.slotsOfAll (stream.parse limit).statements) stream.ahead := by
  obtain ⟨t, hrun, -⟩ := stream.parse_ends limit
  obtain ⟨slots, read, hslots, hread, hpicked⟩ := Rule.program_gathers _ _ _ hrun
  have hahead : stream.ahead = read ++ t.ahead := hread
  have hslots : Stmt.slotsOfAll (stream.parse limit).statements = slots ++ [] :=
    hslots.trans (List.append_nil slots).symm
  rw [hslots, hahead]
  exact hpicked.append .nil

/-- A tree keeps the token of this slot, or its value. -/
def Slot.isKept : Slot → Bool
  | .kept _ | .literal _ => true
  | .kind _ => false

/-- What statements keep of the tokens they are written with, in the order of the text. -/
def Stmt.keptOfAll (ss : List Stmt) : List Slot := (Stmt.slotsOfAll ss).filter Slot.isKept

theorem Picked.filter {slots : List Slot} {ts : List Token} (h : Picked slots ts)
    (p : Slot → Bool) : Picked (slots.filter p) ts := by
  induction h with
  | nil => exact .nil
  | @cons x _ _ _ hx _ ih =>
    rw [List.filter_cons]
    split
    · exact .cons hx ih
    · exact .cons_right ih
  | cons_right _ ih => exact .cons_right ih

theorem exists_indices_of_sublist {ts us : List Token} (h : us.Sublist ts) :
    ∃ is : List Nat, is.Pairwise (· < ·) ∧ is.map (ts[·]?) = us.map some := by
  obtain ⟨f, hf⟩ := List.sublist_iff_exists_orderEmbedding_getElem?_eq.1 h
  refine ⟨(List.range us.length).map f, ?_, ?_⟩
  · exact List.pairwise_map.2 (List.pairwise_lt_range.imp f.lt_iff_lt.2)
  · calc ((List.range us.length).map f).map (ts[·]?)
      _ = (List.range us.length).map (us[·]?) := by simp [hf]
      _ = us.map some := List.ext_getElem (by simp) (by simp)

theorem Picked.exists_indices {slots : List Slot} {ts : List Token} (h : Picked slots ts) :
    ∃ (us : List Token) (is : List Nat), Fills slots us ∧ is.Pairwise (· < ·) ∧
      is.map (ts[·]?) = us.map some := by
  obtain ⟨us, hfills, hus⟩ := List.sublistForall₂_iff.1 h
  obtain ⟨is, hordered, htokens⟩ := exists_indices_of_sublist hus
  exact ⟨us, is, hfills, hordered, htokens⟩

/-- The tokens that the returned statements keep stand in the stream, in the same order and each at
a place of its own, with faults or without. -/
theorem Parser.kept_of_run (ts : List Token) (options : ParseOptions) :
    ∃ (us : List Token) (is : List Nat),
      Fills (Stmt.keptOfAll (ofTokens ts options).run.1) us ∧ is.Pairwise (· < ·) ∧
        is.map ((ofTokens ts options).stream.toList[·]?) = us.map some := by
  obtain ⟨t, hrun, -⟩ := (ofTokens ts options).stream.parse_ends options.limit
  obtain ⟨slots, read, hslots, hread, hpicked⟩ := Rule.program_gathers _ _ _ hrun
  have hstream : (ofTokens ts options).stream.toList =
      read ++ (t.ahead ++ [(ofTokens ts options).stream.final]) := by
    rw [← List.append_assoc, ← hread]
    rfl
  have hall : Picked (Stmt.slotsOfAll (ofTokens ts options).run.1)
      (ofTokens ts options).stream.toList := by
    have hslots : Stmt.slotsOfAll (ofTokens ts options).run.1 = slots ++ [] :=
      hslots.trans (List.append_nil slots).symm
    rw [hstream, hslots]
    exact hpicked.append .nil
  exact (hall.filter Slot.isKept).exists_indices

end ScrapeScript
