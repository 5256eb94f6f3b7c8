import ScrapeScript.Proofs.Parser.Along
import ScrapeScript.Proofs.Parser.ClausesMade

namespace ScrapeScript

namespace TokenKind

/-- The kinds of tokens that expressions are made of. -/
def isInPhrase (k : TokenKind) : Bool :=
  k.startsPrimary || k.isPrefixOperator || k.isPropertyName || k.precedence?.isSome ||
    k matches leftParen | rightParen | comma | dot | equals

theorem isInPhrase_of_precedence {k : TokenKind} {p : Nat} (h : (k.precedence? == some p) = true) :
    k.isInPhrase = true := by
  rw [beq_iff_eq] at h
  simp [isInPhrase, h]

end TokenKind

namespace Rule

variable {g : Setting} {fs : List SyntaxFault} {R : State g → State g → Prop} {d n : Nat}

/-- What stands after a prefix operator at the depth reached so far. -/
def operand : Rule g Expr := fun s => operandUpTo (g.levels - s.depth) s

/-- What leads over all tokens but ends of files leads over those of expressions. -/
theorem Passage.inPhrases (hR : Passage (· ≠ .endOfFile) R) : Passage (·.isInPhrase = true) R :=
  hR.mono fun _ hk => TokenKind.ne_of_class hk rfl

section Phrases

variable {expression expression' operand operand' : Rule g Expr}
  (hR : Passage (·.isInPhrase = true) R)

include hR

theorem chain_along (p : Nat) (ho : Along fs R d operand operand') :
    Along fs R d (chain p operand) (chain p operand') := by
  have hstep (left : Expr) : Along fs R d (operation operand p left) (operation operand' p left) :=
    .accept hR rfl (fun _ => TokenKind.isInPhrase_of_precedence) (.pure hR none)
      fun _ _ => ho.map hR _
  exact ho.bind hR fun left => .iterate hR hstep left

theorem chains_along (ps : List Nat) (ho : Along fs R d operand operand') :
    Along fs R d (ps.foldr chain operand) (ps.foldr chain operand') := by
  induction ps with
  | nil => exact ho
  | cons p ps ih => exact chain_along hR p ih

variable (he : Along fs R d expression expression')

include he

theorem primary_along : Along fs R d (primary expression) (primary expression') := by
  refine .accept hR rfl (fun k hk => by simp [TokenKind.isInPhrase, hk]) (.fail hR _)
    fun t ht => ?_
  obtain hk | hk | hk | hk | hk | hk := TokenKind.startsPrimary_cases ht <;> simp only [hk]
  · exact .pure hR _
  · exact he.bind hR fun _ => (Along.demand hR rfl).bind hR fun _ => .pure hR _
  · exact (Along.demand hR rfl).bind hR fun _ => he.bind hR fun _ =>
      (Along.demand hR rfl).bind hR fun _ => .pure hR _
  all_goals exact .pure hR _

theorem arguments_along : Along fs R d (arguments expression) (arguments expression') := by
  have hnext : Along fs R d (nextArgument expression) (nextArgument expression') :=
    .acceptKind hR nofun rfl (.pure hR none) fun _ _ => he.map hR _
  refine .peek (p := (· == .rightParen)) (nextIs_eq nofun) fun b => ?_
  cases b with
  | true => exact .pure hR []
  | false => exact he.bind hR fun _ => (hnext.many hR).bind hR fun _ => .pure hR _

theorem finishCall_along (subject : Expr) :
    Along fs R d (finishCall expression subject) (finishCall expression' subject) :=
  (arguments_along hR he).bind hR fun _ => (Along.demand hR rfl).bind hR fun _ => .pure hR _

theorem suffix_along (subject : Expr) :
    Along fs R d (suffix expression subject) (suffix expression' subject) := by
  refine .accept hR rfl (fun k hk => by cases k <;> simp_all [TokenKind.isInPhrase])
    (.pure hR none) fun t ht => ?_
  obtain hk | hk : t.kind = .leftParen ∨ t.kind = .dot := by
    revert ht
    cases t.kind <;> simp
  · simp only [hk]
    exact (finishCall_along hR he subject).map hR some
  · simp only [hk]
    exact .accept hR rfl (fun k hk => by simp [TokenKind.isInPhrase, hk]) (.fail hR _)
      fun _ _ => .pure hR _

theorem callLevel_along : Along fs R d (callLevel expression) (callLevel expression') :=
  (primary_along hR he).bind hR fun subject => .iterate hR (suffix_along hR he) subject

variable (ho : Along fs R d operand operand')

include ho

theorem unary_along : Along fs R d (unary expression operand) (unary expression' operand') :=
  .accept hR rfl (fun k hk => by simp [TokenKind.isInPhrase, hk]) (callLevel_along hR he)
    fun _ _ => ho.map hR _

theorem assignment_along :
    Along fs R d (assignment expression operand) (assignment expression' operand') := by
  refine (chains_along hR _ (unary_along hR he ho)).bind hR fun target =>
    .acceptKind hR nofun rfl (.pure hR _) fun op _ => he.bind hR fun value => ?_
  cases target with
  | «variable» => exact .pure hR _
  | _ => exact .throw hR _

end Phrases

theorem upTo_along (hR : Passage (·.isInPhrase = true) R) (n d : Nat) :
    Along fs R d (expressionUpTo n : Rule g Expr) (expressionUpTo n) ∧
      Along fs R d (operandUpTo n : Rule g Expr) (operandUpTo n) := by
  induction n generalizing d with
  | zero =>
    constructor <;> intro s hs
    · rw [expressionUpTo]
      exact Along.fail hR _ s hs
    · rw [operandUpTo]
      exact Along.fail hR _ s hs
  | succ n ih =>
    obtain ⟨he, ho⟩ := ih (d + 1)
    simp only [expressionUpTo_succ, operandUpTo_succ]
    exact ⟨(assignment_along hR he ho).within hR, (unary_along hR he ho).within hR⟩

/-- At a depth, a rule does what it does with the levels that are left. -/
theorem Along.atDepth {α : Type} {upTo : Nat → Rule g α} (h : Along fs R d (upTo n) (upTo n))
    (hn : g.levels - d = n) : Along fs R d (upTo n) fun s => upTo (g.levels - s.depth) s := by
  intro s hs
  have heq : upTo (g.levels - (s.afterFaults fs).depth) (s.afterFaults fs) =
      upTo n (s.afterFaults fs) := by
    rw [show (s.afterFaults fs).depth = d from hs, hn]
  exact ⟨heq.trans (h s hs).1, (h s hs).2⟩

theorem Along.atDepth_self {α : Type} {upTo : Nat → Rule g α}
    (h : ∀ n, Along fs R d (upTo n) (upTo n)) :
    Along fs R d (fun s => upTo (g.levels - s.depth) s) fun s => upTo (g.levels - s.depth) s :=
  ((h _).atDepth rfl).self fun s hs => by rw [hs]

theorem expression_along (hR : Passage (·.isInPhrase = true) R) :
    Along fs R d (expression : Rule g Expr) expression :=
  .atDepth_self fun n => (upTo_along hR n d).1

theorem operand_along (hR : Passage (·.isInPhrase = true) R) :
    Along fs R d (operand : Rule g Expr) operand :=
  .atDepth_self fun n => (upTo_along hR n d).2

/-- A level is entered if there is one left, and what is in it has one level less. -/
theorem atDepth_eq_within {α : Type} {upTo : Nat → Rule g α} {r : Nat → Rule g α} {r' : Rule g α}
    (hzero : upTo 0 = Rule.fail (.tooDeep g.limit)) (hsucc : ∀ n, upTo (n + 1) = within (r n))
    (hr : ∀ n d, g.levels - d = n → Along [] (fun s t => t.depth = s.depth) d (r n) r') :
    (fun s => upTo (g.levels - s.depth) s) = within r' := by
  funext s
  cases hn : g.levels - s.depth with
  | zero =>
    unfold within
    rw [hzero, dif_neg (by omega)]
  | succ n =>
    have hdepth : Passage (fun _ => True) fun s t : State g => t.depth = s.depth := .sameDepth
    rw [hsucc]
    exact (((hr n (s.depth + 1) (by omega)).within hdepth).eq rfl).symm

section Clauses

variable {expression expression' : Rule g Expr} {statement statement' : Rule g Stmt}
  (hR : Passage (· ≠ .endOfFile) R)

include hR

theorem demand_along (e : Expectation) :
    Along fs R d (demand e : Rule g Token) (demand e) :=
  .demand hR e.kind_ne_endOfFile

variable (he : Along fs R d expression expression')

include he

theorem variableDeclaration_along :
    Along fs R d (variableDeclaration expression) (variableDeclaration expression') := by
  have hinitializer : Along fs R d (initializer expression) (initializer expression') :=
    .acceptKind hR nofun nofun (.pure hR none) fun _ _ => he.map hR _
  exact (demand_along hR _).bind hR fun _ => hinitializer.bind hR fun _ =>
    (demand_along hR _).bind hR fun _ => .pure hR _

theorem expressionStatement_along :
    Along fs R d (expressionStatement expression) (expressionStatement expression') :=
  he.bind hR fun _ => (demand_along hR _).bind hR fun _ => .pure hR _

theorem command_along (o c e : Expectation) (make : Expr → Stmt) :
    Along fs R d
      (do
        let _ ← demand o
        let x ← expression
        let _ ← demand c
        let _ ← demand e
        return make x)
      (do
        let _ ← demand o
        let x ← expression'
        let _ ← demand c
        let _ ← demand e
        return make x) :=
  (demand_along hR _).bind hR fun _ => he.bind hR fun _ => (demand_along hR _).bind hR fun _ =>
    (demand_along hR _).bind hR fun _ => .pure hR _

theorem save_along : Along fs R d (save expression) (save expression') :=
  (demand_along hR _).bind hR fun _ => he.bind hR fun _ => (demand_along hR _).bind hR fun _ =>
    he.bind hR fun _ => (demand_along hR _).bind hR fun _ => (demand_along hR _).bind hR fun _ =>
      .pure hR _

variable (hs : Along fs R d statement statement')

include hs

theorem conditional_along :
    Along fs R d (conditional expression statement) (conditional expression' statement') :=
  (demand_along hR _).bind hR fun _ => he.bind hR fun _ => (demand_along hR _).bind hR fun _ =>
    hs.bind hR fun _ => .acceptKind hR nofun nofun (.pure hR _) fun _ _ => hs.map hR _

theorem loop_along : Along fs R d (loop expression statement) (loop expression' statement') :=
  (demand_along hR _).bind hR fun _ => (demand_along hR _).bind hR fun _ =>
    (demand_along hR _).bind hR fun _ => he.bind hR fun _ => (demand_along hR _).bind hR fun _ =>
      hs.map hR _

variable (hresume : ∀ s t f, R s t →
  R s { t with ahead := Recovery.resume t.ahead, faults := t.faults ++ [f] })

include hresume

theorem declaration_along :
    Along fs R d (declaration expression statement) (declaration expression' statement') :=
  .recovering hresume
    (.acceptKind hR nofun nofun hs fun _ _ => variableDeclaration_along hR he)

theorem declarationsUntil_along {p : TokenKind → Bool} (hp : p .endOfFile = true) :
    Along fs R d (declarationsUntil p expression statement)
      (declarationsUntil p expression' statement') := by
  have hunless : Along fs R d (declarationUnless p expression statement)
      (declarationUnless p expression' statement') := by
    refine .peek (stopsAt_eq hp) fun b => ?_
    cases b with
    | true => exact .pure hR none
    | false => exact (declaration_along hR he hs hresume).map hR _
  exact (hunless.many hR).bind hR fun _ => .pure hR _

theorem block_along : Along fs R d (block expression statement) (block expression' statement') :=
  (declarationsUntil_along hR he hs hresume rfl).bind hR fun _ =>
    (demand_along hR _).bind hR fun _ => .pure hR _

theorem behind_along (word : TokenKind) :
    Along fs R d (behind word expression statement) (behind word expression' statement') := by
  unfold behind
  split
  · exact conditional_along hR he hs
  · exact loop_along hR he hs
  · exact block_along hR he hs hresume
  · exact command_along hR he _ _ _ _
  · exact save_along hR he
  · exact command_along hR he _ _ _ _

theorem form_along : Along fs R d (form expression statement) (form expression' statement') := by
  exact .accept hR rfl (fun k hk => TokenKind.ne_of_class hk rfl) (expressionStatement_along hR he)
    fun t _ => behind_along hR he hs hresume t.kind

end Clauses

section Statements

variable (hR : Passage (· ≠ .endOfFile) R) (hresume : ∀ s t f, R s t →
  R s { t with ahead := Recovery.resume t.ahead, faults := t.faults ++ [f] })

include hR hresume

theorem statementUpTo_along (n d : Nat) :
    Along fs R d (statementUpTo n : Rule g Stmt) (statementUpTo n) := by
  induction n generalizing d with
  | zero =>
    intro s hs
    rw [statementUpTo]
    exact Along.fail hR _ s hs
  | succ n ih =>
    rw [statementUpTo_succ]
    exact (form_along hR (upTo_along hR.inPhrases n (d + 1)).1 (ih (d + 1)) hresume).within hR

theorem statement_along : Along fs R d (statement : Rule g Stmt) statement :=
  .atDepth_self fun n => statementUpTo_along hR hresume n d

end Statements

theorem expression_eq_within :
    (expression : Rule g Expr) = within (assignment expression operand) :=
  atDepth_eq_within (funext fun s => by rw [expressionUpTo]) expressionUpTo_succ fun n d hn =>
    assignment_along .sameDepth ((upTo_along .sameDepth n d).1.atDepth hn)
      ((upTo_along .sameDepth n d).2.atDepth hn)

theorem operand_eq_within : (operand : Rule g Expr) = within (unary expression operand) :=
  atDepth_eq_within (funext fun s => by rw [operandUpTo]) operandUpTo_succ fun n d hn =>
    unary_along .sameDepth ((upTo_along .sameDepth n d).1.atDepth hn)
      ((upTo_along .sameDepth n d).2.atDepth hn)

theorem statement_eq_within : (statement : Rule g Stmt) = within (form expression statement) :=
  atDepth_eq_within (funext fun s => by rw [statementUpTo]) statementUpTo_succ fun n d hn =>
    form_along .sameDepth ((upTo_along .sameDepth n d).1.atDepth hn)
      ((statementUpTo_along .sameDepth (fun _ _ _ h => h) n d).atDepth hn) fun _ _ _ h => h

/-- The rules that begin a level of nesting. Whatever else calls itself does so through them. -/
structure Callees (g : Setting) where
  expression : Rule g Expr
  operand : Rule g Expr
  statement : Rule g Stmt

def Callees.ofGrammar : Callees g := ⟨Rule.expression, Rule.operand, Rule.statement⟩

/-- The routines that call each other, each with the type of what it returns. -/
inductive Routine : Type → Type
  | program : Routine (List Stmt)
  | declaration : Routine (Option Stmt)
  | variableDeclaration : Routine Stmt
  | statement : Routine Stmt
  | form : Routine Stmt
  | behind (word : TokenKind) : Routine Stmt
  | conditional : Routine Stmt
  | loop : Routine Stmt
  | block : Routine Stmt
  | fetch : Routine Stmt
  | save : Routine Stmt
  | print : Routine Stmt
  | expressionStatement : Routine Stmt
  | expression : Routine Expr
  | assignment : Routine Expr
  | level (p : Nat) : Routine Expr
  | operand : Routine Expr
  | unary : Routine Expr
  | callLevel : Routine Expr
  | suffix (subject : Expr) : Routine (Option Expr)
  | finishCall (subject : Expr) : Routine Expr
  | arguments : Routine (List Expr)
  | primary : Routine Expr

/-- What a routine does, given the rules that it calls. -/
def Routine.rule (c : Callees g) {α : Type} : Routine α → Rule g α
  | .program => declarationsUntil (· == .endOfFile) c.expression c.statement
  | .declaration => Rule.declaration c.expression c.statement
  | .variableDeclaration => Rule.variableDeclaration c.expression
  | .statement => c.statement
  | .form => Rule.form c.expression c.statement
  | .behind word => Rule.behind word c.expression c.statement
  | .conditional => Rule.conditional c.expression c.statement
  | .loop => Rule.loop c.expression c.statement
  | .block => Rule.block c.expression c.statement
  | .fetch => Rule.fetch c.expression
  | .save => Rule.save c.expression
  | .print => Rule.print c.expression
  | .expressionStatement => Rule.expressionStatement c.expression
  | .expression => c.expression
  | .assignment => Rule.assignment c.expression c.operand
  | .level p => Rule.level (Rule.unary c.expression c.operand) p
  | .operand => c.operand
  | .unary => Rule.unary c.expression c.operand
  | .callLevel => Rule.callLevel c.expression
  | .suffix subject => Rule.suffix c.expression subject
  | .finishCall subject => Rule.finishCall c.expression subject
  | .arguments => Rule.arguments c.expression
  | .primary => Rule.primary c.expression

/-- At a depth, the rules of two such families do the same and lead along a relation. -/
structure Callees.Along (fs : List SyntaxFault) (R : State g → State g → Prop) (d : Nat)
    (c c' : Callees g) : Prop where
  expression : Rule.Along fs R d c.expression c'.expression
  operand : Rule.Along fs R d c.operand c'.operand
  statement : Rule.Along fs R d c.statement c'.statement

section Names

variable {α : Type} (hR : Passage (· ≠ .endOfFile) R) (hresume : ∀ s t f, R s t →
  R s { t with ahead := Recovery.resume t.ahead, faults := t.faults ++ [f] })

include hR hresume

/-- Routines that call the same do the same. -/
theorem Routine.along (r : Routine α) {c c' : Callees g} (h : c.Along fs R d c') :
    Along fs R d (r.rule c) (r.rule c') := by
  have hphrase := hR.inPhrases
  obtain ⟨he, ho, hs⟩ := h
  cases r with
  | program => exact declarationsUntil_along hR he hs hresume rfl
  | declaration => exact declaration_along hR he hs hresume
  | variableDeclaration => exact variableDeclaration_along hR he
  | statement => exact hs
  | form => exact form_along hR he hs hresume
  | behind word => exact behind_along hR he hs hresume word
  | conditional => exact conditional_along hR he hs
  | loop => exact loop_along hR he hs
  | block => exact block_along hR he hs hresume
  | fetch => exact command_along hR he _ _ _ _
  | save => exact save_along hR he
  | print => exact command_along hR he _ _ _ _
  | expressionStatement => exact expressionStatement_along hR he
  | expression => exact he
  | assignment => exact assignment_along hphrase he ho
  | level p => exact chains_along hphrase _ (unary_along hphrase he ho)
  | operand => exact ho
  | unary => exact unary_along hphrase he ho
  | callLevel => exact callLevel_along hphrase he
  | suffix subject => exact suffix_along hphrase he subject
  | finishCall subject => exact finishCall_along hphrase he subject
  | arguments => exact arguments_along hphrase he
  | primary => exact primary_along hphrase he

theorem Callees.along_ofGrammar : ofGrammar.Along fs R d ofGrammar :=
  ⟨expression_along hR.inPhrases, operand_along hR.inPhrases, statement_along hR hresume⟩

theorem Routine.along_ofGrammar (r : Routine α) :
    Along fs R d (r.rule .ofGrammar) (r.rule .ofGrammar) :=
  r.along hR hresume (Callees.along_ofGrammar hR hresume)

theorem Routine.leads (r : Routine α) (s : State g) : R s (stateOf (r.rule .ofGrammar s)) := by
  have halong : Along [] R s.depth (r.rule .ofGrammar) (r.rule .ofGrammar) :=
    r.along_ofGrammar hR hresume
  exact (halong s rfl).2

end Names

/-- The faults found before have no part in what a routine does. -/
theorem Routine.afterFaults {α : Type} (r : Routine α) (fs : List SyntaxFault) (s : State g) :
    r.rule .ofGrammar (s.afterFaults fs) = Rule.afterFaults fs (r.rule .ofGrammar s) := by
  have hdepth : Passage (· ≠ .endOfFile) fun s t : State g => t.depth = s.depth := .sameDepth
  exact (r.along_ofGrammar hdepth (fun _ _ _ h => h) s rfl).1

end Rule

end ScrapeScript
