import ScrapeScript.Proofs.Grammar.Clause
import ScrapeScript.Proofs.Parser.ClausesRead
import ScrapeScript.Proofs.Parser.PhrasesMade

namespace ScrapeScript

/-- What no statement begins with: an alternative, or what ends a block or a program. -/
def TokenKind.startsNothing (k : TokenKind) : Bool := k matches elseWord | rightBrace | endOfFile

theorem TokenKind.not_startsNothing {k : TokenKind} (h : k.startsPhrase = true) :
    (k.startsNothing = false ∧ k ≠ .varWord) ∧ k.startsForm = false := by
  cases k <;> simp_all [startsPhrase, startsPrimary, isPrefixOperator, startsNothing, startsForm]

theorem TokenKind.ne_elseWord {k : TokenKind} (h : k.startsNothing = false) : k ≠ .elseWord := by
  rintro rfl
  cases h

/-- The first token of a clause tells whether it is a declaration. -/
def ClauseRule.Starts : ClauseRule → TokenKind → Prop
  | .statement, k => k.startsNothing = false ∧ k ≠ .varWord
  | .declaration, k => k.startsNothing = false
  | .declarations, _ => True

theorem Clause.starts {g : Grammar} {rule : ClauseRule} {ts : List Token} {x : rule.Tree}
    (h : Clause g rule ts x) (rest : List Token) : rule.Starts (nextKind (ts ++ rest)) := by
  induction h with
  | expression he =>
    rw [List.append_assoc]
    exact (TokenKind.not_startsNothing (he.starts _)).1
  | ifThen hw | ifElse hw | loop hw | block hw | fetch hw | save hw | print hw =>
    rw [List.cons_append, nextKind_cons, hw]
    exact ⟨rfl, by decide⟩
  | declare hw | define hw =>
    rw [List.cons_append, nextKind_cons, hw]
    rfl
  | statement _ ih => exact ih.1
  | nothing | next => trivial

namespace Rule

variable {g : Setting} {target : Expr → Prop} {expression : Rule g Expr} {statement : Rule g Stmt}
  {d p : Nat} {ts us vs : List Token} {k : TokenKind} {c e f : Expr} {s t : Stmt}

theorem expressionStatement_made {stop : Token} (he : Makes expression d ts e .semicolon)
    (hs : stop.kind = .semicolon) :
    Makes (expressionStatement expression) d (ts ++ [stop]) (.expression e) k :=
  he.bind (.demand hs (.pure _)) fun _ _ => hs

theorem declare_made {name stop : Token} (hn : name.kind = .identifier)
    (hs : stop.kind = .semicolon) :
    Makes (variableDeclaration expression) d [name, stop] (.declare name none) k := by
  have hnone : Makes (initializer expression) d [] none stop.kind :=
    .accept_none (fun v hv => by simp [hv, hs]) (.pure none)
  have hrest := Makes.pure (g := g) (d := d) (k := k) (Stmt.declare name none)
  exact .demand hn (hnone.bind (.demand hs hrest) fun _ _ => rfl)

theorem define_made {name equals stop : Token} (hn : name.kind = .identifier)
    (heq : equals.kind = .equals) (he : Makes expression d ts e .semicolon)
    (hs : stop.kind = .semicolon) :
    Makes (variableDeclaration expression) d (name :: equals :: (ts ++ [stop]))
      (.declare name (some e)) k := by
  have hsome : Makes (initializer expression) d (equals :: ts) (some e) .semicolon :=
    .accept_some (by simp [heq]) he.map
  exact .demand hn (hsome.bind (.demand hs (.pure _)) fun _ _ => hs)

theorem ifThen_made {opening closing : Token} (ho : opening.kind = .leftParen)
    (hc : Makes expression d ts c .rightParen) (hr : closing.kind = .rightParen)
    (hs : Makes statement d us s k) (hk : k ≠ .elseWord) :
    Makes (conditional expression statement) d (opening :: (ts ++ closing :: us))
      (.ifThen c s) k :=
  .demand ho (hc.bind (.demand hr (hs.bind_nil
    (.accept_none (fun v hv => by simpa [hv] using hk) (.pure _)))) fun _ _ => hr)

theorem ifElse_made {opening closing other : Token} (ho : opening.kind = .leftParen)
    (hc : Makes expression d ts c .rightParen) (hr : closing.kind = .rightParen)
    (hs : Makes statement d us s .elseWord) (hother : other.kind = .elseWord)
    (ht : Makes statement d vs t k) :
    Makes (conditional expression statement) d
      (opening :: (ts ++ closing :: (us ++ other :: vs))) (.ifElse c s t) k :=
  .demand ho (hc.bind (.demand hr (hs.bind (.accept_some (by simp [hother]) ht.map)
    fun _ _ => hother)) fun _ _ => hr)

theorem loop_made {opening item inside closing : Token} (ho : opening.kind = .leftParen)
    (hi : item.kind = .identifier) (hin : inside.kind = .inWord)
    (he : Makes expression d ts e .rightParen) (hr : closing.kind = .rightParen)
    (hs : Makes statement d us s k) :
    Makes (loop expression statement) d (opening :: item :: inside :: (ts ++ closing :: us))
      (.loop item e s) k :=
  .demand ho (.demand hi (.demand hin (he.bind (.demand hr hs.map) fun _ _ => hr)))

theorem command_made {o c e : Expectation} (ho : o.kind = .leftParen) (hc : c.kind = .rightParen)
    (he : e.kind = .semicolon) {make : Expr → Stmt} {opening closing stop : Token} {x : Expr}
    (ho' : opening.kind = .leftParen) (hx : Makes expression d ts x .rightParen)
    (hc' : closing.kind = .rightParen) (hs' : stop.kind = .semicolon) :
    Makes (do
      let _ ← demand o
      let x ← expression
      let _ ← demand c
      let _ ← demand e
      return make x) d (opening :: (ts ++ [closing, stop])) (make x) k :=
  .demand (ho'.trans ho.symm) (hx.bind (.demand (hc'.trans hc.symm)
    (.demand (hs'.trans he.symm) (.pure _))) fun _ _ => hc')

theorem save_made {opening comma closing stop : Token} (ho : opening.kind = .leftParen)
    (he : Makes expression d ts e .comma) (hm : comma.kind = .comma)
    (hf : Makes expression d us f .rightParen) (hc : closing.kind = .rightParen)
    (hs : stop.kind = .semicolon) :
    Makes (save expression) d (opening :: (ts ++ comma :: (us ++ [closing, stop]))) (.save e f) k :=
  .demand ho (he.bind (.demand hm (hf.bind (.demand hc (.demand hs (.pure _))) fun _ _ => hc))
    fun _ _ => hm)

theorem declarationsUntil_made {q : TokenKind → Bool} {ss : List Stmt}
    (h : ∀ n, ts.length ≤ n →
      Makes (manyUpTo (declarationUnless q expression statement) n) d ts (ss.map some) k) :
    Makes (declarationsUntil q expression statement) d ts ss k :=
  (Makes.many h).bind_nil (by simpa using Makes.pure ss)

theorem block_made {closing : Token} {ss : List Stmt}
    (h : ∀ n, ts.length ≤ n →
      Makes (manyUpTo (declarationUnless (fun k => k matches .rightBrace | .endOfFile)
        expression statement) n) d ts (ss.map some) .rightBrace)
    (hc : closing.kind = .rightBrace) :
    Makes (block expression statement) d (ts ++ [closing]) (.block ss) k :=
  (declarationsUntil_made h).bind (.demand hc (.pure _)) fun _ _ => hc

/-- Rules for what stands deeper that are the same at a depth as those with so many levels left. -/
structure Agree (h d : Nat) (expression : Rule g Expr) (statement : Rule g Stmt) : Prop where
  expression : ∀ s, s.depth = d → expression s = expressionUpTo h s
  statement : ∀ s, s.depth = d → statement s = statementUpTo h s

/-- Declarations end where nothing or a token that ends a block is next. -/
structure Closes (p : TokenKind → Bool) : Prop where
  endOfFile : p .endOfFile = true
  eq_false : ∀ k : TokenKind, k.startsNothing = false → p k = false
  ne_elseWord : ∀ k, p k = true → k ≠ .elseWord

theorem closes_block : Closes fun k => k matches .rightBrace | .endOfFile := by
  refine ⟨rfl, fun k => ?_, fun k hk => ?_⟩
  · cases k <;> simp [TokenKind.startsNothing]
  · rintro rfl
    cases hk

theorem closes_program : Closes (· == .endOfFile) := by
  refine ⟨rfl, fun k => ?_, fun k hk => ?_⟩
  · cases k <;> simp [TokenKind.startsNothing]
  · rintro rfl
    cases hk

def MadeClause (g : Setting) (h d : Nat) : (rule : ClauseRule) → List Token → rule.Tree → Prop
  | .statement, ts, s => Stmt.need s ≤ h → ∀ k, (Stmt.EndsOpen s → k ≠ .elseWord) →
    Makes (statementUpTo h : Rule g Stmt) d ts s k
  | .declaration, ts, s => Stmt.need s ≤ h → ∀ k, (Stmt.EndsOpen s → k ≠ .elseWord) →
    ∀ (x : Rule g Expr) (st : Rule g Stmt), Agree h d x st →
      Makes (declaration x st) d ts (some s) k
  | .declarations, ts, ss => Stmt.needOfAll ss ≤ h → ∀ p k, Closes p → p k = true →
    ∀ (x : Rule g Expr) (st : Rule g Stmt), Agree h d x st → ∀ n, ts.length ≤ n →
      Makes (manyUpTo (declarationUnless p x st) n) d ts (ss.map some) k

theorem phrase_made {h : Nat} (he : Phrase Expr.IsVariable .expression ts e)
    (hneed : e.need + 1 ≤ h) (hd : d + h ≤ g.levels) (hk : k.endsExpression = true) :
    Makes (expressionUpTo h : Rule g Expr) d ts e k :=
  expressionUpTo_made (made_of_phrase he) hneed hd hk

/-- A statement is made one level further in. -/
theorem statementUpTo_made {h n : Nat} (hneed : n + 1 ≤ h) (hd : d + h ≤ g.levels)
    (hform : ∀ m, n ≤ m → d + 1 + m ≤ g.levels →
      Makes (form (expressionUpTo m) (statementUpTo m) : Rule g Stmt) (d + 1) ts s k) :
    Makes (statementUpTo h : Rule g Stmt) d ts s k := by
  obtain ⟨m, rfl⟩ : ∃ m, h = m + 1 := ⟨h - 1, by omega⟩
  rw [statementUpTo_succ]
  exact .within (by omega) (hform m (by omega) (by omega))

/-- What is left of a statement behind its first word. -/
def behind (word : TokenKind) (expression : Rule g Expr) (statement : Rule g Stmt) : Rule g Stmt :=
  match word with
  | .ifWord => conditional expression statement
  | .forWord => loop expression statement
  | .leftBrace => block expression statement
  | .fetch => fetch expression
  | .save => save expression
  | _ => print expression

theorem worded_made {h n : Nat} {word : Token} {j : TokenKind} (hw : word.kind = j)
    (hj : j.startsForm = true) (hneed : n + 1 ≤ h) (hd : d + h ≤ g.levels)
    (hform : ∀ m, n ≤ m → d + 1 + m ≤ g.levels →
      Makes (behind j (expressionUpTo m) (statementUpTo m) : Rule g Stmt) (d + 1) ts s k) :
    Makes (statementUpTo h : Rule g Stmt) d (word :: ts) s k := by
  subst hw
  exact statementUpTo_made hneed hd fun m hm hd => .accept_some hj (hform m hm hd)

/-- Behind a declaration is another one, or what ends all of them. -/
theorem exists_nextKind_declarations {g : Grammar} {ss : List Stmt}
    (h : Clause g .declarations ts ss) (hk : k ≠ .elseWord) :
    ∃ j : TokenKind, j ≠ .elseWord ∧ ∀ v, nextKind v = k → nextKind (ts ++ v) = j := by
  cases h with
  | nothing => exact ⟨k, hk, fun v hv => hv⟩
  | @next us vs _ _ hs =>
    cases us with
    | nil => exact absurd rfl (hs.ne_nil nofun)
    | cons t us =>
      exact ⟨t.kind, TokenKind.ne_elseWord (hs.starts []), fun v _ => rfl⟩

theorem madeClause_of_clause {rule : ClauseRule} {x : rule.Tree} (hx : Clause .nearest rule ts x)
    {h : Nat} (hd : d + h ≤ g.levels) : MadeClause g h d rule ts x := by
  -- A statement that ends open is made before any token but an alternative, which it would take.
  induction hx generalizing h d with
  | expression he hs =>
    intro hneed k _
    rw [Stmt.need] at hneed
    refine statementUpTo_made hneed hd fun m hm hd => .accept_none (fun v _ => ?_)
      (expressionStatement_made (phrase_made he hm hd rfl) hs)
    rw [List.append_assoc]
    exact (TokenKind.not_startsNothing (he.starts _)).2
  | ifThen hw ho hc hr _ ih =>
    intro hneed k hk
    rw [Stmt.need] at hneed
    refine worded_made hw rfl hneed hd fun m hm hd => ?_
    have hk : k ≠ .elseWord := hk trivial
    exact ifThen_made ho (phrase_made hc (by omega) hd rfl) hr (ih hd (by omega) k fun _ => hk) hk
  | ifElse hw ho hc hr _ hopen hother _ ihs iht =>
    intro hneed k hk
    rw [Stmt.need] at hneed
    refine worded_made hw rfl hneed hd fun m hm hd => ?_
    -- The branch leaves the alternative alone because it does not end open.
    have hs := ihs hd (by omega) .elseWord fun h => absurd h hopen
    exact ifElse_made ho (phrase_made hc (by omega) hd rfl) hr hs hother (iht hd (by omega) k hk)
  | loop hw ho hi hin he hr _ ih =>
    intro hneed k hk
    rw [Stmt.need] at hneed
    refine worded_made hw rfl hneed hd fun m hm hd => ?_
    exact loop_made ho hi hin (phrase_made he (by omega) hd rfl) hr (ih hd (by omega) k hk)
  | block hw _ hc ih =>
    intro hneed k _
    rw [Stmt.need] at hneed
    refine worded_made hw rfl hneed hd fun m hm hd => ?_
    exact block_made (ih hd hm _ _ closes_block rfl _ _ ⟨fun _ _ => rfl, fun _ _ => rfl⟩) hc
  | fetch hw ho he hc hs =>
    intro hneed k _
    rw [Stmt.need] at hneed
    refine worded_made hw rfl hneed hd fun m hm hd => ?_
    exact command_made rfl rfl rfl ho (phrase_made he hm hd rfl) hc hs
  | @save _ _ e f _ _ _ _ _ hw ho hd' hm' he hc hs =>
    intro hneed k _
    rw [Stmt.need, Nat.add_max_add_right _ _ 1] at hneed
    refine worded_made hw rfl hneed hd fun m hm hd => ?_
    have hleft : Makes (expressionUpTo m : Rule g Expr) _ _ e .comma :=
      phrase_made hd' (by omega) hd rfl
    have hright : Makes (expressionUpTo m : Rule g Expr) _ _ f .rightParen :=
      phrase_made he (by omega) hd rfl
    exact save_made ho hleft hm' hright hc hs
  | print hw ho he hc hs =>
    intro hneed k _
    rw [Stmt.need] at hneed
    refine worded_made hw rfl hneed hd fun m hm hd => ?_
    exact command_made rfl rfl rfl ho (phrase_made he hm hd rfl) hc hs
  | declare hw hn hs =>
    intro _ k _ x st _
    exact .recovering (.accept_some (by simp [hw]) (declare_made hn hs))
  | define hw hn heq he hs =>
    intro hneed k _ x st hx
    rw [Stmt.need] at hneed
    have he := (phrase_made (k := .semicolon) he hneed hd rfl).congr hx.expression
    exact .recovering (.accept_some (by simp [hw]) (define_made hn heq he hs))
  | statement hs ih =>
    intro hneed k hk x st hx
    have hmade := (ih hd hneed k hk).congr hx.statement
    exact .recovering (.accept_none (fun v _ => by simpa using (hs.starts v).2) hmade)
  | nothing =>
    intro _ p k hp hk x st _ n _
    refine .manyUpTo_stop
      (.peek (c := true) (stopsAt_eq hp.endOfFile) (fun v hv => ?_) (.pure none))
    rw [List.nil_append, hv, hk]
  | @next us _ s _ hs hss ihs ihss =>
    intro hneed p k hp hk x st hx n hn
    rw [Stmt.needOfAll, Nat.max_le] at hneed
    -- No declaration begins with an alternative, so one that ends open may stand before another.
    obtain ⟨j, hj, hnext⟩ := exists_nextKind_declarations hss (hp.ne_elseWord k hk)
    have hmade := ihs hd hneed.1 j (fun _ => hj) x st hx
    have hpeek : Makes (declarationUnless p x st) d us (some (some s)) j := by
      refine .peek (c := false) (stopsAt_eq hp.endOfFile) (fun v _ => ?_) hmade.map
      exact hp.eq_false _ (hs.starts _)
    exact hpeek.manyUpTo_next (hs.ne_nil nofun) (ihss hd hneed.2 p k hp hk x st hx) hnext hn

/-- At each depth there are the levels that are left. -/
theorem agree_depth (d : Nat) :
    Agree (g.levels - d) d (Rule.expression : Rule g Expr) Rule.statement where
  expression s hs := by rw [Rule.expression, hs]
  statement s hs := by rw [Rule.statement, hs]

theorem agree_levels : Agree g.levels 0 (Rule.expression : Rule g Expr) Rule.statement :=
  agree_depth 0

theorem expression_made (he : Phrase Expr.IsVariable .expression ts e)
    (hneed : d + (e.need + 1) ≤ g.levels) (hk : k.endsExpression = true) :
    Makes (Rule.expression : Rule g Expr) d ts e k :=
  (phrase_made he (h := g.levels - d) (by omega) (by omega) hk).congr (agree_depth d).expression

theorem statement_made (hs : Clause .nearest .statement ts s) (hneed : d + s.need ≤ g.levels)
    (hk : s.EndsOpen → k ≠ .elseWord) : Makes (Rule.statement : Rule g Stmt) d ts s k := by
  have hd : d + (g.levels - d) ≤ g.levels := by omega
  exact (madeClause_of_clause hs hd (by omega) k hk).congr (agree_depth d).statement

theorem declaration_made (hs : Clause .nearest .declaration ts s) (hneed : d + s.need ≤ g.levels)
    (hk : s.EndsOpen → k ≠ .elseWord) :
    Makes (declaration (Rule.expression : Rule g Expr) Rule.statement) d ts (some s) k := by
  have hd : d + (g.levels - d) ≤ g.levels := by omega
  exact madeClause_of_clause hs hd (by omega) k hk _ _ (agree_depth d)

/-- A program that needs no more levels than there are is made before an end of file. -/
theorem program_made {ss : List Stmt} (h : Grammar.nearest.Program ts ss)
    (hneed : Stmt.needOfAll ss ≤ g.levels) :
    Makes (program : Rule g (List Stmt)) 0 ts ss .endOfFile := by
  have hd : 0 + g.levels ≤ g.levels := by omega
  exact declarationsUntil_made
    (madeClause_of_clause h hd hneed _ .endOfFile closes_program rfl _ _ agree_levels)

end Rule

end ScrapeScript
