import ScrapeScript.Proofs.Grammar.Omission
import ScrapeScript.Proofs.Parser.Routines

namespace ScrapeScript

/-- The place of the semicolon of a statement. -/
def Stmt.stop : Stmt → Expectation
  | .declare _ _ => .semicolonAfterDeclaration
  | .fetch _ => .semicolonAfterFetch
  | .save _ _ => .semicolonAfterSave
  | .print _ => .semicolonAfterPrint
  | _ => .semicolonAfterExpression

theorem Unstopped.starts {us : List Token} {s : Stmt} (h : Unstopped us s) (rest : List Token) :
    (nextKind (us ++ rest)).startsNothing = false := by
  cases h with
  | expression he => exact (TokenKind.not_startsNothing (he.starts rest)).1.1
  | fetch hw | save hw | print hw | declare hw | define hw =>
    rw [List.cons_append, nextKind_cons, hw]
    rfl

namespace Rule

variable {g : Setting} {α β : Type}

/-- Read at a depth, these tokens are all right, and the next one after them is refused if it is of
kind `k`. -/
def Misses (r : Rule g α) (depth : Nat) (ts : List Token) (e : Expectation) (k : TokenKind) :
    Prop :=
  ∀ s v, s.depth = depth → s.ahead = ts ++ v → nextKind v = k →
    r s = .error ⟨.missing e, v.headD g.final⟩ { s with ahead := v }

namespace Misses

variable {d : Nat} {ts us : List Token} {a : α} {e : Expectation} {j k : TokenKind}

theorem demand {f : Token → Rule g β} (hk : k ≠ e.kind) :
    Misses (Rule.demand e >>= f) d [] e k := by
  intro s v _ hv hnext
  obtain rfl : s.ahead = v := hv
  exact bind_of_error (demand_eq_error (hnext ▸ hk))

theorem after_made {x : Rule g α} {f : α → Rule g β} (hx : Makes x d ts a j)
    (hf : Misses (f a) d us e k) (hj : ∀ v, nextKind v = k → nextKind (us ++ v) = j) :
    Misses (x >>= f) d (ts ++ us) e k := by
  intro s v hs hv hk
  rw [List.append_assoc] at hv
  rw [bind_of_ok (hx s (us ++ v) hs hv (hj v hk))]
  exact hf _ v hs rfl hk

/-- The token that is missing has its place right behind what is made. -/
theorem behind_made {x : Rule g α} {f : α → Rule g β} (hx : Makes x d ts a k)
    (hf : Misses (f a) d [] e k) : Misses (x >>= f) d ts e k := by
  have h := after_made hx hf fun _ hv => hv
  rwa [List.append_nil] at h

section Tokens

variable {p : TokenKind → Bool} {f : Option Token → Rule g β} {t : Token}

theorem accept_some (ht : p t.kind = true) (hf : Misses (f (some t)) d ts e k) :
    Misses (Rule.accept p >>= f) d (t :: ts) e k := by
  intro s v hs hv hk
  rw [accept_bind_some hv ht]
  exact hf { s with ahead := ts ++ v } v hs rfl hk

theorem accept_none (hp : ∀ v, nextKind v = k → p (nextKind (ts ++ v)) = false)
    (hf : Misses (f none) d ts e k) : Misses (Rule.accept p >>= f) d ts e k := by
  intro s v hs hv hk
  rw [accept_bind_none (hv ▸ hp v hk)]
  exact hf s v hs hv hk

theorem read {o : Expectation} {f : Token → Rule g β} (ht : t.kind = o.kind)
    (hf : Misses (f t) d ts e k) : Misses (Rule.demand o >>= f) d (t :: ts) e k := by
  intro s v hs hv hk
  rw [bind_of_ok (demand_eq_ok hv ht)]
  exact hf { s with ahead := ts ++ v } v hs rfl hk

end Tokens

theorem within {r : Rule g α} (hd : d < g.levels) (h : Misses r (d + 1) ts e k) :
    Misses (Rule.within r) d ts e k := by
  intro s v hs hv hk
  subst hs
  have hr := h (s.enter hd) v rfl hv hk
  unfold Rule.within
  rw [dif_pos hd, hr]
  rfl

/-- Recovery goes on behind the token that is refused. -/
theorem recovering {r : Rule g α} (h : Misses r d ts e k) {s : State g} {v : List Token}
    (hs : s.depth = d) (hv : s.ahead = ts ++ v) (hk : nextKind v = k) :
    Rule.recovering r s = .ok none { s with
      ahead := Recovery.resume v, faults := s.faults ++ [⟨.missing e, v.headD g.final⟩] } := by
  unfold Rule.recovering
  rw [h s v hs hv hk]

end Misses

section Clauses

variable {d : Nat} {ts us : List Token} {x y : Expr} {k : TokenKind} {s : Stmt}

theorem expressionStatement_misses (hx : Makes (expression : Rule g Expr) d ts x k)
    (hk : k ≠ .semicolon) : Misses (expressionStatement (expression : Rule g Expr)) d ts
      .semicolonAfterExpression k :=
  .behind_made hx (.demand hk)

theorem declare_misses {name : Token} (hn : name.kind = .identifier) (heq : k ≠ .equals)
    (hk : k ≠ .semicolon) : Misses (variableDeclaration (expression : Rule g Expr)) d [name]
      .semicolonAfterDeclaration k := by
  have hnone : Makes (initializer (expression : Rule g Expr)) d [] none k :=
    .accept_none (fun v hv => by simpa [hv] using heq) (.pure none)
  exact .read hn (.behind_made hnone (.demand hk))

theorem define_misses {name equals : Token} (hn : name.kind = .identifier)
    (heq : equals.kind = .equals) (hx : Makes (expression : Rule g Expr) d ts x k)
    (hk : k ≠ .semicolon) : Misses (variableDeclaration (expression : Rule g Expr)) d
      (name :: equals :: ts) .semicolonAfterDeclaration k := by
  have hsome : Makes (initializer (expression : Rule g Expr)) d (equals :: ts) (some x) k :=
    .accept_some (by simp [heq]) hx.map
  exact .read hn (.behind_made hsome (.demand hk))

theorem command_misses {o c e : Expectation} (ho : o.kind = .leftParen) (hc : c.kind = .rightParen)
    (he : e.kind = .semicolon) {make : Expr → Stmt} {opening closing : Token}
    (ho' : opening.kind = .leftParen) (hx : Makes (expression : Rule g Expr) d ts x .rightParen)
    (hc' : closing.kind = .rightParen) (hk : k ≠ .semicolon) :
    Misses (do
      let _ ← demand o
      let x ← (expression : Rule g Expr)
      let _ ← demand c
      let _ ← demand e
      return make x) d (opening :: (ts ++ [closing])) e k :=
  .read (ho'.trans ho.symm) (.after_made hx (.read (hc'.trans hc.symm) (.demand (he ▸ hk)))
    fun _ _ => hc')

theorem save_misses {opening comma closing : Token} (ho : opening.kind = .leftParen)
    (hx : Makes (expression : Rule g Expr) d ts x .comma) (hm : comma.kind = .comma)
    (hy : Makes (expression : Rule g Expr) d us y .rightParen) (hc : closing.kind = .rightParen)
    (hk : k ≠ .semicolon) : Misses (save (expression : Rule g Expr)) d
      (opening :: (ts ++ comma :: (us ++ [closing]))) .semicolonAfterSave k :=
  .read ho (.after_made hx (.read hm (.after_made hy (.read hc (.demand hk)) fun _ _ => hc))
    fun _ _ => hm)

theorem worded_misses {e : Expectation} {word : Token} {j : TokenKind} (hw : word.kind = j)
    (hj : j.startsForm = true) (hd : d < g.levels)
    (h : Misses (behind j expression statement : Rule g Stmt) (d + 1) ts e k) :
    Misses (statement : Rule g Stmt) d (word :: ts) e k := by
  subst hw
  rw [statement_eq_within]
  exact .within hd (.accept_some hj h)

/-- Where anything but its semicolon comes after a statement, that is refused. -/
theorem misses_of_unstopped (h : Unstopped us s) (hneed : d + s.need ≤ g.levels)
    (hends : k.endsExpression = true) (hk : k ≠ .semicolon) :
    Misses (do
      match ← acceptKind .varWord with
      | some _ => variableDeclaration expression
      | none => statement : Rule g Stmt) d us s.stop k := by
  cases h with
  | expression he =>
    rw [Stmt.need] at hneed
    have hmade := expression_made he (g := g) (d := d + 1) (by omega) hends
    have hform : Misses (form expression statement : Rule g Stmt) (d + 1) us
        .semicolonAfterExpression k :=
      .accept_none (fun v _ => (TokenKind.not_startsNothing (he.starts v)).2)
        (expressionStatement_misses hmade hk)
    refine .accept_none (fun v _ => ?_) ?_
    · simpa using (TokenKind.not_startsNothing (he.starts v)).1.2
    · rw [statement_eq_within]
      exact .within (by omega) hform
  | fetch hw ho he hc | print hw ho he hc =>
    rw [Stmt.need] at hneed
    have hmade := expression_made he (g := g) (d := d + 1) (k := .rightParen) (by omega) rfl
    exact .accept_none (fun v _ => by simp [hw]) (worded_misses hw rfl (by omega)
      (command_misses rfl rfl rfl ho hmade hc hk))
  | save hw ho hx hm hy hc =>
    rw [Stmt.need] at hneed
    have hdata := expression_made hx (g := g) (d := d + 1) (k := .comma) (by omega) rfl
    have htarget := expression_made hy (g := g) (d := d + 1) (k := .rightParen) (by omega) rfl
    exact .accept_none (fun v _ => by simp [hw]) (worded_misses hw rfl (by omega)
      (save_misses ho hdata hm htarget hc hk))
  | declare hw hn =>
    have hequals : k ≠ .equals := by
      rintro rfl
      cases hends
    exact .accept_some (by simp [hw]) (declare_misses hn hequals hk)
  | define hw hn heq he =>
    rw [Stmt.need] at hneed
    have hmade := expression_made he (g := g) (d := d) (by omega) hends
    exact .accept_some (by simp [hw]) (define_misses hn heq hmade hk)

end Clauses

end Rule

end ScrapeScript
