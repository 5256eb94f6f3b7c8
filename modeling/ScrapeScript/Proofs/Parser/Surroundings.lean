import ScrapeScript.Proofs.Grammar.Omission
import ScrapeScript.Proofs.Parser.Progress

namespace ScrapeScript

namespace Omission

variable {s : Stmt} {pre post v : List Token}

theorem starts {a a' : Stmt} (h : Omission s .statement pre post a a') (v : List Token) :
    ClauseRule.Starts .statement (nextKind (pre ++ v)) := by
  cases h with
  | block hw | ifThen hw | thenBranch hw | elseBranch hw | loop hw =>
    rw [List.cons_append, nextKind_cons, hw]
    exact ⟨rfl, by decide⟩

theorem nextKind_ne_elseWord {ss ss' : List Stmt} (h : Omission s .declarations pre post ss ss')
    (hv : nextKind v ≠ .elseWord) : nextKind (pre ++ v) ≠ .elseWord := by
  cases h with
  | here => exact hv
  | later ha =>
    rw [List.append_assoc]
    exact TokenKind.ne_elseWord (ha.starts _)
  | inside ha => exact TokenKind.ne_elseWord (ha.starts v).1

end Omission

namespace Rule

variable {g : Setting} {α β : Type}

/-- How a run ends. -/
abbrev Outcome (g : Setting) (α : Type) : Type := EStateM.Result SyntaxFault (State g) α

/-- A rule leaves the depth as it is, and the faults found before have no part in what it does. -/
abbrev Heedless (r : Rule g α) : Prop :=
  ∀ fs d, Along fs (fun s t : State g => t.depth = s.depth) d r r

theorem depth_passage : Passage (· ≠ .endOfFile) fun s t : State g => t.depth = s.depth :=
  .sameDepth

theorem statement_heedless : Heedless (statement : Rule g Stmt) :=
  fun _ _ => statement_along depth_passage fun _ _ _ h => h

theorem declarationsUntil_heedless {p : TokenKind → Bool} (hp : p .endOfFile = true) :
    Heedless (declarationsUntil p expression statement : Rule g (List Stmt)) := fun _ _ =>
  declarationsUntil_along depth_passage (expression_along .sameDepth) (statement_heedless _ _)
    (fun _ _ _ h => h) hp

/-- What a rule makes of how a part of it ends. The faults found before have no part in it. -/
def Surrounds (k : Outcome g α → Outcome g β) : Prop :=
  ∀ fs o, k (afterFaults fs o) = afterFaults fs (k o)

namespace Outcome

/-- A rule goes on from where a part of it ends, if that does not fail. -/
def goOn (f : α → Rule g β) : Outcome g α → Outcome g β
  | .ok a t => f a t
  | .error e t => .error e t

def leave : Outcome g α → Outcome g α
  | .ok a t => .ok a t.leave
  | .error e t => .error e t.leave

def recover : Outcome g α → Outcome g (Option α)
  | .ok a t => .ok (some a) t
  | .error f t =>
    .ok none { t with ahead := Recovery.resume t.ahead, faults := t.faults ++ [f] }

end Outcome

namespace Surrounds

theorem goOn {f : α → Rule g β} (hf : ∀ a, Heedless (f a)) : Surrounds (Outcome.goOn f) := by
  intro fs o
  cases o with
  | ok a t => exact (hf a fs t.depth t rfl).1
  | error e t => rfl

theorem leave : Surrounds (Outcome.leave : Outcome g α → Outcome g α) := by
  intro fs o
  cases o <;> rfl

theorem recover : Surrounds (Outcome.recover : Outcome g α → Outcome g (Option α)) := by
  intro fs o
  cases o with
  | ok a t => rfl
  | error f t => simp only [Outcome.recover, afterFaults, State.afterFaults, List.append_assoc]

/-- Whatever surrounds a part, the faults of the part come first. -/
theorem faults_prefix {k : Outcome g α → Outcome g β} (hk : Surrounds k) (a : α) (t : State g) :
    t.faults <+: faultsOf (k (.ok a t)) := by
  have hfirst : (.ok a t : Outcome g α) = afterFaults t.faults (.ok a { t with faults := [] }) := by
    simp [afterFaults, State.afterFaults]
  rw [hfirst, hk]
  cases k (.ok a { t with faults := [] }) <;> simp [afterFaults, faultsOf, State.afterFaults]

end Surrounds

/-- Behind these tokens a rule reads declarations, at a depth of their own. Whatever comes there,
save an alternative, what the rule makes depends only on how the declarations end. -/
def Encloses (r : Rule g α) (depth : Nat) (ts : List Token) (inner : Nat) : Prop :=
  ∃ (p : TokenKind → Bool) (k : Outcome g (List Stmt) → Outcome g α), Closes p ∧ Surrounds k ∧
    ∀ s v, s.depth = depth → s.ahead = ts ++ v → nextKind v ≠ .elseWord →
      ∃ t : State g, t.depth = inner ∧ t.ahead = v ∧ t.faults = s.faults ∧
        r s = k (declarationsUntil p expression statement t)

namespace Encloses

variable {r x : Rule g α} {d inner : Nat} {ts us : List Token}

theorem declarationsUntil {p : TokenKind → Bool} (hp : Closes p) :
    Encloses (Rule.declarationsUntil p expression statement : Rule g (List Stmt)) d [] d :=
  ⟨p, fun o => o, hp, fun _ _ => rfl, fun s _ hs hv _ => ⟨s, hs, hv, rfl, rfl⟩⟩

theorem congr {r' : Rule g α} (h : Encloses r d ts inner) (hr : ∀ s v, s.depth = d →
    s.ahead = ts ++ v → nextKind v ≠ .elseWord → r' s = r s) : Encloses r' d ts inner := by
  obtain ⟨p, k, hp, hk, h⟩ := h
  refine ⟨p, k, hp, hk, fun s v hs hv hne => ?_⟩
  rw [hr s v hs hv hne]
  exact h s v hs hv hne

theorem of_surrounds {r' : Rule g β} {k : Outcome g α → Outcome g β} {d' : Nat}
    (h : Encloses r d' ts inner) (hk : Surrounds k)
    (hr : ∀ s, s.depth = d → ∃ t : State g, t.depth = d' ∧ t.ahead = s.ahead ∧
      t.faults = s.faults ∧ r' s = k (r t)) : Encloses r' d ts inner := by
  obtain ⟨p, k', hp, hk', h⟩ := h
  refine ⟨p, fun o => k (k' o), hp, fun fs o => ?_, fun s v hs hv hne => ?_⟩
  · simp only [hk' fs o, hk fs (k' o)]
  · obtain ⟨t, htd, hta, htf, heq⟩ := hr s hs
    obtain ⟨u, hud, hua, huf, heq'⟩ := h t v htd (hta.trans hv) hne
    exact ⟨u, hud, hua, huf.trans htf, by rw [heq, heq']⟩

/-- What comes after the declarations surrounds them. -/
theorem bind {f : α → Rule g β} (h : Encloses x d ts inner) (hf : ∀ a, Heedless (f a)) :
    Encloses (x >>= f) d ts inner := by
  refine h.of_surrounds (.goOn hf) fun s hs => ⟨s, hs, rfl, rfl, ?_⟩
  cases hx : x s with
  | ok a t => exact bind_of_ok hx
  | error e t => exact bind_of_error hx

theorem map (f : α → β) (h : Encloses x d ts inner) : Encloses (f <$> x) d ts inner := by
  rw [map_eq_pure_bind]
  exact h.bind fun a _ _ => .pure depth_passage (f a)

theorem within (hd : d < g.levels) (h : Encloses r (d + 1) ts inner) :
    Encloses (Rule.within r) d ts inner := by
  refine h.of_surrounds .leave fun s hs => ?_
  subst hs
  refine ⟨s.enter hd, rfl, rfl, rfl, ?_⟩
  unfold Rule.within
  rw [dif_pos hd]
  cases r (s.enter hd) <;> rfl

theorem recovering (h : Encloses r d ts inner) : Encloses (Rule.recovering r) d ts inner := by
  refine h.of_surrounds .recover fun s hs => ⟨s, hs, rfl, rfl, ?_⟩
  unfold Rule.recovering
  cases r s <;> rfl

/-- The declarations stay where they are if a rule comes to another one before them. -/
theorem after {r' : Rule g α} (h : Encloses r d us inner) (ts : List Token)
    (hr : ∀ s v, s.depth = d → s.ahead = ts ++ (us ++ v) → nextKind v ≠ .elseWord →
      r' s = r { s with ahead := us ++ v }) : Encloses r' d (ts ++ us) inner := by
  obtain ⟨p, k, hp, hk, h⟩ := h
  refine ⟨p, k, hp, hk, fun s v hs hv hne => ?_⟩
  rw [List.append_assoc] at hv
  rw [hr s v hs hv hne]
  exact h { s with ahead := us ++ v } v hs rfl hne

theorem after_made {x : Rule g β} {f : β → Rule g α} {b : β} {j : TokenKind}
    (hx : Makes x d ts b j) (hf : Encloses (f b) d us inner) (hj : ∀ v, nextKind (us ++ v) = j) :
    Encloses (x >>= f) d (ts ++ us) inner :=
  hf.after ts fun s v hs hv _ => bind_of_ok (hx s (us ++ v) hs hv (hj v))

theorem accept_some {p : TokenKind → Bool} {f : Option Token → Rule g α} {t : Token}
    (ht : p t.kind = true) (hf : Encloses (f (some t)) d us inner) :
    Encloses (Rule.accept p >>= f) d (t :: us) inner :=
  hf.after [t] fun _ _ _ hv _ => accept_bind_some hv ht

theorem demand {e : Expectation} {f : Token → Rule g α} {t : Token} (ht : t.kind = e.kind)
    (hf : Encloses (f t) d us inner) : Encloses (Rule.demand e >>= f) d (t :: us) inner :=
  hf.after [t] fun _ _ _ hv _ => bind_of_ok (demand_eq_ok hv ht)

end Encloses

section Clauses

variable {d inner : Nat} {ts us vs : List Token} {c e : Expr} {s : Stmt}

theorem conditional_encloses {opening closing : Token} (ho : opening.kind = .leftParen)
    (hc : Makes (expression : Rule g Expr) d ts c .rightParen) (hr : closing.kind = .rightParen)
    (hs : Encloses (statement : Rule g Stmt) d us inner) :
    Encloses (conditional expression statement : Rule g Stmt) d (opening :: (ts ++ closing :: us))
      inner := by
  refine .demand ho (.after_made hc (.demand hr (hs.bind fun s fs d => ?_)) fun _ => hr)
  exact .acceptKind depth_passage nofun nofun (.pure depth_passage _)
    fun _ _ => (statement_heedless fs d).map depth_passage _

theorem alternative_encloses {opening closing other : Token} (ho : opening.kind = .leftParen)
    (hc : Makes (expression : Rule g Expr) d ts c .rightParen) (hr : closing.kind = .rightParen)
    (hs : Makes (statement : Rule g Stmt) d us s .elseWord) (hother : other.kind = .elseWord)
    (ht : Encloses (statement : Rule g Stmt) d vs inner) :
    Encloses (conditional expression statement : Rule g Stmt) d
      (opening :: (ts ++ closing :: (us ++ other :: vs))) inner := by
  have hrest := ht.map (Stmt.ifElse c s)
  exact .demand ho (.after_made hc (.demand hr (.after_made hs
    (.accept_some (by simp [hother]) hrest) fun _ => hother)) fun _ => hr)

theorem loop_encloses {opening item inside closing : Token} (ho : opening.kind = .leftParen)
    (hi : item.kind = .identifier) (hin : inside.kind = .inWord)
    (he : Makes (expression : Rule g Expr) d ts e .rightParen) (hr : closing.kind = .rightParen)
    (hs : Encloses (statement : Rule g Stmt) d us inner) :
    Encloses (loop expression statement : Rule g Stmt) d
      (opening :: item :: inside :: (ts ++ closing :: us)) inner :=
  .demand ho (.demand hi (.demand hin (.after_made he (.demand hr (hs.map _)) fun _ => hr)))

theorem block_encloses
    (h : Encloses (declarationsUntil (fun k => k matches .rightBrace | .endOfFile) expression
      statement : Rule g (List Stmt)) d ts inner) :
    Encloses (block expression statement : Rule g Stmt) d ts inner :=
  h.bind fun _ _ _ => (demand_along depth_passage _).bind depth_passage fun _ =>
    .pure depth_passage _

/-- A statement that begins with a word encloses what is behind the word, one level further in. -/
theorem worded_encloses {word : Token} {j : TokenKind} (hw : word.kind = j)
    (hj : j.startsForm = true) (hd : d < g.levels)
    (h : Encloses (behind j expression statement : Rule g Stmt) (d + 1) ts inner) :
    Encloses (statement : Rule g Stmt) d (word :: ts) inner := by
  subst hw
  rw [statement_eq_within]
  exact .within hd (.accept_some hj h)

theorem declaration_encloses (hs : Encloses (statement : Rule g Stmt) d ts inner)
    (hts : ∀ v, nextKind (ts ++ v) ≠ .varWord) :
    Encloses (declaration expression statement : Rule g (Option Stmt)) d ts inner := by
  refine .recovering (hs.congr fun s v _ hv _ => accept_bind_none ?_)
  rw [hv]
  simpa using hts v

/-- The rule for what the statement stands in encloses the declarations it is one of, and there are
levels left for it. -/
def Enclosed (g : Setting) (s : Stmt) (d : Nat) :
    (rule : ClauseRule) → List Token → rule.Tree → Prop
  | .statement, pre, a | .declaration, pre, a => d + Stmt.need a ≤ g.levels →
    ∃ inner, inner + s.need ≤ g.levels ∧ Encloses (statement : Rule g Stmt) d pre inner
  | .declarations, pre, ss => d + Stmt.needOfAll ss ≤ g.levels → ∀ p, Closes p →
    ∃ inner, inner + s.need ≤ g.levels ∧
      Encloses (declarationsUntil p expression statement : Rule g (List Stmt)) d pre inner

end Clauses

theorem enclosed_of_omission {s : Stmt} {pre post : List Token} {rule : ClauseRule}
    {x x' : rule.Tree} (h : Omission s rule pre post x x') (d : Nat) :
    Enclosed g s d rule pre x := by
  induction h generalizing d with
  | here hpost =>
    intro hneed p hp
    rw [Stmt.needOfAll] at hneed
    exact ⟨d, by omega, .declarationsUntil hp⟩
  | @later ts pre post a ss ss' ha hss ih =>
    intro hneed p hp
    rw [Stmt.needOfAll] at hneed
    obtain ⟨inner, hinner, hencloses⟩ := ih d (by omega) p hp
    refine ⟨inner, hinner, (hencloses.map (a :: ·)).after ts fun s v hs hv hne => ?_⟩
    have hmade := declaration_made ha (g := g) (d := d) (by omega)
      fun _ => hss.nextKind_ne_elseWord hne
    have hstart : (nextKind (ts ++ (pre ++ v))).startsNothing = false := ha.starts _
    rw [declarationsUntil_step hp.endOfFile (hv ▸ hp.eq_false _ hstart)]
    exact bind_of_ok (hmade s (pre ++ v) hs hv rfl)
  | @inside pre post us a a' ss ha hus ih =>
    intro hneed p hp
    rw [Stmt.needOfAll] at hneed
    obtain ⟨inner, hinner, hencloses⟩ := ih d (by omega)
    have hfirst := declaration_encloses hencloses fun v => (ha.starts v).2
    refine ⟨inner, hinner, (hfirst.bind fun o fs d => ?_).congr fun s v _ hv _ =>
      declarationsUntil_step hp.endOfFile ?_⟩
    · exact (declarationsUntil_heedless hp.endOfFile fs d).map depth_passage (o.toList ++ ·)
    · rw [hv]
      exact hp.eq_false _ (ha.starts v).1
  | block ho _ hc ih =>
    intro hneed
    rw [Stmt.need] at hneed
    obtain ⟨inner, hinner, hencloses⟩ := ih (d + 1) (by omega) _ closes_block
    exact ⟨inner, hinner, worded_encloses ho rfl (by omega) (block_encloses hencloses)⟩
  | ifThen hw ho hc hr _ ih =>
    intro hneed
    rw [Stmt.need] at hneed
    obtain ⟨inner, hinner, hencloses⟩ := ih (d + 1) (by omega)
    have hc := expression_made hc (g := g) (d := d + 1) (k := .rightParen) (by omega) rfl
    exact ⟨inner, hinner, worded_encloses hw rfl (by omega)
      (conditional_encloses ho hc hr hencloses)⟩
  | thenBranch hw ho hc hr hs ha hother ht ih =>
    intro hneed
    rw [Stmt.need] at hneed
    obtain ⟨inner, hinner, hencloses⟩ := ih (d + 1) (by omega)
    have hc := expression_made hc (g := g) (d := d + 1) (k := .rightParen) (by omega) rfl
    exact ⟨inner, hinner, worded_encloses hw rfl (by omega)
      (conditional_encloses ho hc hr hencloses)⟩
  | elseBranch hw ho hc hr hus ha hother _ ih =>
    intro hneed
    rw [Stmt.need] at hneed
    obtain ⟨inner, hinner, hencloses⟩ := ih (d + 1) (by omega)
    have hc := expression_made hc (g := g) (d := d + 1) (k := .rightParen) (by omega) rfl
    have hbranch := statement_made hus (g := g) (d := d + 1) (k := .elseWord) (by omega)
      fun hopen => absurd hopen ha
    exact ⟨inner, hinner, worded_encloses hw rfl (by omega)
      (alternative_encloses ho hc hr hbranch hother hencloses)⟩
  | loop hw ho hi hin he hr _ ih =>
    intro hneed
    rw [Stmt.need] at hneed
    obtain ⟨inner, hinner, hencloses⟩ := ih (d + 1) (by omega)
    have he := expression_made he (g := g) (d := d + 1) (k := .rightParen) (by omega) rfl
    exact ⟨inner, hinner, worded_encloses hw rfl (by omega)
      (loop_encloses ho hi hin he hr hencloses)⟩

end Rule

end ScrapeScript
