import ScrapeScript.Proofs.Parser.Along
import ScrapeScript.Proofs.Parser.Located
import ScrapeScript.Proofs.Tree.Leaves

namespace ScrapeScript

/-- In another setting these faults are met as well: the limit is the same, or none of them is about
it. -/
def Setting.Shares (g g' : Setting) (fs : List SyntaxFault) : Prop :=
  g.limit = g'.limit ∨ ∀ f ∈ fs, ¬f.IsTooDeep

namespace Setting.Shares

variable {g g' : Setting} {fs fs' : List SyntaxFault}

theorem of_prefix (h : g.Shares g' fs') (hfs : fs <+: fs') : g.Shares g' fs :=
  h.imp_right fun h f hf => h f (hfs.subset hf)

theorem limit_eq {limit : Int} {t : Token} (h : g.Shares g' (fs ++ [⟨.tooDeep limit, t⟩])) :
    g.limit = g'.limit := by
  refine h.resolve_right fun hfs => ?_
  exact hfs ⟨.tooDeep limit, t⟩ (List.mem_append_right _ (List.mem_singleton.2 rfl)) ⟨limit, rfl⟩

end Setting.Shares

/-- Each token of one setting stands for one of the same kind of another, and each value for another
value. At least as many levels are allowed there. -/
structure Recast (g g' : Setting) where
  token : Token → Token
  value : Value → Value
  kind_eq (t : Token) : (token t).kind = t.kind
  value_eq (t : Token) : (token t).value = value t.value
  final_eq : g'.final = token g.final
  limit_le : g.limit ≤ g'.limit

namespace Recast

/-- Nothing is recast. -/
def refl (g : Setting) : Recast g g :=
  ⟨id, id, fun _ => rfl, fun _ => rfl, rfl, Int.le_refl _⟩

/-- More levels are allowed, for the same tokens. -/
def deeper {limit limit' : Int} (final : Token) (h : limit ≤ limit') :
    Recast ⟨limit, final⟩ ⟨limit', final⟩ :=
  ⟨id, id, fun _ => rfl, fun _ => rfl, rfl, h⟩

variable {g g' : Setting} {α : Type} (c : Recast g g')

def fault (f : SyntaxFault) : SyntaxFault := ⟨f.cause, c.token f.token⟩

theorem levels_le (c : Recast g g') : g.levels ≤ g'.levels := Int.toNat_le_toNat c.limit_le

def state (s : State g) : State g' :=
  ⟨s.ahead.map c.token, s.depth, s.faults.map c.fault, Nat.le_trans s.depth_le c.levels_le⟩

def result (m : α → α) :
    EStateM.Result SyntaxFault (State g) α → EStateM.Result SyntaxFault (State g') α
  | .ok a t => .ok (m a) (c.state t)
  | .error f t => .error (c.fault f) (c.state t)

variable {c}

theorem nextKind_map (ts : List Token) : nextKind (ts.map c.token) = nextKind ts := by
  cases ts with
  | nil => rfl
  | cons t rest => exact c.kind_eq t

theorem next_state (s : State g) : (c.state s).next = c.token s.next := by
  unfold State.next
  rw [state, c.final_eq]
  cases s.ahead <;> rfl

theorem seek_map (previous : Token) (ts : List Token) :
    Recovery.seek (c.token previous) (ts.map c.token) =
      (Recovery.seek previous ts).map c.token := by
  induction ts generalizing previous with
  | nil => rfl
  | cons t rest ih =>
    simp only [List.map_cons, Recovery.seek, c.kind_eq, ih]
    split <;> rfl

theorem resume_map (ts : List Token) :
    Recovery.resume (ts.map c.token) = (Recovery.resume ts).map c.token := by
  cases ts with
  | nil => rfl
  | cons t rest => exact seek_map t rest

end Recast

namespace Rule

variable {g g' : Setting} {α β : Type} {c : Recast g g'} {before : List Token}

/-- A rule is orderly, and another one does with tokens that are recast what it does itself, unless
it meets the limit. -/
structure Carries (c : Recast g g') (before : List Token) (m : α → α) (r : Rule g α)
    (r' : Rule g' α) : Prop where
  orderly : Orderly before r
  same (s : State g) : g.Shares g' (faultsOf (r s)) → r' (c.state s) = c.result m (r s)

namespace Carries

variable {m : α → α} {m' : β → β}

theorem behind {r : Rule g α} {r' : Rule g' α} (h : Carries c [] m r r') (before : List Token) :
    Carries c before m r r' where
  orderly := h.orderly.behind before
  same := h.same

theorem pure {a a' : α} (h : a' = m a) :
    Carries c before m (Pure.pure a) (Pure.pure a') where
  orderly := .pure a
  same _ _ := h ▸ rfl

theorem fail {cause : Cause} (hcause : cause ≠ .assignmentTarget) :
    Carries c [] m (Rule.fail cause) (Rule.fail cause) where
  orderly := .fail hcause
  same s _ := by
    unfold Rule.fail
    rw [Recast.next_state]
    rfl

/-- Where no level is left there may be one in the other setting, but then it is the limit that is
met. -/
theorem tooDeep {r : Rule g α} {r' : Rule g' α}
    (hr : ∀ s, r s = Rule.fail (.tooDeep g.limit) s)
    (hr' : g.limit = g'.limit → ∀ s, r' s = Rule.fail (.tooDeep g'.limit) s) :
    Carries c [] m r r' := by
  obtain rfl : r = Rule.fail (.tooDeep g.limit) := funext hr
  refine ⟨.fail nofun, fun s hshares => ?_⟩
  have hlimit := Setting.Shares.limit_eq hshares
  have hfail : Carries c [] m (Rule.fail (.tooDeep g.limit)) (Rule.fail (.tooDeep g.limit)) :=
    fail nofun
  rw [hr' hlimit, ← hlimit]
  exact hfail.same s hshares

section Bind

variable {x : Rule g α} {x' : Rule g' α} {f : α → Rule g β} {f' : α → Rule g' β}

/-- What is shared of two runs is shared of the first, because no fault is forgotten. -/
theorem same_bind (hx : Carries c before m x x') (hkeeps : ∀ a, Keeps (f a))
    (hf : ∀ a t, g.Shares g' (faultsOf (f a t)) → f' (m a) (c.state t) = c.result m' (f a t))
    (s : State g) (hshares : g.Shares g' (faultsOf ((x >>= f) s))) :
    (x' >>= f') (c.state s) = c.result m' ((x >>= f) s) := by
  have heq := hx.same s (hshares.of_prefix (Keeps.le_bind hkeeps))
  cases h : x s with
  | error e t =>
    rw [h] at heq
    rw [bind_of_error heq, bind_of_error h]
    rfl
  | ok a t =>
    rw [h] at heq
    rw [faultsOf_bind_of_ok h] at hshares
    rw [bind_of_ok heq, bind_of_ok h]
    exact hf a t hshares

theorem bind (hx : Carries c before m x x') (hf : ∀ a, Carries c [] m' (f a) (f' (m a))) :
    Carries c before m' (x >>= f) (x' >>= f') where
  orderly := hx.orderly.bind fun a => (hf a).orderly
  same := hx.same_bind (fun a => (hf a).orderly.keeps) fun a => (hf a).same

theorem refuse (hx : Carries c [] m x x') (hsilent : ∀ s, recorded (x s) = s.faults) {op : Token}
    (hop : op.kind = .equals) :
    Carries c [op] m' (x >>= fun _ => throw ⟨.assignmentTarget, op⟩)
      (x' >>= fun _ => throw ⟨.assignmentTarget, c.token op⟩) where
  orderly := hx.orderly.refuse hsilent hop
  same := hx.same_bind (fun _ => .throw _) fun _ _ _ => rfl

end Bind

theorem map {x : Rule g α} {x' : Rule g' α} {k k' : α → β} (hx : Carries c before m x x')
    (h : ∀ a, k' (m a) = m' (k a)) : Carries c before m' (k <$> x) (k' <$> x') := by
  simp only [map_eq_pure_bind]
  exact hx.bind fun a => .pure (h a)

/-- A token that is read may still be refused. -/
theorem acceptSign {p : TokenKind → Bool} {f : Option Token → Rule g β}
    {f' : Option Token → Rule g' β} (hp : p .endOfFile = false)
    (hnone : Carries c [] m' (f none) (f' none))
    (hsome : ∀ t, p t.kind = true → Carries c [t] m' (f (some t)) (f' (some (c.token t)))) :
    Carries c [] m' (Rule.accept p >>= f) (Rule.accept p >>= f') where
  orderly := .accept hp hnone.orderly fun t ht => (hsome t ht).orderly
  same s hshares := by
    obtain hs | ⟨t, rest, hs, ht⟩ := accepts_or_not p hp s.ahead
    · have hs' : p (nextKind (c.state s).ahead) = false := by
        rwa [show (c.state s).ahead = s.ahead.map c.token from rfl, Recast.nextKind_map]
      rw [accept_bind_none hs] at hshares ⊢
      rw [accept_bind_none hs']
      exact hnone.same s hshares
    · have hs' : (c.state s).ahead = c.token t :: rest.map c.token :=
        congrArg (List.map c.token) hs
      rw [accept_bind_some hs ht] at hshares ⊢
      rw [accept_bind_some hs' ((c.kind_eq t).symm ▸ ht)]
      exact (hsome t ht).same { s with ahead := rest } hshares

theorem accept {p : TokenKind → Bool} {f : Option Token → Rule g β}
    {f' : Option Token → Rule g' β} (hp : p .endOfFile = false)
    (hnone : Carries c [] m' (f none) (f' none))
    (hsome : ∀ t, p t.kind = true → Carries c [] m' (f (some t)) (f' (some (c.token t)))) :
    Carries c [] m' (Rule.accept p >>= f) (Rule.accept p >>= f') :=
  acceptSign hp hnone fun t ht => (hsome t ht).behind [t]

theorem demand (e : Expectation) : Carries c [] c.token (Rule.demand e) (Rule.demand e) := by
  have hp : (e.kind == .endOfFile) = false := by simpa using e.kind_ne_endOfFile
  exact accept (by rwa [BEq.comm]) (.fail nofun) fun t _ => .pure rfl

theorem peek {look : Rule g Bool} {look' : Rule g' Bool} {p : TokenKind → Bool}
    {f : Bool → Rule g β} {f' : Bool → Rule g' β}
    (hlook : ∀ s, look s = .ok (p (nextKind s.ahead)) s)
    (hlook' : ∀ s, look' s = .ok (p (nextKind s.ahead)) s)
    (hf : ∀ b, Carries c [] m' (f b) (f' b)) : Carries c [] m' (look >>= f) (look' >>= f') where
  orderly := .peek hlook fun b => (hf b).orderly
  same s hshares := by
    have hnext : nextKind (c.state s).ahead = nextKind s.ahead := Recast.nextKind_map s.ahead
    rw [bind_of_ok (hlook s)] at hshares ⊢
    rw [bind_of_ok (hlook' (c.state s)), hnext]
    exact (hf _).same s hshares

theorem within {r : Rule g α} {r' : Rule g' α} (hr : Carries c [] m r r') :
    Carries c [] m (Rule.within r) (Rule.within r') where
  orderly := hr.orderly.within
  same s hshares := by
    unfold Rule.within at hshares ⊢
    by_cases h : s.depth < g.levels
    · have h' : (c.state s).depth < g'.levels := Nat.lt_of_lt_of_le h c.levels_le
      rw [dif_pos h] at hshares ⊢
      rw [dif_pos h']
      have heq := hr.same (s.enter h)
      cases hend : r (s.enter h) <;> rw [hend] at hshares heq <;>
        exact (heq hshares).symm ▸ rfl
    · -- No level is left, and because that fault is shared, none is left in the other setting.
      rw [dif_neg h] at hshares ⊢
      have hlevels : g.levels = g'.levels := congrArg Int.toNat (Setting.Shares.limit_eq hshares)
      rw [dif_neg (show ¬(c.state s).depth < g'.levels from hlevels ▸ h)]
      exact (tooDeep (fun _ => rfl) fun _ _ => rfl).same s hshares

/-- A rule may look at the state it begins in. -/
theorem pointwise {r : Rule g α} {r' : Rule g' α}
    (h : ∀ s, ∃ q q', r s = q s ∧ r' (c.state s) = q' (c.state s) ∧ Carries c before m q q') :
    Carries c before m r r' where
  orderly := {
    keeps s := by
      obtain ⟨q, _, hq, -, hcarries⟩ := h s
      exact hq ▸ hcarries.orderly.keeps s
    located s := by
      obtain ⟨q, _, hq, -, hcarries⟩ := h s
      exact hq ▸ hcarries.orderly.located s }
  same s hshares := by
    obtain ⟨q, q', hq, hq', hcarries⟩ := h s
    rw [hq] at hshares ⊢
    exact hq'.trans (hcarries.same s hshares)

theorem bounded {r : Nat → Rule g α} {r' : Nat → Rule g' α}
    (h : ∀ n, Carries c before m (r n) (r' n)) :
    Carries c before m (fun s => r s.ahead.length s) fun s => r' s.ahead.length s := by
  refine .pointwise fun s => ⟨r s.ahead.length, r' s.ahead.length, rfl, ?_, h _⟩
  show r' (s.ahead.map c.token).length (c.state s) = _
  rw [List.length_map]

theorem iterate {step : α → Rule g (Option α)} {step' : α → Rule g' (Option α)}
    (hstep : ∀ a, Carries c [] (Option.map m) (step a) (step' (m a))) (a : α) :
    Carries c [] m (Rule.iterate step a) (Rule.iterate step' (m a)) := by
  have upTo (n : Nat) :
      ∀ a, Carries c [] m (iterateUpTo step n a) (iterateUpTo step' n (m a)) := by
    induction n with
    | zero => exact fun a => .pure rfl
    | succ n ih =>
      refine fun a => (hstep a).bind fun o => ?_
      cases o with
      | none => exact .pure rfl
      | some b => exact ih b
  exact .bounded fun n => upTo n a

theorem many {r : Rule g (Option α)} {r' : Rule g' (Option α)}
    (hr : Carries c [] (Option.map m) r r') :
    Carries c [] (List.map m) (Rule.many r) (Rule.many r') := by
  have upTo (n : Nat) : Carries c [] (List.map m) (manyUpTo r n) (manyUpTo r' n) := by
    induction n with
    | zero => exact .pure rfl
    | succ n ih =>
      refine hr.bind fun o => ?_
      cases o with
      | none => exact .pure rfl
      | some a => exact ih.map fun as => rfl
  exact .bounded upTo

theorem recovering {r : Rule g α} {r' : Rule g' α} (hr : Carries c [] m r r') :
    Carries c [] (Option.map m) (Rule.recovering r) (Rule.recovering r') where
  orderly := hr.orderly.recovering
  same s hshares := by
    rw [faultsOf_recovering] at hshares
    have heq := hr.same s hshares
    unfold Rule.recovering
    rw [heq]
    cases r s with
    | ok a t => rfl
    | error f t =>
      simp [Recast.result, Recast.state, Recast.resume_map]

end Carries

end Rule

end ScrapeScript
