import ScrapeScript.Proofs.Parser.Runs

namespace ScrapeScript

theorem Expectation.kind_ne_endOfFile (e : Expectation) : e.kind ≠ .endOfFile := by
  cases e <;> nofun

/-- The same state with other faults found before it. -/
def State.afterFaults {g : Setting} (fs : List SyntaxFault) (s : State g) : State g :=
  { s with faults := fs ++ s.faults }

namespace Rule

variable {g : Setting} {α β : Type}

/-- The state in which a run ends, whether it fails or not. -/
def stateOf : EStateM.Result SyntaxFault (State g) α → State g
  | .ok _ t | .error _ t => t

/-- A relation of states to later ones that leads over tokens of the kinds `q`. A level that is
entered and left again makes no difference. -/
structure Passage (q : TokenKind → Prop) (R : State g → State g → Prop) : Prop where
  refl (s : State g) : R s s
  trans {s t u : State g} : R s t → R t u → R s u
  depth_eq {s t : State g} : R s t → t.depth = s.depth
  read {s : State g} {t : Token} {rest : List Token} : s.ahead = t :: rest → q t.kind →
    R s { s with ahead := rest }
  within {s t : State g} (h : s.depth < g.levels) : R (s.enter h) t → R s t.leave

theorem Passage.mono {q q' : TokenKind → Prop} {R : State g → State g → Prop} (hR : Passage q R)
    (hq : ∀ k, q' k → q k) : Passage q' R :=
  { hR with read := fun hs ht => hR.read hs (hq _ ht) }

/-- Only the depth is kept. -/
theorem Passage.sameDepth {q : TokenKind → Prop} :
    Passage q fun s t : State g => t.depth = s.depth where
  refl _ := rfl
  trans h h' := h'.trans h
  depth_eq h := h
  read _ _ := rfl
  within _ h := by simp [State.leave, h, State.enter]

/-- The same run with other faults found before it. -/
def afterFaults (fs : List SyntaxFault) :
    EStateM.Result SyntaxFault (State g) α → EStateM.Result SyntaxFault (State g) α
  | .ok a t => .ok a (t.afterFaults fs)
  | .error f t => .error f (t.afterFaults fs)

/-- At a depth a rule does what another does, after any faults `fs`, and it leads along a
relation. -/
def Along (fs : List SyntaxFault) (R : State g → State g → Prop) (d : Nat) (r r' : Rule g α) :
    Prop :=
  ∀ s, s.depth = d → r' (s.afterFaults fs) = afterFaults fs (r s) ∧ R s (stateOf (r s))

namespace Along

variable {fs : List SyntaxFault} {q : TokenKind → Prop} {R : State g → State g → Prop} {d : Nat}

/-- After no faults, the rules are the same at this depth. -/
theorem eq {r r' : Rule g α} (h : Along [] R d r r') {s : State g} (hs : s.depth = d) :
    r' s = r s := by
  have heq : r' s = afterFaults [] (r s) := (h s hs).1
  rw [heq]
  cases r s <;> rfl

theorem self {r r' : Rule g α} (h : Along fs R d r r') (heq : ∀ s, s.depth = d → r' s = r s) :
    Along fs R d r' r' := by
  intro s hs
  rw [heq s hs]
  exact h s hs

theorem pure (hR : Passage q R) (a : α) : Along fs R d (Pure.pure a) (Pure.pure a) :=
  fun s _ => ⟨rfl, hR.refl s⟩

theorem fail (hR : Passage q R) (c : Cause) :
    Along fs R d (Rule.fail c : Rule g α) (Rule.fail c) :=
  fun s _ => ⟨rfl, hR.refl s⟩

theorem throw (hR : Passage q R) (f : SyntaxFault) :
    Along fs R d (MonadExcept.throw f : Rule g α) (MonadExcept.throw f) :=
  fun s _ => ⟨rfl, hR.refl s⟩

theorem bind {x x' : Rule g α} {f f' : α → Rule g β} (hR : Passage q R) (hx : Along fs R d x x')
    (hf : ∀ a, Along fs R d (f a) (f' a)) : Along fs R d (x >>= f) (x' >>= f') := by
  intro s hs
  obtain ⟨heq, hlead⟩ := hx s hs
  cases h : x s with
  | error e t =>
    rw [h] at heq hlead
    rw [bind_of_error (t := t.afterFaults fs) heq, bind_of_error h]
    exact ⟨rfl, hlead⟩
  | ok a t =>
    rw [h] at heq hlead
    rw [bind_of_ok (t := t.afterFaults fs) heq, bind_of_ok h]
    obtain ⟨heq', hlead'⟩ := hf a t ((hR.depth_eq hlead).trans hs)
    exact ⟨heq', hR.trans hlead hlead'⟩

theorem map {x x' : Rule g α} (hR : Passage q R) (f : α → β) (hx : Along fs R d x x') :
    Along fs R d (f <$> x) (f <$> x') := by
  simp only [map_eq_pure_bind]
  exact hx.bind hR fun a => .pure hR (f a)

theorem accept {p : TokenKind → Bool} {f f' : Option Token → Rule g β} (hR : Passage q R)
    (hp : p .endOfFile = false) (hq : ∀ k, p k = true → q k)
    (hnone : Along fs R d (f none) (f' none))
    (hsome : ∀ t, p t.kind = true → Along fs R d (f (some t)) (f' (some t))) :
    Along fs R d (Rule.accept p >>= f) (Rule.accept p >>= f') := by
  intro s hs
  obtain hk | ⟨t, rest, hahead, ht⟩ := accepts_or_not p hp s.ahead
  · rw [accept_bind_none hk, accept_bind_none (s := s.afterFaults fs) hk]
    exact hnone s hs
  · rw [accept_bind_some hahead ht, accept_bind_some (s := s.afterFaults fs) hahead ht]
    obtain ⟨heq, hlead⟩ := hsome t ht { s with ahead := rest } hs
    exact ⟨heq, hR.trans (hR.read hahead (hq _ ht)) hlead⟩

theorem acceptKind {kind : TokenKind} {f f' : Option Token → Rule g β} (hR : Passage q R)
    (hkind : kind ≠ .endOfFile) (hq : q kind) (hnone : Along fs R d (f none) (f' none))
    (hsome : ∀ t, t.kind = kind → Along fs R d (f (some t)) (f' (some t))) :
    Along fs R d (Rule.acceptKind kind >>= f) (Rule.acceptKind kind >>= f') := by
  refine accept hR (by simpa using hkind.symm) (fun k hk => ?_) hnone fun t ht => ?_
  · rw [beq_iff_eq] at hk
    exact hk ▸ hq
  · exact hsome t (by simpa using ht)

theorem demand {e : Expectation} (hR : Passage q R) (he : q e.kind) :
    Along fs R d (Rule.demand e : Rule g Token) (Rule.demand e) :=
  acceptKind hR e.kind_ne_endOfFile he (.fail hR _) fun t _ => .pure hR t

theorem peek {look : Rule g Bool} {p : TokenKind → Bool} {f f' : Bool → Rule g β}
    (hlook : ∀ s, look s = .ok (p (nextKind s.ahead)) s) (hf : ∀ b, Along fs R d (f b) (f' b)) :
    Along fs R d (look >>= f) (look >>= f') := by
  intro s hs
  simp only [bind_of_ok (hlook s), bind_of_ok (hlook (s.afterFaults fs))]
  exact hf _ s hs

theorem within {r r' : Rule g α} (hR : Passage q R) (hr : Along fs R (d + 1) r r') :
    Along fs R d (Rule.within r) (Rule.within r') := by
  intro s hs
  unfold Rule.within
  by_cases h : s.depth < g.levels
  · obtain ⟨heq, hlead⟩ := hr (s.enter h) (congrArg (· + 1) hs)
    have heq : r' ((s.afterFaults fs).enter h) = afterFaults fs (r (s.enter h)) := heq
    rw [dif_pos h, dif_pos (show (s.afterFaults fs).depth < g.levels from h), heq]
    cases hend : r (s.enter h) <;> rw [hend] at hlead <;> exact ⟨rfl, hR.within h hlead⟩
  · rw [dif_neg h, dif_neg (show ¬(s.afterFaults fs).depth < g.levels from h)]
    exact Along.fail hR _ s hs

theorem iterate {step step' : α → Rule g (Option α)} (hR : Passage q R)
    (hstep : ∀ a, Along fs R d (step a) (step' a)) (a : α) :
    Along fs R d (Rule.iterate step a) (Rule.iterate step' a) := by
  have upTo (n : Nat) : ∀ a, Along fs R d (iterateUpTo step n a) (iterateUpTo step' n a) := by
    induction n with
    | zero => exact fun a => .pure hR a
    | succ n ih =>
      refine fun a => (hstep a).bind hR fun o => ?_
      cases o with
      | none => exact .pure hR a
      | some b => exact ih b
  exact fun s hs => upTo s.ahead.length a s hs

theorem many {r r' : Rule g (Option α)} (hR : Passage q R) (hr : Along fs R d r r') :
    Along fs R d (Rule.many r) (Rule.many r') := by
  have upTo (n : Nat) : Along fs R d (manyUpTo r n) (manyUpTo r' n) := by
    induction n with
    | zero => exact .pure hR []
    | succ n ih =>
      refine hr.bind hR fun o => ?_
      cases o with
      | none => exact .pure hR []
      | some a => exact ih.map hR _
  exact fun s hs => upTo s.ahead.length s hs

/-- What is passed over after a fault has to lead along the relation too. -/
theorem recovering {r r' : Rule g α}
    (hresume : ∀ s t f, R s t →
      R s { t with ahead := Recovery.resume t.ahead, faults := t.faults ++ [f] })
    (hr : Along fs R d r r') : Along fs R d (Rule.recovering r) (Rule.recovering r') := by
  intro s hs
  obtain ⟨heq, hlead⟩ := hr s hs
  unfold Rule.recovering
  rw [heq]
  cases hend : r s with
  | ok a t =>
    rw [hend] at hlead
    exact ⟨rfl, hlead⟩
  | error f t =>
    rw [hend] at hlead
    refine ⟨?_, hresume s t f hlead⟩
    simp only [afterFaults, State.afterFaults, List.append_assoc]

end Along

end Rule

end ScrapeScript
