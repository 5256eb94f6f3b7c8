import ScrapeScript.Proofs.Parser.Runs

namespace ScrapeScript

def SyntaxFault.IsTooDeep (f : SyntaxFault) : Prop := ∃ limit, f.cause = .tooDeep limit

namespace Rule

variable {g : Setting} {α β : Type}

/-- The faults when a run ends, the one that ended it last. -/
def faultsOf : EStateM.Result SyntaxFault (State g) α → List SyntaxFault
  | .ok _ t => t.faults
  | .error f t => t.faults ++ [f]

/-- The faults recorded when a run ends. -/
def recorded : EStateM.Result SyntaxFault (State g) α → List SyntaxFault
  | .ok _ t | .error _ t => t.faults

/-- A rule never forgets a fault. -/
def Keeps (r : Rule g α) : Prop := ∀ s, s.faults <+: recorded (r s)

/-- A run finds a fault. -/
def Faulty (r : Rule g α) (s : State g) : Prop := faultsOf (r s) ≠ s.faults

/-- The first fault that a run finds. -/
def FirstFault (r : Rule g α) (s : State g) (f : SyntaxFault) : Prop :=
  s.faults ++ [f] <+: faultsOf (r s)

theorem not_firstFault_self {s : State g} {f : SyntaxFault} : ¬s.faults ++ [f] <+: s.faults := by
  intro h
  have hlen := h.length_le
  rw [List.length_append, List.length_singleton] at hlen
  omega

theorem FirstFault.faulty {r : Rule g α} {s : State g} {f : SyntaxFault} (h : FirstFault r s f) :
    Faulty r s := by
  intro hf
  unfold FirstFault at h
  rw [hf] at h
  exact not_firstFault_self h

theorem recorded_le (o : EStateM.Result SyntaxFault (State g) α) : recorded o <+: faultsOf o := by
  cases o with
  | ok a t => apply List.prefix_refl
  | error f t => apply List.prefix_append

theorem Keeps.faultsOf {r : Rule g α} (hr : Keeps r) (s : State g) :
    s.faults <+: faultsOf (r s) :=
  (hr s).trans (recorded_le _)

theorem Keeps.exists_firstFault {r : Rule g α} (hr : Keeps r) {s : State g} (h : Faulty r s) :
    ∃ f, FirstFault r s f := by
  obtain ⟨fs, hfs⟩ := hr.faultsOf s
  cases fs with
  | nil => exact absurd (by simpa using hfs.symm) h
  | cons f fs => exact ⟨f, fs, by simpa using hfs⟩

theorem Keeps.exists_ok {r : Rule g α} (hr : Keeps r) {s : State g} (h : ¬Faulty r s) :
    ∃ a t, r s = .ok a t ∧ t.faults = s.faults := by
  have hs := hr s
  unfold Faulty at h
  cases hrs : r s with
  | ok a t => exact ⟨a, t, rfl, by simpa [hrs, Rule.faultsOf] using h⟩
  | error f t =>
    -- All faults of the start are recorded, so that the one that ends the run is another one.
    rw [hrs] at hs h
    have heq : t.faults ++ [f] = s.faults := Classical.not_not.1 h
    rw [← heq] at hs
    exact absurd hs not_firstFault_self

theorem firstFault_throw_iff {f f' : SyntaxFault} {s : State g} :
    FirstFault (throw f : Rule g α) s f' ↔ f' = f := by
  show s.faults ++ [f'] <+: s.faults ++ [f] ↔ _
  simp [List.prefix_append_right_inj, eq_comm]

theorem firstFault_fail_iff {c : Cause} {f : SyntaxFault} {s : State g} :
    FirstFault (Rule.fail c : Rule g α) s f ↔ f = ⟨c, s.next⟩ :=
  firstFault_throw_iff

theorem faulty_throw {f : SyntaxFault} {s : State g} : Faulty (throw f : Rule g α) s :=
  (firstFault_throw_iff.2 rfl).faulty

theorem faulty_fail {c : Cause} {s : State g} : Faulty (Rule.fail c : Rule g α) s :=
  (firstFault_fail_iff.2 rfl).faulty

section Bind

variable {x : Rule g α} {f : α → Rule g β} {s t : State g} {a : α}

theorem faultsOf_bind_of_ok (h : x s = .ok a t) : faultsOf ((x >>= f) s) = faultsOf (f a t) := by
  rw [bind_of_ok h]

theorem faultsOf_bind_of_error {e : SyntaxFault} (h : x s = .error e t) :
    faultsOf ((x >>= f) s) = faultsOf (x s) := by
  rw [bind_of_error h, h]
  rfl

theorem Keeps.le_bind (hf : ∀ a, Keeps (f a)) :
    Rule.faultsOf (x s) <+: Rule.faultsOf ((x >>= f) s) := by
  cases h : x s with
  | ok a t =>
    rw [faultsOf_bind_of_ok h]
    exact (hf a).faultsOf t
  | error e t =>
    have heq := faultsOf_bind_of_error (f := f) h
    rw [h] at heq
    exact heq ▸ List.prefix_refl _

theorem Keeps.bind (hx : Keeps x) (hf : ∀ a, Keeps (f a)) : Keeps (x >>= f) := by
  intro s
  have hs := hx s
  cases h : x s with
  | ok a t =>
    rw [h] at hs
    rw [bind_of_ok h]
    exact hs.trans (hf a t)
  | error e t =>
    rw [h] at hs
    rw [bind_of_error h]
    exact hs

theorem Faulty.bind (h : Faulty x s) (hx : Keeps x) (hf : ∀ a, Keeps (f a)) :
    Faulty (x >>= f) s := by
  obtain ⟨e, he⟩ := hx.exists_firstFault h
  have hbind : FirstFault (x >>= f) s e := List.IsPrefix.trans he (Keeps.le_bind hf)
  exact hbind.faulty

theorem Faulty.bind_of_ok (hx : x s = .ok a t) (ht : t.faults = s.faults) (h : Faulty (f a) t) :
    Faulty (x >>= f) s := by
  unfold Faulty
  rw [faultsOf_bind_of_ok hx, ← ht]
  exact h

/-- Two runs find no fault together if neither does. -/
theorem Keeps.bind_clean {b : β} {u : State g} (hx : Keeps x) (hf : ∀ a, Keeps (f a))
    (h : (x >>= f) s = .ok b u) (hu : u.faults = s.faults) :
    ∃ a t, x s = .ok a t ∧ t.faults = s.faults ∧ f a t = .ok b u := by
  obtain ⟨a, t, hat, hbu⟩ := bind_eq_ok.1 h
  have hst := hx s
  have htu := hf a t
  rw [hat] at hst
  rw [hbu] at htu
  exact ⟨a, t, hat, (hst.eq_of_length_le (hu ▸ htu.length_le)).symm, hbu⟩

/-- The first fault of two runs is found in the first of them, or in the second after a first one
without faults. -/
theorem FirstFault.of_bind {e : SyntaxFault} (hx : Keeps x) (hf : ∀ a, Keeps (f a))
    (h : FirstFault (x >>= f) s e) :
    FirstFault x s e ∨ ∃ a t, x s = .ok a t ∧ t.faults = s.faults ∧ FirstFault (f a) t e := by
  by_cases hs : Faulty x s
  · -- What the first run finds comes first of all that the two find.
    obtain ⟨e', he'⟩ := hx.exists_firstFault hs
    have hbind : s.faults ++ [e'] <+: faultsOf ((x >>= f) s) := he'.trans (Keeps.le_bind hf)
    have hle := List.prefix_of_prefix_length_le h hbind (by simp)
    have heq : e = e' := by simpa using hle.eq_of_length (by simp)
    exact .inl (heq ▸ he')
  · obtain ⟨a, t, hat, ht⟩ := hx.exists_ok hs
    refine .inr ⟨a, t, hat, ht, ?_⟩
    unfold FirstFault at h ⊢
    rw [ht, ← faultsOf_bind_of_ok hat]
    exact h

end Bind

theorem Keeps.pure (a : α) : Keeps (Pure.pure a : Rule g α) := fun _ => List.prefix_refl _

theorem Keeps.fail (c : Cause) : Keeps (Rule.fail c : Rule g α) := fun _ => List.prefix_refl _

theorem Keeps.throw (f : SyntaxFault) : Keeps (MonadExcept.throw f : Rule g α) :=
  fun _ => List.prefix_refl _

theorem Keeps.accept_bind {p : TokenKind → Bool} {k : Option Token → Rule g β}
    (hp : p .endOfFile = false) (hnone : Keeps (k none))
    (hsome : ∀ t, p t.kind = true → Keeps (k (some t))) : Keeps (Rule.accept p >>= k) := by
  intro s
  obtain hs | ⟨t, rest, hs, ht⟩ := accepts_or_not p hp s.ahead
  · rw [accept_bind_none hs]
    exact hnone s
  · rw [accept_bind_some hs ht]
    exact hsome t ht { s with ahead := rest }

theorem Keeps.within {r : Rule g α} (hr : Keeps r) : Keeps (Rule.within r) := by
  intro s
  unfold Rule.within
  split
  · rename_i h
    have hs := hr (s.enter h)
    split <;> rename_i hr <;> rw [hr] at hs <;> exact hs
  · exact Keeps.fail _ s

@[simp] theorem faultsOf_recovering (r : Rule g α) (s : State g) :
    faultsOf (recovering r s) = faultsOf (r s) := by
  unfold recovering
  split <;> rename_i h <;> rw [h] <;> rfl

theorem Keeps.recovering {r : Rule g α} (hr : Keeps r) : Keeps (Rule.recovering r) := by
  intro s
  have hs := hr s
  unfold Rule.recovering
  split <;> rename_i h <;> rw [h] at hs
  · exact hs
  · exact hs.trans (List.prefix_append _ _)

theorem Keeps.iterateUpTo {step : α → Rule g (Option α)} (h : ∀ a, Keeps (step a)) (n : Nat)
    (a : α) : Keeps (Rule.iterateUpTo step n a) := by
  induction n generalizing a with
  | zero => exact .pure a
  | succ n ih =>
    refine (h a).bind fun o => ?_
    cases o with
    | none => exact .pure a
    | some b => exact ih b

end Rule

end ScrapeScript
