import ScrapeScript.Proofs.Parser.Runs

namespace ScrapeScript

namespace Rule

variable {g : Setting} {α β : Type}

/-- Read at a depth, these tokens make `a` if a token of kind `k` is next after them. -/
def Makes (r : Rule g α) (depth : Nat) (ts : List Token) (a : α) (k : TokenKind) : Prop :=
  ∀ s v, s.depth = depth → s.ahead = ts ++ v → nextKind v = k → r s = .ok a { s with ahead := v }

namespace Makes

variable {d : Nat} {ts us vs : List Token} {a : α} {b : β} {j k : TokenKind}

theorem congr {r r' : Rule g α} (h : Makes r d ts a k) (hr : ∀ s, s.depth = d → r' s = r s) :
    Makes r' d ts a k := by
  intro s v hs hv hk
  rw [hr s hs]
  exact h s v hs hv hk

theorem pure (a : α) : Makes (Pure.pure a : Rule g α) d [] a k := by
  intro s v _ hv _
  obtain rfl : s.ahead = v := hv
  rfl

theorem bind {x : Rule g α} {f : α → Rule g β} (hx : Makes x d us a j) (hf : Makes (f a) d vs b k)
    (hj : ∀ v, nextKind v = k → nextKind (vs ++ v) = j) : Makes (x >>= f) d (us ++ vs) b k := by
  intro s v hs hv hk
  rw [List.append_assoc] at hv
  rw [bind_of_ok (hx s (vs ++ v) hs hv (hj v hk))]
  exact hf _ v hs rfl hk

theorem bind_nil {x : Rule g α} {f : α → Rule g β} (hx : Makes x d ts a k)
    (hf : Makes (f a) d [] b k) : Makes (x >>= f) d ts b k := by
  have h := hx.bind hf fun _ hv => hv
  rwa [List.append_nil] at h

theorem map {x : Rule g α} {f : α → β} (hx : Makes x d ts a k) : Makes (f <$> x) d ts (f a) k := by
  rw [map_eq_pure_bind]
  exact hx.bind_nil (.pure _)

section Tokens

variable {p : TokenKind → Bool} {f : Option Token → Rule g β} {t : Token}

theorem accept_some (ht : p t.kind = true) (hf : Makes (f (some t)) d ts b k) :
    Makes (Rule.accept p >>= f) d (t :: ts) b k := by
  intro s v hs hv hk
  rw [accept_bind_some hv ht]
  exact hf { s with ahead := ts ++ v } v hs rfl hk

theorem accept_none (hp : ∀ v, nextKind v = k → p (nextKind (ts ++ v)) = false)
    (hf : Makes (f none) d ts b k) : Makes (Rule.accept p >>= f) d ts b k := by
  intro s v hs hv hk
  rw [accept_bind_none (hv ▸ hp v hk)]
  exact hf s v hs hv hk

theorem demand {e : Expectation} {f : Token → Rule g β} (ht : t.kind = e.kind)
    (hf : Makes (f t) d ts b k) : Makes (Rule.demand e >>= f) d (t :: ts) b k := by
  intro s v hs hv hk
  rw [bind_of_ok (demand_eq_ok hv ht)]
  exact hf { s with ahead := ts ++ v } v hs rfl hk

end Tokens

theorem peek {look : Rule g Bool} {q : TokenKind → Bool} {c : Bool} {f : Bool → Rule g β}
    (hlook : ∀ s, look s = .ok (q (nextKind s.ahead)) s)
    (hq : ∀ v, nextKind v = k → q (nextKind (ts ++ v)) = c) (hf : Makes (f c) d ts b k) :
    Makes (look >>= f) d ts b k := by
  intro s v hs hv hk
  rw [bind_of_ok (hlook s), hv, hq v hk]
  exact hf s v hs hv hk

theorem within {r : Rule g α} (hd : d < g.levels) (h : Makes r (d + 1) ts a k) :
    Makes (Rule.within r) d ts a k := by
  intro s v hs hv hk
  subst hs
  have hr := h (s.enter hd) v rfl hv hk
  unfold Rule.within
  rw [dif_pos hd, hr]
  rfl

theorem recovering {r : Rule g α} (h : Makes r d ts a k) :
    Makes (Rule.recovering r) d ts (some a) k := by
  intro s v hs hv hk
  unfold Rule.recovering
  rw [h s v hs hv hk]

section Loops

variable {r : Rule g (Option α)} {as : List α} {n : Nat}

theorem manyUpTo_stop (h : Makes r d [] none k) : Makes (Rule.manyUpTo r n) d [] [] k := by
  cases n with
  | zero => exact .pure []
  | succ n => exact h.bind_nil (.pure [])

theorem manyUpTo_next (h : Makes r d us (some a) j) (hus : us ≠ [])
    (has : ∀ n, vs.length ≤ n → Makes (Rule.manyUpTo r n) d vs as k)
    (hj : ∀ v, nextKind v = k → nextKind (vs ++ v) = j) (hn : (us ++ vs).length ≤ n) :
    Makes (Rule.manyUpTo r n) d (us ++ vs) (a :: as) k := by
  -- The bound is on the tokens that are left, and of these at least one has been read.
  have hpos := List.length_pos_iff.2 hus
  rw [List.length_append] at hn
  obtain ⟨n, rfl⟩ : ∃ m, n = m + 1 := ⟨n - 1, by omega⟩
  exact h.bind (has n (by omega)).map hj

theorem many (h : ∀ n, ts.length ≤ n → Makes (Rule.manyUpTo r n) d ts as k) :
    Makes (Rule.many r) d ts as k := by
  intro s v hs hv hk
  have hn : ts.length ≤ s.ahead.length := by
    rw [hv, List.length_append]
    omega
  exact h s.ahead.length hn s v hs hv hk

end Loops

end Makes

/-- A rule gets from these tokens to an iteration that goes on from `a`. -/
def Reaches (r : Rule g α) (step : α → Rule g (Option α)) (depth : Nat) (ts : List Token) (a : α)
    (k : TokenKind) : Prop :=
  ∀ s v, s.depth = depth → s.ahead = ts ++ v → nextKind v = k →
    ∃ n, v.length ≤ n ∧ r s = iterateUpTo step n a { s with ahead := v }

namespace Reaches

variable {r x : Rule g α} {f : α → Rule g (Option α)} {d : Nat} {ts us : List Token} {a b : α}
  {j k : TokenKind}

theorem start (hx : Makes x d ts a k) : Reaches (x >>= iterate f) f d ts a k := by
  intro s v hs hv hk
  refine ⟨v.length, Nat.le_refl _, ?_⟩
  rw [bind_of_ok (hx s v hs hv hk)]
  rfl

theorem step (h : Reaches r f d ts a j) (hstep : Makes (f a) d us (some b) k) (hus : us ≠ [])
    (hj : ∀ v, nextKind v = k → nextKind (us ++ v) = j) : Reaches r f d (ts ++ us) b k := by
  intro s v hs hv hk
  rw [List.append_assoc] at hv
  obtain ⟨n, hn, hr⟩ := h s (us ++ v) hs hv (hj v hk)
  have hpos := List.length_pos_iff.2 hus
  rw [List.length_append] at hn
  obtain ⟨n, rfl⟩ : ∃ m, n = m + 1 := ⟨n - 1, by omega⟩
  refine ⟨n, by omega, ?_⟩
  rw [hr]
  exact bind_of_ok (hstep { s with ahead := us ++ v } v hs rfl hk)

theorem stop (h : Reaches r f d ts a k) (hstep : Makes (f a) d [] none k) :
    Makes r d ts a k := by
  intro s v hs hv hk
  obtain ⟨n, -, hr⟩ := h s v hs hv hk
  rw [hr]
  cases n with
  | zero => rfl
  | succ n => exact bind_of_ok (hstep { s with ahead := v } v hs rfl hk)

end Reaches

end Rule

end ScrapeScript
