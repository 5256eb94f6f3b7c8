import ScrapeScript.Proofs.Parser.Runs

namespace ScrapeScript

namespace Rule

variable {g : Setting} {α β : Type}

/-- What a rule returns from a state, if it returns, and the kind of token it stops before. -/
def Returns (r : Rule g α) (s : State g) (post : α → TokenKind → Prop) : Prop :=
  ∀ a t, r s = .ok a t → post a (nextKind t.ahead)

namespace Returns

variable {s : State g} {post post' : α → TokenKind → Prop} {end_ : β → TokenKind → Prop}

theorem mono {r : Rule g α} (h : Returns r s post) (hpost : ∀ a k, post a k → post' a k) :
    Returns r s post' :=
  fun a t ht => hpost a _ (h a t ht)

theorem pure {a : α} (h : post a (nextKind s.ahead)) : Returns (Pure.pure a) s post := by
  intro b t ht
  cases ht
  exact h

theorem fail {c : Cause} : Returns (Rule.fail c) s post := fun _ _ h => nomatch h

theorem throw {f : SyntaxFault} : Returns (MonadExcept.throw f) s post := fun _ _ h => nomatch h

theorem bind {x : Rule g α} {f : α → Rule g β} (hx : Returns x s post)
    (hf : ∀ a t, post a (nextKind t.ahead) → Returns (f a) t end_) : Returns (x >>= f) s end_ := by
  intro b u h
  obtain ⟨a, t, hat, hbu⟩ := bind_eq_ok.1 h
  exact hf a t (hx a t hat) b u hbu

theorem map {x : Rule g α} {f : α → β} (hx : Returns x s fun a k => end_ (f a) k) :
    Returns (f <$> x) s end_ := by
  rw [map_eq_pure_bind]
  exact hx.bind fun a t h => .pure h

/-- The kind of token that is next decides on the branch, and stays next if it is not read. -/
theorem accept {p : TokenKind → Bool} (hp : p .endOfFile = false) {f : Option Token → Rule g β}
    (hnone : p (nextKind s.ahead) = false → Returns (f none) s end_)
    (hsome : ∀ u t, p u.kind = true → nextKind s.ahead = u.kind → Returns (f (some u)) t end_) :
    Returns (Rule.accept p >>= f) s end_ := by
  intro b u h
  obtain ⟨o, t, hot, hbu⟩ := bind_eq_ok.1 h
  obtain ⟨rfl, rfl, hk⟩ | ⟨u, rest, rfl, hs, hk, rfl⟩ := accept_eq_ok hp hot
  · exact hnone hk b _ hbu
  · exact hsome u _ hk (by simp [hs]) b _ hbu

theorem demand {e : Expectation} : Returns (Rule.demand e) s fun t _ => t.kind = e.kind := by
  have hp : (TokenKind.endOfFile == e.kind) = false := by cases e <;> rfl
  unfold Rule.demand acceptKind
  exact accept hp (fun _ => .fail) fun u t hu _ => .pure (by simpa using hu)

/-- Nothing is read by a look at the next token. -/
theorem peek {look : Rule g Bool} {c : Bool} {f : Bool → Rule g β} (hlook : look s = .ok c s)
    (h : ∀ b, Returns (f b) s end_) : Returns (look >>= f) s end_ := by
  intro b u hbu
  rw [bind_of_ok hlook] at hbu
  exact h c b u hbu

theorem within {r : Rule g α} (h : ∀ s, Returns r s post) : Returns (Rule.within r) s post := by
  intro a t ht
  unfold Rule.within at ht
  split at ht
  · split at ht <;> cases ht
    rename_i a u hr
    have hpost := h _ _ _ hr
    exact hpost
  · cases ht

/-- What each step keeps, the whole iteration keeps. -/
theorem iterate {step : α → Rule g (Option α)} {inv : α → Prop} {a : α}
    (hstep : ∀ a s, inv a → Returns (step a) s fun o _ => ∀ b ∈ o, inv b) (ha : inv a) :
    Returns (Rule.iterate step a) s fun b _ => inv b := by
  have upTo (n : Nat) : ∀ a s, inv a → Returns (iterateUpTo step n a) s fun b _ => inv b := by
    induction n with
    | zero => exact fun a s ha => .pure ha
    | succ n ih =>
      intro a s ha
      refine (hstep a s ha).bind fun o t ho => ?_
      cases o with
      | none => exact .pure ha
      | some b => exact ih b t (ho b rfl)
  exact upTo _ a s ha

/-- What holds of each thing that a rule yields holds of all that are collected. -/
theorem many {r : Rule g (Option α)} {inv : α → Prop}
    (hr : ∀ s, Returns r s fun o _ => ∀ a ∈ o, inv a) :
    Returns (Rule.many r) s fun as _ => ∀ a ∈ as, inv a := by
  have upTo (n : Nat) : ∀ s, Returns (manyUpTo r n) s fun as _ => ∀ a ∈ as, inv a := by
    induction n with
    | zero => exact fun s => .pure (by simp)
    | succ n ih =>
      intro s
      refine (hr s).bind fun o t ho => ?_
      cases o with
      | none => exact .pure (by simp)
      | some a => exact .map ((ih t).mono fun as _ has => by simpa using ⟨ho a rfl, has⟩)
  exact upTo _ s

theorem recovering {r : Rule g α} {inv : α → Prop} (hr : Returns r s fun a _ => inv a) :
    Returns (Rule.recovering r) s fun o _ => ∀ a ∈ o, inv a := by
  intro o t ht
  unfold Rule.recovering at ht
  split at ht <;> cases ht
  · rename_i a hrs
    simpa using hr a _ hrs
  · simp

end Returns

end Rule

end ScrapeScript
