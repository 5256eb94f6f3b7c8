import ScrapeScript.Proofs.Parser.Faults

namespace ScrapeScript

/-- A fault at the next of these tokens, which is the sign if a value has no target. -/
structure SyntaxFault.At (f : SyntaxFault) (final : Token) (ts : List Token) : Prop where
  token : f.token = ts.headD final
  sign : f.cause = .assignmentTarget → f.token.kind = .equals

/-- Faults from one place on and before another, each behind the one before it. Only behind the
final token there is no other place. -/
inductive Located (final : Token) : List Token → List SyntaxFault → List Token → Prop
  | nothing {us vs : List Token} : vs <:+ us → Located final us [] vs
  | next {us ts vs : List Token} {f : SyntaxFault} {fs : List SyntaxFault} : ts <:+ us →
    f.At final ts → Located final ts.tail fs vs → Located final us (f :: fs) vs

namespace Located

variable {final : Token} {us vs ws : List Token} {fs gs : List SyntaxFault}

theorem earlier (hus : us <:+ ws) (h : Located final us fs vs) : Located final ws fs vs := by
  cases h with
  | nothing hvs => exact .nothing (hvs.trans hus)
  | next hts hf hfs => exact .next (hts.trans hus) hf hfs

theorem append (h : Located final us fs vs) (h' : Located final vs gs ws) :
    Located final us (fs ++ gs) ws := by
  induction h with
  | nothing hvs => exact h'.earlier hvs
  | next hts hf _ ih => exact .next hts hf (ih h')

theorem later (h : Located final us fs vs) (hws : ws <:+ vs) : Located final us fs ws :=
  List.append_nil fs ▸ h.append (.nothing hws)

end Located

/-- Recovery passes over one token at least. -/
theorem Recovery.resume_suffix_tail (ts : List Token) : resume ts <:+ ts.tail := by
  cases ts with
  | nil => exact List.suffix_refl []
  | cons t rest => exact seek_suffix t rest

namespace Rule

variable {g : Setting} {α β : Type}

/-- The tokens behind all that a run has looked at, the one that it refuses included. -/
def beyond : EStateM.Result SyntaxFault (State g) α → List Token
  | .ok _ t => t.ahead
  | .error _ t => t.ahead.tail

/-- A rule adds faults in the order of their places. These may be among the tokens `before`, which
have just been read. -/
structure Orderly (before : List Token) (r : Rule g α) : Prop where
  keeps : Keeps r
  located (s : State g) : ∃ fs, faultsOf (r s) = s.faults ++ fs ∧
    Located g.final (before ++ s.ahead) fs (beyond (r s))

namespace Orderly

variable {before : List Token}

theorem behind {r : Rule g α} (h : Orderly [] r) (before : List Token) : Orderly before r where
  keeps := h.keeps
  located s := by
    obtain ⟨fs, hfs, hlocated⟩ := h.located s
    exact ⟨fs, hfs, hlocated.earlier (List.suffix_append before s.ahead)⟩

theorem pure (a : α) : Orderly before (Pure.pure a : Rule g α) where
  keeps := .pure a
  located s := ⟨[], (List.append_nil s.faults).symm, .nothing (List.suffix_append before s.ahead)⟩

theorem fail {c : Cause} (hc : c ≠ .assignmentTarget) : Orderly [] (Rule.fail c : Rule g α) where
  keeps := .fail c
  located s :=
    ⟨[⟨c, s.next⟩], rfl, .next (List.suffix_refl _) ⟨rfl, fun h => absurd h hc⟩
      (.nothing (List.suffix_refl _))⟩

theorem bind {x : Rule g α} {f : α → Rule g β} (hx : Orderly before x)
    (hf : ∀ a, Orderly [] (f a)) : Orderly before (x >>= f) where
  keeps := hx.keeps.bind fun a => (hf a).keeps
  located s := by
    obtain ⟨fs, hfs, hlocated⟩ := hx.located s
    cases h : x s with
    | error e t =>
      rw [h] at hfs hlocated
      rw [bind_of_error h]
      exact ⟨fs, hfs, hlocated⟩
    | ok a t =>
      rw [h] at hfs hlocated
      rw [bind_of_ok h]
      obtain ⟨gs, hgs, hlocated'⟩ := (hf a).located t
      have ht : t.faults = s.faults ++ fs := hfs
      exact ⟨fs ++ gs, by rw [hgs, ht, List.append_assoc], hlocated.append hlocated'⟩

theorem accept {p : TokenKind → Bool} {f : Option Token → Rule g β} (hp : p .endOfFile = false)
    (hnone : Orderly [] (f none)) (hsome : ∀ t, p t.kind = true → Orderly [t] (f (some t))) :
    Orderly [] (Rule.accept p >>= f) where
  keeps := .accept_bind hp hnone.keeps fun t ht => (hsome t ht).keeps
  located s := by
    obtain hs | ⟨t, rest, hs, ht⟩ := accepts_or_not p hp s.ahead
    · rw [accept_bind_none hs]
      exact hnone.located s
    · rw [accept_bind_some hs ht, hs]
      exact (hsome t ht).located { s with ahead := rest }

/-- A sign is refused after its value is read, in which nothing is refused before. -/
theorem refuse {x : Rule g α} (hx : Orderly [] x) (hsilent : ∀ s, recorded (x s) = s.faults)
    {op : Token} (hop : op.kind = .equals) :
    Orderly [op] (x >>= fun _ => throw ⟨.assignmentTarget, op⟩ : Rule g β) where
  keeps := hx.keeps.bind fun _ => .throw _
  located s := by
    obtain ⟨fs, hfs, hlocated⟩ := hx.located s
    have hrecorded := hsilent s
    cases h : x s with
    | error e t =>
      rw [h] at hfs hlocated
      rw [bind_of_error h]
      exact ⟨fs, hfs, hlocated.earlier (List.suffix_cons op s.ahead)⟩
    | ok a t =>
      rw [h] at hfs hlocated hrecorded
      rw [bind_of_ok h]
      have ht : t.faults = s.faults := hrecorded
      have hread : t.ahead.tail <:+ s.ahead := by
        rw [show faultsOf (.ok a t) = t.faults from rfl, ht] at hfs
        obtain rfl := List.self_eq_append_right.1 hfs
        cases hlocated with
        | nothing hsuffix => exact (List.tail_suffix _).trans hsuffix
      refine ⟨[⟨.assignmentTarget, op⟩], congrArg (· ++ [_]) ht, ?_⟩
      exact .next (List.suffix_refl _) ⟨rfl, fun _ => hop⟩ (.nothing hread)

theorem peek {look : Rule g Bool} {p : TokenKind → Bool} {f : Bool → Rule g β}
    (hlook : ∀ s, look s = .ok (p (nextKind s.ahead)) s) (hf : ∀ b, Orderly [] (f b)) :
    Orderly [] (look >>= f) where
  keeps s := by
    rw [bind_of_ok (hlook s)]
    exact (hf _).keeps s
  located s := by
    rw [bind_of_ok (hlook s)]
    exact (hf _).located s

theorem within {r : Rule g α} (hr : Orderly [] r) : Orderly [] (Rule.within r) where
  keeps := .within hr.keeps
  located s := by
    unfold Rule.within
    split
    · rename_i h
      obtain ⟨fs, hfs, hlocated⟩ := hr.located (s.enter h)
      split <;> rename_i hend <;> rw [hend] at hfs hlocated <;> exact ⟨fs, hfs, hlocated⟩
    · have hfail : Orderly [] (Rule.fail (.tooDeep g.limit) : Rule g α) := fail (by simp)
      exact hfail.located s

/-- What is left after a fault is behind the token that is refused, unless that is the final one. -/
theorem recovering {r : Rule g α} (hr : Orderly [] r) : Orderly [] (Rule.recovering r) where
  keeps := .recovering hr.keeps
  located s := by
    obtain ⟨fs, hfs, hlocated⟩ := hr.located s
    refine ⟨fs, (faultsOf_recovering r s).trans hfs, ?_⟩
    unfold Rule.recovering
    cases h : r s with
    | ok a t =>
      rw [h] at hlocated
      exact hlocated
    | error f t =>
      rw [h] at hlocated
      exact hlocated.later (Recovery.resume_suffix_tail t.ahead)

end Orderly

end Rule

end ScrapeScript
