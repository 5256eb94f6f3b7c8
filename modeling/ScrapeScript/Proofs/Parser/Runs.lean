import ScrapeScript.Parser.Basic
import ScrapeScript.Proofs.Grammar.Phrase

namespace ScrapeScript

namespace Rule

variable {g : Setting} {α β : Type}

theorem bind_eq_ok {x : Rule g α} {f : α → Rule g β} {s u : State g} {b : β} :
    (x >>= f) s = .ok b u ↔ ∃ a t, x s = .ok a t ∧ f a t = .ok b u := by
  show EStateM.bind x f s = _ ↔ _
  unfold EStateM.bind
  cases x s <;> simp [and_assoc]

theorem accept_eq_ok {p : TokenKind → Bool} (hp : p .endOfFile = false) {s t : State g}
    {o : Option Token} (h : accept p s = .ok o t) :
    (o = none ∧ t = s ∧ p (nextKind s.ahead) = false) ∨
      ∃ u rest, o = some u ∧ s.ahead = u :: rest ∧ p u.kind = true ∧
        t = { s with ahead := rest } := by
  unfold accept at h
  split at h <;> rename_i hs
  · cases h
    exact .inl ⟨rfl, rfl, by simp [hs, hp]⟩
  · split at h <;> rename_i hk <;> cases h
    · exact .inr ⟨_, _, rfl, hs, hk, rfl⟩
    · exact .inl ⟨rfl, rfl, by simpa [hs] using hk⟩

theorem bind_of_ok {x : Rule g α} {f : α → Rule g β} {s t : State g} {a : α} (h : x s = .ok a t) :
    (x >>= f) s = f a t := by
  show EStateM.bind x f s = _
  simp only [EStateM.bind, h]

theorem bind_of_error {x : Rule g α} {f : α → Rule g β} {s t : State g} {e : SyntaxFault}
    (h : x s = .error e t) : (x >>= f) s = .error e t := by
  show EStateM.bind x f s = _
  simp only [EStateM.bind, h]

section Tokens

variable {p : TokenKind → Bool} {k : Option Token → Rule g β} {s : State g} {t : Token}
  {rest : List Token}

theorem accept_bind_some (hs : s.ahead = t :: rest) (ht : p t.kind = true) :
    (Rule.accept p >>= k) s = k (some t) { s with ahead := rest } :=
  bind_of_ok (by simp [Rule.accept, hs, ht])

theorem accept_bind_none (hs : p (nextKind s.ahead) = false) :
    (Rule.accept p >>= k) s = k none s := by
  apply bind_of_ok
  unfold Rule.accept
  split
  · rfl
  · simp_all

theorem demand_eq_ok {e : Expectation} (hs : s.ahead = t :: rest) (ht : t.kind = e.kind) :
    demand e s = .ok t { s with ahead := rest } :=
  accept_bind_some hs (by simp [ht])

theorem demand_eq_error {e : Expectation} (hs : nextKind s.ahead ≠ e.kind) :
    demand e s = .error ⟨.missing e, s.next⟩ s :=
  accept_bind_none (by simpa using hs)

theorem accepts_or_not (p : TokenKind → Bool) (hp : p .endOfFile = false) (ts : List Token) :
    p (nextKind ts) = false ∨ ∃ t rest, ts = t :: rest ∧ p t.kind = true := by
  cases ts with
  | nil => exact .inl hp
  | cons t rest =>
    cases ht : p t.kind with
    | false => exact .inl ht
    | true => exact .inr ⟨t, rest, rfl, ht⟩

theorem nextIs_eq {kind : TokenKind} (h : kind ≠ .endOfFile) (s : State g) :
    nextIs kind s = .ok (nextKind s.ahead == kind) s := by
  unfold nextIs
  cases s.ahead with
  | nil => simp [Ne.symm h]
  | cons t rest => rfl

theorem stopsAt_eq (hp : p .endOfFile = true) (s : State g) :
    stopsAt p s = .ok (p (nextKind s.ahead)) s := by
  unfold stopsAt
  cases s.ahead with
  | nil => simp [hp]
  | cons t rest => rfl

end Tokens

end Rule

end ScrapeScript
