import ScrapeScript.Proofs.Grammar.Spelling
import ScrapeScript.Proofs.Parser.Progress

namespace ScrapeScript

/-- Some of these tokens, in their order, fill the slots. -/
abbrev Picked (slots : List Slot) (ts : List Token) : Prop :=
  List.SublistForall₂ Slot.Admits slots ts

theorem Picked.append {xs ys : List Slot} {ts us : List Token} (hxs : Picked xs ts)
    (hys : Picked ys us) : Picked (xs ++ ys) (ts ++ us) := by
  rw [Picked, List.sublistForall₂_iff] at *
  obtain ⟨vs, hfills, hvs⟩ := hxs
  obtain ⟨ws, hfills', hws⟩ := hys
  exact ⟨vs ++ ws, Fills.append hfills hfills', hvs.append hws⟩

theorem Picked.length_le {xs : List Slot} {ts : List Token} (h : Picked xs ts) :
    xs.length ≤ ts.length := by
  obtain ⟨us, hfills, hus⟩ := List.sublistForall₂_iff.1 h
  exact hfills.length_eq ▸ hus.length_le

namespace Rule

variable {g : Setting} {α β : Type}

/-- What a rule makes is written with the slots there were before, and then with slots that are
filled by some of the tokens it reads or passes over. -/
def Gathers (before : List Slot) (r : Rule g α) (after : α → List Slot) : Prop :=
  ∀ s a t, r s = .ok a t → ∃ slots ts, after a = before ++ slots ∧ s.ahead = ts ++ t.ahead ∧
    Picked slots ts

namespace Gathers

variable {before : List Slot} {mid after : α → List Slot} {after' : β → List Slot}

theorem pure {a : α} (h : after a = before) : Gathers before (Pure.pure a : Rule g α) after := by
  intro s b t ht
  cases ht
  exact ⟨[], [], by rw [h, List.append_nil], rfl, .nil⟩

theorem fail {c : Cause} : Gathers before (Rule.fail c : Rule g α) after :=
  fun _ _ _ h => nomatch h

theorem throw {f : SyntaxFault} : Gathers before (MonadExcept.throw f : Rule g α) after :=
  fun _ _ _ h => nomatch h

theorem bind {x : Rule g α} {f : α → Rule g β} (hx : Gathers before x mid)
    (hf : ∀ a, Gathers (mid a) (f a) after') : Gathers before (x >>= f) after' := by
  intro s b u h
  obtain ⟨a, t, hat, hbu⟩ := bind_eq_ok.1 h
  obtain ⟨xs, ts, hmid, hts, hxs⟩ := hx s a t hat
  obtain ⟨ys, us, hafter, hus, hys⟩ := hf a t b u hbu
  refine ⟨xs ++ ys, ts ++ us, ?_, ?_, hxs.append hys⟩
  · rw [hafter, hmid, List.append_assoc]
  · rw [hts, hus, List.append_assoc]

theorem map {x : Rule g α} {f : α → β} (hx : Gathers before x mid)
    (h : ∀ a, after' (f a) = mid a) : Gathers before (f <$> x) after' := by
  rw [map_eq_pure_bind]
  exact hx.bind fun a => .pure (h a)

/-- A rule that begins anew goes on from any slots. -/
theorem behind {r : Rule g α} (h : Gathers [] r after) (before : List Slot) :
    Gathers before r fun a => before ++ after a := by
  intro s a t ht
  obtain ⟨slots, ts, hafter, hts, hslots⟩ := h s a t ht
  rw [List.nil_append] at hafter
  exact ⟨slots, ts, congrArg _ hafter, hts, hslots⟩

/-- A token that is read fills one slot more. -/
theorem accept {p : TokenKind → Bool} {f : Option Token → Rule g β}
    (hp : p .endOfFile = false) (hnone : Gathers before (f none) after')
    (hsome : ∀ t, p t.kind = true →
      ∃ x, Slot.Admits x t ∧ Gathers (before ++ [x]) (f (some t)) after') :
    Gathers before (Rule.accept p >>= f) after' := by
  intro s b u h
  obtain ⟨o, t, hot, hbu⟩ := bind_eq_ok.1 h
  obtain ⟨rfl, rfl, -⟩ | ⟨v, rest, rfl, hs, hv, rfl⟩ := accept_eq_ok hp hot
  · exact hnone _ b u hbu
  · obtain ⟨x, hx, hf⟩ := hsome v hv
    obtain ⟨slots, ts, hafter, hts, hslots⟩ := hf _ b u hbu
    refine ⟨x :: slots, v :: ts, ?_, ?_, .cons hx hslots⟩
    · rw [hafter, List.append_assoc, List.singleton_append]
    · rw [hs, List.cons_append]
      exact congrArg (v :: ·) hts

theorem demand {e : Expectation} (x : Token → Slot)
    (hx : ∀ t, t.kind = e.kind → (x t).Admits t) :
    Gathers before (Rule.demand e : Rule g Token) fun t => before ++ [x t] := by
  have hp : (e.kind == .endOfFile) = false := by simpa using e.kind_ne_endOfFile
  refine accept (by rwa [BEq.comm]) .fail fun t ht => ⟨x t, hx t (by simpa using ht), .pure rfl⟩

/-- A token that the tree does not keep. -/
theorem demand_kind {e : Expectation} :
    Gathers before (Rule.demand e : Rule g Token) fun _ => before ++ [.kind e.kind] :=
  demand (fun _ => .kind e.kind) fun _ h => h

theorem demand_kept {e : Expectation} :
    Gathers before (Rule.demand e : Rule g Token) fun t => before ++ [.kept t] :=
  demand Slot.kept fun _ _ => rfl

/-- Nothing is read by a look at the next token. -/
theorem peek {look : Rule g Bool} {p : TokenKind → Bool} {f : Bool → Rule g β}
    (hlook : ∀ s, look s = .ok (p (nextKind s.ahead)) s) (hf : ∀ b, Gathers before (f b) after') :
    Gathers before (look >>= f) after' := by
  intro s b u h
  rw [bind_of_ok (hlook s)] at h
  exact hf _ s b u h

theorem within {r : Rule g α} (h : Gathers before r after) :
    Gathers before (Rule.within r) after := by
  intro s a t ht
  unfold Rule.within at ht
  split at ht
  · split at ht <;> cases ht
    rename_i hr
    have hgathered := h _ _ _ hr
    exact hgathered
  · cases ht

/-- What each step adds, the whole iteration adds. -/
theorem iterate {step : α → Rule g (Option α)}
    (hstep : ∀ a, Gathers (after a) (step a) fun o => after (o.getD a)) (a : α) :
    Gathers (after a) (Rule.iterate step a) after := by
  have upTo (n : Nat) : ∀ a, Gathers (after a) (iterateUpTo step n a) after := by
    induction n with
    | zero => exact fun a => .pure rfl
    | succ n ih =>
      refine fun a => (hstep a).bind fun o => ?_
      cases o with
      | none => exact .pure rfl
      | some b => exact ih b
  exact fun s => upTo _ a s

/-- What is collected is written with the slots of each part, one after the other. -/
theorem many {r : Rule g (Option α)} {all : List α → List Slot} (hnil : all [] = [])
    (hcons : ∀ a as, all (a :: as) = after a ++ all as)
    (hr : Gathers [] r fun o => o.elim [] after) : Gathers [] (Rule.many r) all := by
  have upTo (n : Nat) : Gathers [] (manyUpTo r n) all := by
    induction n with
    | zero => exact .pure hnil
    | succ n ih =>
      refine hr.bind fun o => ?_
      cases o with
      | none => exact .pure hnil
      | some a => exact (ih.behind _).map fun as => hcons a as
  exact fun s => upTo _ s

/-- A rule that fails makes nothing, and what it has read and what is passed over fills no slot. -/
theorem recovering {r : Rule g α} (hr : Gathers [] r after)
    (honward : ∀ s, Onward s (stateOf (Rule.recovering r s))) :
    Gathers [] (Rule.recovering r) fun o => o.elim [] after := by
  intro s o u h
  have hs := (honward s).suffix
  rw [h] at hs
  cases o with
  | none =>
    obtain ⟨ts, hts⟩ := hs
    exact ⟨[], ts, rfl, hts.symm, .nil⟩
  | some a =>
    unfold Rule.recovering at h
    split at h <;> cases h
    rename_i hra
    exact hr _ _ _ hra

end Gathers

end Rule

end ScrapeScript
