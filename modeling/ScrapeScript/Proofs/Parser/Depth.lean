import ScrapeScript.Proofs.Parser.Progress

namespace ScrapeScript

namespace Rule

/-- The counter of levels while a step on it is under way: what it holds, and all that has been
stored in it since the step began. -/
structure Counter where
  count : Int
  stored : List Int
deriving DecidableEq

/-- A step on the counter, which may end in a refusal. -/
abbrev Counting := EStateM Unit Counter

namespace Counting

def store (count : Int) : Counting Unit := modify fun c => ⟨count, c.stored ++ [count]⟩

/-- One level more is stored and then compared with the limit. If it is above, what was stored is
taken back before it is refused. -/
def enter (limit : Int) : Counting Unit := do
  store ((← get).count + 1)
  if (← get).count > limit then
    store ((← get).count - 1)
    throw ()

def leave : Counting Unit := do
  store ((← get).count - 1)

variable {limit count : Int}

theorem enter_of_le (h : count + 1 ≤ limit) :
    enter limit ⟨count, []⟩ = .ok () ⟨count + 1, [count + 1]⟩ := by
  show (if count + 1 > limit then _ else _ : Counting Unit) ⟨count + 1, [count + 1]⟩ = _
  rw [if_neg (by omega)]
  rfl

/-- A level too many is in the counter until it is taken back, and no longer than the step. -/
theorem enter_of_lt (h : limit < count + 1) :
    enter limit ⟨count, []⟩ = .error () ⟨count, [count + 1, count]⟩ := by
  show (if count + 1 > limit then _ else _ : Counting Unit) ⟨count + 1, [count + 1]⟩ = _
  rw [if_pos h]
  show EStateM.Result.error () (Counter.mk (count + 1 - 1) [count + 1, count + 1 - 1]) = _
  rw [Int.add_sub_cancel]

end Counting

variable {g : Setting} {α : Type} {d n : Nat} {s : State g}

/-- What is done where a run goes astray, whatever it is to return there. -/
abbrev Stray (g : Setting) : Type 1 := (α : Type) → Rule g α

section Steps

variable (stray : Stray g)

/-- Sets the depth to a count, which may be any integer. A run goes astray if the count is below
zero or above the levels there are. -/
def setDepth (count : Int) : Rule g Unit := fun s =>
  if h : 0 ≤ count ∧ count ≤ max g.limit 0 then
    .ok () { s with depth := count.toNat, depth_le := by unfold Setting.levels; omega }
  else
    stray Unit s

/-- A step on the counter is taken as a whole: what counts is what it leaves there, whether it ends
in a refusal or not. -/
def step (op : Counting Unit) : Rule g Unit := fun s =>
  match op ⟨s.depth, []⟩ with
  | .ok _ c => setDepth stray c.count s
  | .error _ c => (do setDepth stray c.count; fail (.tooDeep g.limit)) s

/-- A rule between a level counted in and a level counted out, whether it fails or not. -/
def counted (rule : Rule g α) : Rule g α := do
  step stray (Counting.enter g.limit)
  try rule finally step stray Counting.leave

theorem setDepth_eq {count : Nat} (h : count ≤ g.levels) :
    setDepth stray count s = .ok () { s with depth := count, depth_le := h } := by
  have hrange : 0 ≤ (count : Int) ∧ (count : Int) ≤ max g.limit 0 := by
    unfold Setting.levels at h
    omega
  unfold setDepth
  rw [dif_pos hrange]
  rfl

theorem step_enter_of_lt (h : s.depth < g.levels) :
    step stray (Counting.enter g.limit) s = .ok () (s.enter h) := by
  have hlimit : (s.depth : Int) + 1 ≤ g.limit := by
    unfold Setting.levels at h
    omega
  unfold step
  rw [Counting.enter_of_le hlimit]
  exact setDepth_eq stray h

theorem step_enter_of_not_lt (h : ¬s.depth < g.levels) :
    step stray (Counting.enter g.limit) s = fail (.tooDeep g.limit) s := by
  have hlimit : g.limit < (s.depth : Int) + 1 := by
    unfold Setting.levels at h
    omega
  unfold step
  rw [Counting.enter_of_lt hlimit]
  exact bind_of_ok (setDepth_eq stray s.depth_le)

theorem step_leave (h : s.depth = n + 1) : step stray Counting.leave s = .ok () s.leave := by
  have hcount : (s.depth : Int) - 1 = (s.depth - 1 : Nat) := by omega
  show setDepth stray ((s.depth : Int) - 1) s = _
  rw [hcount]
  exact setDepth_eq stray _

/-- What is done at last is done in the state that the rule ends in. How it ends stays as it is. -/
theorem finally_eq {r : Rule g α} {f : Rule g Unit} {t : State g}
    (hf : f (stateOf (r s)) = .ok () t) :
    (try r finally f) s =
      match r s with
      | .ok a _ => .ok a t
      | .error e _ => .error e t := by
  cases hr : r s with
  | ok a u =>
    have hf : f u = .ok () t := by rwa [hr] at hf
    simp [tryFinally, tryFinally', Functor.map, EStateM.map, hr, hf]
  | error e u =>
    have hf : f u = .ok () t := by rwa [hr] at hf
    simp [tryFinally, tryFinally', Functor.map, EStateM.map, hr, hf]

/-- To count in and out is to enter a level and to leave it, for a rule that keeps the depth. -/
theorem counted_eq {r : Rule g α}
    (hr : ∀ h : s.depth < g.levels, (stateOf (r (s.enter h))).depth = s.depth + 1) :
    counted stray r s = within r s := by
  unfold within
  split
  · rename_i h
    have hin : counted stray r s = (try r finally step stray Counting.leave) (s.enter h) :=
      bind_of_ok (step_enter_of_lt stray h)
    rw [hin, finally_eq (step_leave stray (hr h))]
    cases r (s.enter h) <;> rfl
  · rename_i h
    exact bind_of_error (step_enter_of_not_lt stray h)

theorem Along.counted {fs : List SyntaxFault} {q : TokenKind → Prop}
    {R : State g → State g → Prop} {r r' : Rule g α} (hR : Passage q R)
    (hr : Along fs R (d + 1) r r') : Along fs R d (Rule.within r) (Rule.counted stray r') := by
  intro s hs
  obtain ⟨hsame, hlead⟩ := hr.within hR s hs
  refine ⟨(counted_eq stray fun h => ?_).trans hsame, hlead⟩
  obtain ⟨hinner, hkept⟩ := hr (s.enter h) (congrArg (· + 1) hs)
  calc (stateOf (r' ((s.enter h).afterFaults fs))).depth
      = (stateOf (afterFaults fs (r (s.enter h)))).depth := by rw [hinner]
    _ = (stateOf (r (s.enter h))).depth := by cases r (s.enter h) <;> rfl
    _ = s.depth + 1 := hR.depth_eq hkept

end Steps

/-- The rules of the grammar with counts in the place of levels. They call each other at most so
many times, one inside the other, before a run goes astray, and nothing but the counter stops them
earlier. -/
def Callees.counted (stray : Stray g) : Nat → Callees g
  | 0 => ⟨stray Expr, stray Expr, stray Stmt⟩
  | n + 1 =>
    let inner := counted stray n
    { expression := Rule.counted stray (assignment inner.expression inner.operand)
      operand := Rule.counted stray (unary inner.expression inner.operand)
      statement := Rule.counted stray (form inner.expression inner.statement) }

theorem Callees.ofGrammar_eq : (ofGrammar : Callees g) =
    { expression := within (assignment Rule.expression Rule.operand)
      operand := within (unary Rule.expression Rule.operand)
      statement := within (form Rule.expression Rule.statement) } := by
  rw [← expression_eq_within, ← operand_eq_within, ← statement_eq_within]
  rfl

/-- There are no more calls inside each other than levels left, and one that is refused. -/
theorem Callees.along_counted (stray : Stray g) (h : g.levels < d + n) :
    ofGrammar.Along [] (fun s t : State g => t.depth = s.depth) d (counted stray n) := by
  induction n generalizing d with
  | zero =>
    -- No state is as deep as that.
    have hnone (s : State g) (hs : s.depth = d) : False := by
      have hle := s.depth_le
      omega
    exact ⟨fun s hs => (hnone s hs).elim, fun s hs => (hnone s hs).elim,
      fun s hs => (hnone s hs).elim⟩
  | succ n ih =>
    have hR : Passage (· ≠ .endOfFile) fun s t : State g => t.depth = s.depth := .sameDepth
    obtain ⟨he, ho, hs⟩ := ih (d := d + 1) (by omega)
    rw [ofGrammar_eq]
    exact
      { expression := .counted stray hR (assignment_along .sameDepth he ho)
        operand := .counted stray hR (unary_along .sameDepth he ho)
        statement := .counted stray hR (form_along hR he hs fun _ _ _ h => h) }

/-- Whatever is read and however it ends, a routine leaves the depth as it was. Nothing is changed
if levels are only counted in and out, whatever is done where a step leaves the counter out of
range: none does. The guard, from the level that it counts in to its refusal, is one of these steps.
Inside it the counter is above the levels there are where it refuses, by one and until that is taken
back, and nowhere else. -/
theorem depth_accounted (r : Routine α) (s : State g) :
    (stateOf (r.rule .ofGrammar s)).depth = s.depth ∧
      (∀ (stray : Stray g) (n : Nat), g.levels < n →
        r.rule (.counted stray n) s = r.rule .ofGrammar s) ∧
      Counting.enter g.limit ⟨s.depth, []⟩ =
        if s.depth < g.levels then .ok () ⟨s.depth + 1, [(s.depth : Int) + 1]⟩
        else .error () ⟨s.depth, [(s.depth : Int) + 1, s.depth]⟩ := by
  have hR : Passage (· ≠ .endOfFile) fun s t : State g => t.depth = s.depth := .sameDepth
  refine ⟨?_, fun stray n hn => ?_, ?_⟩
  · exact r.leads hR (fun _ _ _ h => h) s
  · have hcounted := Callees.along_counted stray (d := s.depth) (n := n) (by omega)
    exact (r.along hR (fun _ _ _ h => h) hcounted).eq rfl
  · unfold Setting.levels
    split
    · exact Counting.enter_of_le (by omega)
    · exact Counting.enter_of_lt (by omega)

/-- One level is entered already, and two more before the limit is met by what is in parentheses. A
guard that is met at the limit holds one level more before it refuses it. -/
theorem depth_accounted_tooDeep :
    let s : State ⟨3, .ofKind .endOfFile⟩ :=
      ⟨[.leftParen, .identifier, .rightParen, .semicolon].map Token.ofKind, 1, [], by decide⟩
    let full : State ⟨3, .ofKind .endOfFile⟩ := ⟨[], 3, [], by decide⟩
    let o := Routine.statement.rule .ofGrammar s
    o = .error ⟨.tooDeep 3, .ofKind .identifier⟩ { s with ahead := s.ahead.tail } ∧
      (stateOf o).depth = 1 ∧
      Routine.statement.rule (.counted (fun _ => fail .propertyName) 4) s = o ∧
      Counting.enter 3 ⟨full.depth, []⟩ = .error () ⟨3, [4, 3]⟩ := by
  intro s full o
  obtain ⟨hdepth, hcounted, -⟩ := depth_accounted .statement s
  exact ⟨rfl, hdepth, hcounted _ 4 (by decide), (depth_accounted .primary full).2.2⟩

end Rule

end ScrapeScript
