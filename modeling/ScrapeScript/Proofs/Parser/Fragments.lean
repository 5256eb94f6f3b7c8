import ScrapeScript.Proofs.Parser.Progress

namespace ScrapeScript

namespace TokenKind

/-- A statement that begins with this token has no others in it. -/
def StartsAlone (k : TokenKind) : Prop := k ≠ .leftBrace ∧ k ≠ .ifWord ∧ k ≠ .forWord

theorem StartsAlone.of_startsForm {k : TokenKind} (h : StartsAlone k) (hk : k.startsForm = true) :
    k = .fetch ∨ k = .save ∨ k = .print := by
  obtain ⟨hbrace, hif, hfor⟩ := h
  cases k <;> trivial

end TokenKind

/-- What may stand before the semicolon of one statement, well-formed or not: no token that ends or
opens a statement, save for a first one that opens a statement without others in it. -/
structure Fragment (ts : List Token) : Prop where
  kinds : ∀ t ∈ ts, t.kind ≠ .semicolon ∧ t.kind ≠ .endOfFile ∧ t.isTrivia = false
  head : ∀ t ∈ ts.head?, t.kind.StartsAlone
  tail : ∀ t ∈ ts.tail, t.kind.startsStatement = false

namespace Recovery

variable {ts rest : List Token} {previous stop : Token}

theorem seek_semicolon (h : previous.kind = .semicolon) (rest : List Token) :
    seek previous rest = rest := by
  cases rest with
  | nil => rfl
  | cons t rest => simp [seek, h]

theorem seek_append (hprevious : previous.kind ≠ .semicolon)
    (hts : ∀ t ∈ ts, t.kind ≠ .semicolon ∧ t.kind.startsStatement = false)
    (hstop : stop.kind = .semicolon) : seek previous (ts ++ stop :: rest) = rest := by
  induction ts generalizing previous with
  | nil =>
    have hstart : stop.kind.startsStatement = false := by rw [hstop]; rfl
    simp [seek, hprevious, hstart, seek_semicolon hstop]
  | cons t ts ih =>
    obtain ⟨ht, hts⟩ := List.forall_mem_cons.1 hts
    simp [seek, hprevious, ht.2, ih ht.1 hts]

/-- From anywhere before a semicolon, recovery goes right behind it. -/
theorem resume_append (hts : ∀ t ∈ ts, t.kind ≠ .semicolon)
    (htail : ∀ t ∈ ts.tail, t.kind.startsStatement = false) (hstop : stop.kind = .semicolon) :
    resume (ts ++ stop :: rest) = rest := by
  cases ts with
  | nil => exact seek_semicolon hstop rest
  | cons t ts =>
    obtain ⟨ht, hts⟩ := List.forall_mem_cons.1 hts
    exact seek_append ht (fun u hu => ⟨hts u hu, htail u hu⟩) hstop

end Recovery

namespace Rule

variable {g : Setting} {α β : Type} {s t : State g}

/-- A later state before the same semicolon, with nothing else changed. -/
structure Inside (s t : State g) : Prop where
  ahead : ∃ ts, s.ahead = ts ++ t.ahead ∧ ∀ u ∈ ts, u.kind ≠ .semicolon
  faults_eq : t.faults = s.faults
  depth_eq : t.depth = s.depth

theorem Inside.trans {u : State g} (h : Inside s t) (h' : Inside t u) : Inside s u := by
  obtain ⟨ts, hts, hkinds⟩ := h.ahead
  obtain ⟨us, hus, hkinds'⟩ := h'.ahead
  refine ⟨⟨ts ++ us, ?_, ?_⟩, h'.faults_eq.trans h.faults_eq, h'.depth_eq.trans h.depth_eq⟩
  · rw [hts, hus, List.append_assoc]
  · exact fun u hu => (List.mem_append.1 hu).elim (hkinds u) (hkinds' u)

theorem Inside.read {t : Token} {rest : List Token} (hs : s.ahead = t :: rest)
    (ht : t.kind ≠ .semicolon) : Inside s { s with ahead := rest } :=
  ⟨⟨[t], hs, by simpa using ht⟩, rfl, rfl⟩

theorem Inside.passage : Passage (· ≠ .semicolon) fun s t : State g => Inside s t where
  refl s := ⟨⟨[], rfl, by simp⟩, rfl, rfl⟩
  trans h h' := h.trans h'
  depth_eq h := h.depth_eq
  read hs ht := Inside.read hs ht
  within h h' := ⟨h'.ahead, h'.faults_eq, by simp [State.leave, h'.depth_eq, State.enter]⟩

theorem expression_along_inside (d : Nat) :
    Along [] (fun s t : State g => Inside s t) d expression expression :=
  expression_along (Inside.passage.mono fun _ hk => TokenKind.ne_of_class hk rfl)

/-- A statement ends right behind the first semicolon, or fails before it. -/
def Concluded (s : State g) : EStateM.Result SyntaxFault (State g) α → Prop
  | .ok _ t => ∃ u stop rest, Inside s u ∧ u.ahead = stop :: rest ∧ stop.kind = .semicolon ∧
      t = { u with ahead := rest }
  | .error _ t => Inside s t

theorem Inside.concluded {r : EStateM.Result SyntaxFault (State g) α} (h : Inside s t)
    (hr : Concluded t r) : Concluded s r := by
  cases r with
  | error f v => exact h.trans hr
  | ok a v =>
    obtain ⟨u, stop, rest, hu, hrest⟩ := hr
    exact ⟨u, stop, rest, h.trans hu, hrest⟩

theorem bind_concluded {x : Rule g α} {f : α → Rule g β}
    (hx : Along [] (fun s t => Inside s t) s.depth x x) (hf : ∀ a t, Concluded t (f a t)) :
    Concluded s ((x >>= f) s) := by
  have hinside := (hx s rfl).2
  cases h : x s with
  | error e t =>
    rw [h] at hinside
    rw [bind_of_error h]
    exact hinside
  | ok a t =>
    rw [h] at hinside
    rw [bind_of_ok h]
    exact Inside.concluded hinside (hf a t)

theorem demand_inside {e : Expectation} (he : e.kind ≠ .semicolon) (d : Nat) :
    Along [] (fun s t : State g => Inside s t) d (demand e) (demand e) :=
  .demand Inside.passage he

theorem stop_concluded {e : Expectation} (he : e.kind = .semicolon) (a : α) (s : State g) :
    Concluded s ((do let _ ← demand e; return a) s) := by
  obtain hk | ⟨stop, rest, hs, hstop⟩ := accepts_or_not (· == .semicolon) rfl s.ahead
  · rw [bind_of_error (demand_eq_error (by simpa [he] using hk))]
    exact Inside.passage.refl s
  · have hstop : stop.kind = .semicolon := by simpa using hstop
    rw [bind_of_ok (demand_eq_ok hs (hstop.trans he.symm))]
    exact ⟨s, stop, rest, Inside.passage.refl s, hs, hstop, rfl⟩

theorem variableDeclaration_concluded (s : State g) :
    Concluded s (variableDeclaration expression s) := by
  refine bind_concluded (demand_inside (by decide) _) fun _ s => bind_concluded ?_ fun _ s =>
    stop_concluded rfl _ s
  exact .acceptKind Inside.passage nofun nofun (.pure Inside.passage none) fun _ _ =>
    (expression_along_inside _).map Inside.passage _

theorem expressionStatement_concluded (s : State g) :
    Concluded s (expressionStatement expression s) :=
  bind_concluded (expression_along_inside _) fun _ s => stop_concluded rfl _ s

theorem command_concluded {o c e : Expectation} (ho : o.kind ≠ .semicolon)
    (hc : c.kind ≠ .semicolon) (he : e.kind = .semicolon) (make : Expr → Stmt) (s : State g) :
    Concluded s ((do
      let _ ← demand o
      let x ← expression
      let _ ← demand c
      let _ ← demand e
      return make x) s) :=
  bind_concluded (demand_inside ho _) fun _ _ => bind_concluded (expression_along_inside _)
    fun _ _ => bind_concluded (demand_inside hc _) fun _ s => stop_concluded he _ s

theorem save_concluded (s : State g) : Concluded s (save expression s) :=
  bind_concluded (demand_inside (by decide) _) fun _ _ => bind_concluded (expression_along_inside _)
    fun _ _ => bind_concluded (demand_inside (by decide) _) fun _ _ =>
      bind_concluded (expression_along_inside _) fun _ _ =>
        bind_concluded (demand_inside (by decide) _) fun _ s => stop_concluded rfl _ s

theorem form_concluded (hs : (nextKind s.ahead).StartsAlone) :
    Concluded s (form expression statement s) := by
  obtain hform | ⟨word, rest, hahead, hword, hform⟩ := form_cases s
  · rw [hform]
    exact expressionStatement_concluded s
  · rw [hform]
    rw [hahead, nextKind_cons] at hs
    refine (Inside.read hahead (TokenKind.ne_of_class hword rfl)).concluded ?_
    obtain hk | hk | hk := hs.of_startsForm hword <;> rw [hk]
    · exact command_concluded (by decide) (by decide) rfl _ _
    · exact save_concluded _
    · exact command_concluded (by decide) (by decide) rfl _ _

theorem within_concluded {r : Rule g α}
    (hr : ∀ h : s.depth < g.levels, Concluded (s.enter h) (r (s.enter h))) :
    Concluded s (within r s) := by
  unfold within
  by_cases h : s.depth < g.levels
  · rw [dif_pos h]
    have hconcluded := hr h
    cases hend : r (s.enter h) with
    | error f t =>
      rw [hend] at hconcluded
      exact Inside.passage.within h hconcluded
    | ok a t =>
      rw [hend] at hconcluded
      obtain ⟨u, stop, rest, hu, hahead, hstop, rfl⟩ := hconcluded
      exact ⟨u.leave, stop, rest, Inside.passage.within h hu, hahead, hstop, rfl⟩
  · rw [dif_neg h]
    exact Inside.passage.refl s

theorem statement_concluded (hs : (nextKind s.ahead).StartsAlone) : Concluded s (statement s) := by
  rw [statement_eq_within]
  exact within_concluded fun _ => form_concluded hs

section Recovered

variable {ts rest : List Token} {stop : Token}

/-- Nothing but what is ahead has changed before the semicolon. -/
theorem Inside.with_eq (h : Inside s t) (ahead : List Token) (fs : List SyntaxFault) :
    ({ t with ahead := ahead, faults := t.faults ++ fs } : State g) =
      { s with ahead := ahead, faults := s.faults ++ fs } := by
  obtain ⟨-, hfaults, hdepth⟩ := h
  cases s
  cases t
  simp_all

/-- Before the semicolon, what is ahead is left of the tokens before it. -/
theorem Inside.exists_append (h : Inside s t) (hs : s.ahead = ts ++ stop :: rest)
    (hstop : stop.kind = .semicolon) :
    ∃ us vs, ts = us ++ vs ∧ t.ahead = vs ++ stop :: rest := by
  obtain ⟨us, hus, hkinds⟩ := h.ahead
  rw [hs] at hus
  obtain ⟨vs, hvs, hstops⟩ | ⟨vs, hts, ht⟩ := List.append_eq_append_iff.1 hus
  · cases vs with
    | nil => exact ⟨ts, [], by simp, by simpa using hstops.symm⟩
    | cons v vs =>
      obtain rfl : stop = v := List.head_eq_of_cons_eq hstops
      exact absurd hstop (hkinds stop (by simp [hvs]))
  · exact ⟨us, vs, hts, ht⟩

/-- Recovery from a statement of these tokens goes on where the statement would have ended. -/
theorem recovering_concluded {r : Rule g α} (hr : Concluded s (r s))
    (hs : s.ahead = ts ++ stop :: rest) (hts : ∀ t ∈ ts, t.kind ≠ .semicolon)
    (htail : ∀ t ∈ ts.tail, t.kind.startsStatement = false) (hstop : stop.kind = .semicolon) :
    (∃ a, recovering r s = .ok (some a) { s with ahead := rest }) ∨
      ∃ f, recovering r s = .ok none { s with ahead := rest, faults := s.faults ++ [f] } := by
  unfold recovering
  cases hend : r s with
  | ok a t =>
    rw [hend] at hr
    obtain ⟨u, stop', rest', hu, hahead, hstop', rfl⟩ := hr
    obtain ⟨us, vs, rfl, hvs⟩ := hu.exists_append hs hstop
    rw [hahead] at hvs
    cases vs with
    | nil =>
      obtain rfl : rest' = rest := List.tail_eq_of_cons_eq hvs
      have hstate := hu.with_eq rest' []
      simp only [List.append_nil] at hstate
      exact .inl ⟨a, congrArg _ hstate⟩
    | cons v vs =>
      obtain rfl : stop' = v := List.head_eq_of_cons_eq hvs
      exact absurd hstop' (hts stop' (by simp))
  | error f t =>
    rw [hend] at hr
    have hinside : Inside s t := hr
    obtain ⟨us, vs, rfl, hvs⟩ := hinside.exists_append hs hstop
    have hresume : Recovery.resume t.ahead = rest := by
      rw [hvs]
      refine Recovery.resume_append (fun t ht => hts t (by simp [ht])) (fun t ht => ?_) hstop
      cases us with
      | nil => exact htail t ht
      | cons u us => exact htail t (by simp [List.mem_of_mem_tail ht])
    exact .inr ⟨f, by simp only [hresume, hinside.with_eq]⟩

/-- One statement, well-formed or not, is read or costs one fault, and its semicolon is the last
token that is gone. -/
theorem declaration_of_fragment (hts : Fragment ts) (hs : s.ahead = ts ++ stop :: rest)
    (hstop : stop.kind = .semicolon) :
    (∃ x, declaration expression statement s = .ok (some x) { s with ahead := rest }) ∨
      ∃ f, declaration expression statement s =
        .ok none { s with ahead := rest, faults := s.faults ++ [f] } := by
  have hkinds : ∀ t ∈ ts, t.kind ≠ .semicolon := fun t ht => (hts.kinds t ht).1
  have hstart : (nextKind s.ahead).StartsAlone := by
    rw [hs]
    cases ts with
    | nil => exact ⟨by simp [hstop], by simp [hstop], by simp [hstop]⟩
    | cons t ts => exact hts.head t rfl
  obtain h | ⟨word, rest', hahead, hword, h⟩ := declaration_cases s
  · rw [h]
    exact recovering_concluded (statement_concluded hstart) hs hkinds hts.tail hstop
  · rw [h]
    have hread : Inside s { s with ahead := rest' } := Inside.read hahead (by rw [hword]; nofun)
    exact recovering_concluded (hread.concluded (variableDeclaration_concluded _)) hs hkinds
      hts.tail hstop

end Recovered

end Rule

end ScrapeScript
