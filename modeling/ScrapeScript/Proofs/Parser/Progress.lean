import ScrapeScript.Proofs.Parser.Routines

namespace ScrapeScript

theorem ne_nil_of_nextKind {ts : List Token} (h : nextKind ts ≠ .endOfFile) : ts ≠ [] := by
  rintro rfl
  exact h rfl

namespace Rule

variable {g : Setting} {α : Type} {s t : State g}

/-- A later state: nothing is read twice, and each level that was entered has been left. -/
structure Onward (s t : State g) : Prop where
  suffix : t.ahead <:+ s.ahead
  depth_eq : t.depth = s.depth

theorem Onward.refl (s : State g) : Onward s s := ⟨List.suffix_refl _, rfl⟩

theorem Onward.trans {u : State g} (h : Onward s t) (h' : Onward t u) : Onward s u :=
  ⟨h'.suffix.trans h.suffix, h'.depth_eq.trans h.depth_eq⟩

theorem Onward.passage {q : TokenKind → Prop} : Passage q fun s t : State g => Onward s t where
  refl := Onward.refl
  trans h h' := h.trans h'
  depth_eq h := h.depth_eq
  read {s t rest} hs _ := ⟨hs ▸ List.suffix_cons t rest, rfl⟩
  within h h' := ⟨h'.suffix, by simp [State.leave, h'.depth_eq, State.enter]⟩

theorem Onward.resume {f : SyntaxFault} (h : Onward s t) :
    Onward s { t with ahead := Recovery.resume t.ahead, faults := t.faults ++ [f] } :=
  ⟨(Recovery.resume_suffix _).trans h.suffix, h.depth_eq⟩

theorem Onward.length_le (h : Onward s t) : t.ahead.length ≤ s.ahead.length := h.suffix.length_le

/-- Whatever a routine meets, it goes on from there and leaves the levels it has entered. -/
theorem Routine.onward (r : Routine α) (s : State g) :
    Onward s (stateOf (r.rule .ofGrammar s)) :=
  r.leads Onward.passage (fun _ _ _ h => h.resume) s

theorem Routine.onward_of_ok (r : Routine α) {a : α} (h : r.rule .ofGrammar s = .ok a t) :
    Onward s t := by
  have hend := r.onward s
  rwa [h] at hend

theorem demand_advances {e : Expectation} {u : Token} (h : demand e s = .ok u t) :
    t.ahead.length < s.ahead.length := by
  obtain ⟨o, u', ho, hu⟩ := bind_eq_ok.1 h
  obtain ⟨rfl, -, -⟩ | ⟨v, rest, rfl, hs, -, rfl⟩ :=
    accept_eq_ok (by cases e <;> rfl) ho
  · cases hu
  · cases hu
    rw [hs]
    exact Nat.lt_succ_self _

theorem expressionStatement_advances {x : Stmt} (h : expressionStatement expression s = .ok x t) :
    t.ahead.length < s.ahead.length := by
  obtain ⟨e, u, he, hrest⟩ := bind_eq_ok.1 h
  obtain ⟨stop, v, hstop, hpure⟩ := bind_eq_ok.1 hrest
  cases hpure
  exact Nat.lt_of_lt_of_le (demand_advances hstop) (Routine.expression.onward_of_ok he).length_le

/-- A form is what stands behind its first word, or an expression. -/
theorem form_cases (s : State g) :
    form expression statement s = expressionStatement expression s ∨
      ∃ word rest, s.ahead = word :: rest ∧ word.kind.startsForm = true ∧
        form expression statement s =
          behind word.kind expression statement { s with ahead := rest } := by
  unfold form
  obtain hk | ⟨word, rest, hs, hword⟩ := accepts_or_not TokenKind.startsForm rfl s.ahead
  · exact .inl (accept_bind_none hk)
  · exact .inr ⟨word, rest, hs, hword, accept_bind_some hs hword⟩

theorem form_advances {x : Stmt} (h : form expression statement s = .ok x t) :
    t.ahead.length < s.ahead.length := by
  obtain hform | ⟨word, rest, hs, -, hform⟩ := form_cases s
  · exact expressionStatement_advances (hform ▸ h)
  · have hbehind := ((Routine.behind word.kind).onward_of_ok (hform ▸ h)).length_le
    rw [hs]
    exact Nat.lt_succ_of_le hbehind

theorem statement_advances {x : Stmt} (h : statement s = .ok x t) :
    t.ahead.length < s.ahead.length := by
  rw [statement_eq_within] at h
  unfold within at h
  split at h
  · split at h <;> cases h
    rename_i hform
    have hlength := form_advances hform
    exact hlength
  · cases h

/-- A rule that reads something if it succeeds leaves less behind in any case, because one token is
dropped after a fault. -/
theorem recovering_advances {r : Rule g α} (hs : s.ahead ≠ []) (honward : Onward s (stateOf (r s)))
    (hok : ∀ a t, r s = .ok a t → t.ahead.length < s.ahead.length) :
    ∃ o t, recovering r s = .ok o t ∧ t.ahead.length < s.ahead.length := by
  unfold recovering
  cases h : r s with
  | ok a t => exact ⟨some a, t, rfl, hok a t h⟩
  | error f t =>
    rw [h] at honward
    refine ⟨none, _, rfl, ?_⟩
    by_cases ht : t.ahead = []
    · simpa [ht, Recovery.resume] using List.length_pos_iff.2 hs
    · exact Nat.lt_of_lt_of_le (Recovery.resume_length_lt ht) honward.length_le

/-- What is recovered from is a statement, or what stands behind the word of a variable. -/
theorem declaration_cases (s : State g) :
    declaration expression statement s = recovering statement s ∨
      ∃ word rest, s.ahead = word :: rest ∧ word.kind = .varWord ∧
        declaration expression statement s =
          recovering (fun s => variableDeclaration expression { s with ahead := rest }) s := by
  unfold declaration recovering
  obtain hk | ⟨word, rest, hs, hword⟩ := accepts_or_not (· == .varWord) rfl s.ahead
  · rw [acceptKind, accept_bind_none hk]
    exact .inl rfl
  · rw [acceptKind, accept_bind_some hs hword]
    exact .inr ⟨word, rest, hs, by simpa using hword, rfl⟩

/-- A declaration is read or passed over, and at least one token is gone. -/
theorem declaration_advances (hs : s.ahead ≠ []) :
    ∃ o t, declaration expression statement s = .ok o t ∧ t.ahead.length < s.ahead.length := by
  obtain h | ⟨word, rest, hahead, -, h⟩ := declaration_cases s
  · rw [h]
    exact recovering_advances hs (Routine.statement.onward s) fun _ _ => statement_advances
  · rw [h]
    have hread : Onward s { s with ahead := rest } := ⟨hahead ▸ List.suffix_cons word rest, rfl⟩
    refine recovering_advances hs (hread.trans (Routine.variableDeclaration.onward _))
      fun x t hx => ?_
    have hrest := (Routine.variableDeclaration.onward_of_ok hx).length_le
    rw [hahead]
    exact Nat.lt_succ_of_le hrest

section Loops

variable {r : Rule g (Option α)} {a : α} {as : List α} {u : State g}

/-- A turn that leaves less is part of a loop for any bound that is large enough. -/
theorem manyUpTo_step (hr : r s = .ok (some a) t) (hlt : t.ahead.length < s.ahead.length)
    (has : ∀ n, t.ahead.length ≤ n → manyUpTo r n t = .ok as u) :
    ∀ n, s.ahead.length ≤ n → manyUpTo r n s = .ok (a :: as) u := by
  intro n hn
  obtain ⟨n, rfl⟩ : ∃ m, n = m + 1 := ⟨n - 1, by omega⟩
  rw [manyUpTo, bind_of_ok hr]
  simp only [map_eq_pure_bind, bind_of_ok (has n (by omega))]
  rfl

/-- A loop whose turns each leave less ends by itself, whatever larger bound it is given. -/
theorem manyUpTo_ends {q : State g → Prop}
    (hr : ∀ s, (r s = .ok none s ∧ q s) ∨
      ∃ a t, r s = .ok (some a) t ∧ Onward s t ∧ t.ahead.length < s.ahead.length) (s : State g) :
    ∃ as t, (∀ n, s.ahead.length ≤ n → manyUpTo r n s = .ok as t) ∧ Onward s t ∧ q t := by
  induction hlength : s.ahead.length using Nat.strongRecOn generalizing s with
  | _ length ih =>
    obtain ⟨hnone, hq⟩ | ⟨a, t, hsome, hst, hlt⟩ := hr s
    · refine ⟨[], s, fun n _ => ?_, Onward.refl s, hq⟩
      cases n with
      | zero => rfl
      | succ n => exact bind_of_ok hnone
    · obtain ⟨as, u, hu, htu, hq⟩ := ih t.ahead.length (hlength ▸ hlt) t rfl
      exact ⟨a :: as, u, hlength ▸ manyUpTo_step hsome hlt hu, hst.trans htu, hq⟩

end Loops

section Declarations

variable {p : TokenKind → Bool} {o : Option Stmt} {ss : List Stmt} {u : State g}

theorem declarationUnless_of_ok (hp : p .endOfFile = true) (hs : p (nextKind s.ahead) = false)
    (ho : declaration expression statement s = .ok o t) :
    declarationUnless p expression statement s = .ok (some o) t := by
  unfold declarationUnless
  rw [bind_of_ok (stopsAt_eq hp s), hs]
  simp only [map_eq_pure_bind]
  exact bind_of_ok ho

/-- Declarations are read up to a token at which they end, which they reach in any case. -/
theorem declarations_end (hp : p .endOfFile = true) (s : State g) :
    ∃ found t, (∀ n, s.ahead.length ≤ n →
      manyUpTo (declarationUnless p expression statement) n s = .ok found t) ∧
        Onward s t ∧ p (nextKind t.ahead) = true := by
  refine manyUpTo_ends (q := fun t => p (nextKind t.ahead) = true) (fun s => ?_) s
  cases hk : p (nextKind s.ahead) with
  | true =>
    refine .inl ⟨?_, rfl⟩
    unfold declarationUnless
    rw [bind_of_ok (stopsAt_eq hp s), hk]
    rfl
  | false =>
    have hs : s.ahead ≠ [] := by
      intro h
      rw [h, nextKind_nil, hp] at hk
      cases hk
    obtain ⟨o, t, ht, hlt⟩ := declaration_advances hs
    exact .inr ⟨o, t, declarationUnless_of_ok hp hk ht, Routine.declaration.onward_of_ok ht, hlt⟩

theorem declarationsUntil_eq_ok {found : List (Option Stmt)} (h : ∀ n, s.ahead.length ≤ n →
    manyUpTo (declarationUnless p expression statement) n s = .ok found t) :
    declarationsUntil p expression statement s = .ok (found.filterMap id) t :=
  bind_of_ok (x := many _) (h _ (Nat.le_refl _))

theorem declarationsUntil_ends (hp : p .endOfFile = true) (s : State g) :
    ∃ ss t, declarationsUntil p expression statement s = .ok ss t ∧ Onward s t ∧
      p (nextKind t.ahead) = true := by
  obtain ⟨found, t, hfound, honward, hend⟩ := declarations_end hp s
  exact ⟨found.filterMap id, t, declarationsUntil_eq_ok hfound, honward, hend⟩

/-- Declarations are the first of them, if that is not passed over, and the others after it. -/
theorem declarationsUntil_step (hp : p .endOfFile = true) (hs : p (nextKind s.ahead) = false) :
    declarationsUntil p expression statement s =
      (do
        let o ← declaration expression statement
        (o.toList ++ ·) <$> declarationsUntil p expression statement) s := by
  obtain ⟨o, t, ho, hlt⟩ := declaration_advances (s := s) fun h => by simp [h, hp] at hs
  obtain ⟨found, u, hfound, -⟩ := declarations_end hp t
  have hall := manyUpTo_step (declarationUnless_of_ok hp hs ho) hlt hfound
  rw [declarationsUntil_eq_ok hall, bind_of_ok ho, map_eq_pure_bind,
    bind_of_ok (declarationsUntil_eq_ok hfound)]
  cases o <;> rfl

theorem program_ends (s : State g) :
    ∃ ss t, program s = .ok ss t ∧ Onward s t ∧ nextKind t.ahead = .endOfFile := by
  obtain ⟨ss, t, hrun, honward, hend⟩ := declarationsUntil_ends (p := (· == .endOfFile)) rfl s
  exact ⟨ss, t, hrun, honward, by simpa using hend⟩

theorem program_step (hs : nextKind s.ahead ≠ .endOfFile)
    (ho : declaration expression statement s = .ok o t) (hss : program t = .ok ss u) :
    program s = .ok (o.toList ++ ss) u := by
  rw [program, declarationsUntil_step rfl (by simpa using hs), bind_of_ok ho, map_eq_pure_bind]
  exact bind_of_ok hss

end Declarations

end Rule

theorem TokenStream.parse_of_ok {stream : TokenStream} {limit : Int} {ss : List Stmt}
    {t : State ⟨limit, stream.final⟩}
    (h : Rule.program (.start _ stream.ahead) = .ok ss t) :
    stream.parse limit = ⟨ss, t.faults, t.ahead⟩ := by
  unfold parse
  rw [h]

/-- Parsing is a run of the rule for programs that ends at an end of file. -/
theorem TokenStream.parse_ends (stream : TokenStream) (limit : Int) :
    ∃ t, Rule.program (.start ⟨limit, stream.final⟩ stream.ahead) =
        .ok (stream.parse limit).statements t ∧
      t.faults = (stream.parse limit).faults ∧ t.ahead = (stream.parse limit).ahead ∧
      Rule.Onward (.start ⟨limit, stream.final⟩ stream.ahead) t ∧
      nextKind t.ahead = .endOfFile := by
  obtain ⟨ss, t, hrun, honward, hend⟩ :=
    Rule.program_ends (.start ⟨limit, stream.final⟩ stream.ahead)
  rw [parse_of_ok hrun]
  exact ⟨t, hrun, rfl, rfl, honward, hend⟩

end ScrapeScript
