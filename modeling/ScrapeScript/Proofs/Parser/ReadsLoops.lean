import ScrapeScript.Proofs.Parser.Reads

namespace ScrapeScript

namespace Rule

variable {g : Setting} {ι : Type} {g' : ι → Setting} {α : Type}

/-- A rule that reads nothing where nothing can be read. -/
def Idle (r : Rule g (Option α)) : Prop :=
  ∀ s, nextKind s.ahead = .endOfFile → r s = .ok none s

theorem idle_accept_bind {p : TokenKind → Bool} (hp : p .endOfFile = false)
    {k : Option Token → Rule g (Option α)} (hk : k none = pure none) :
    Idle (Rule.accept p >>= k) := by
  intro s hs
  rw [accept_bind_none (by rw [hs, hp]), hk]
  rfl

/-- What is collected, put in front of what was collected before it. -/
theorem manyUpTo_eq (r : Rule g (Option α)) (n : Nat) (as : List α) :
    (fun bs => as.reverse ++ bs) <$> manyUpTo r n =
      List.reverse <$> iterateUpTo (fun as => Option.map (· :: as) <$> r) n as := by
  induction n generalizing as with
  | zero => simp [manyUpTo, iterateUpTo]
  | succ n ih =>
    simp only [manyUpTo, iterateUpTo, map_bind, bind_map_left]
    refine bind_congr fun o => ?_
    cases o with
    | none => simp
    | some a =>
      have h := ih (a :: as)
      simpa [Functor.map_map] using h

theorem many_eq_iterate (r : Rule g (Option α)) :
    many r = List.reverse <$> iterate (fun as => Option.map (· :: as) <$> r) [] := by
  funext s
  have h := congrFun (manyUpTo_eq r s.ahead.length []) s
  simp only [List.reverse_nil, List.nil_append, id_map'] at h
  exact h

namespace Reads

variable {loose : Prop} {l : α → Language (Option α)}
  {step : α → Rule g (Option α)} {step' : ∀ i, α → Rule (g' i) (Option α)}

theorem iterateUpTo_clean (hstep : ∀ a, Reads loose (step a) (fun i => step' i a) (l a))
    (hstop : ∀ a, l a [] none) (hmore : ∀ a b, ¬l a [] (some b)) (hidle : ∀ i a, Idle (step' i a))
    {n : Nat} {a c : α} {s t : State g} (hn : s.ahead.length ≤ n)
    (h : iterateUpTo step n a s = .ok c t) (ht : t.faults = s.faults) :
    t.depth = s.depth ∧ ∃ ts, s.ahead = ts ++ t.ahead ∧ Language.Star l a ts c ∧
      ∀ i n', ts.length ≤ n' →
        Makes (iterateUpTo (step' i) n' a) s.depth ts c (nextKind t.ahead) := by
  have hkeeps := Keeps.iterateUpTo fun a => (hstep a).keeps
  induction n generalizing a s with
  | zero =>
    have hs : s.ahead = [] := List.length_eq_zero_iff.1 (Nat.le_zero.1 hn)
    cases h
    refine ⟨rfl, [], rfl, .stop (hstop _), fun i n' _ s' v _ hv hk => ?_⟩
    obtain rfl : s'.ahead = v := hv
    rw [hs] at hk
    cases n' with
    | zero => rfl
    | succ n' => exact bind_of_ok (hidle i _ s' hk)
  | succ n ih =>
    obtain ⟨o, u, hou, hu, hcu⟩ := (hstep a).keeps.bind_clean (fun o => by
      cases o with
      | none => exact .pure a
      | some b => exact hkeeps n b) h ht
    obtain ⟨hdepth, us, hus, hl, hmakes⟩ := (hstep a).clean hou hu
    cases o with
    | none =>
      cases hcu
      refine ⟨hdepth, us, hus, .stop hl, fun i n' hn' s' v hs' hv hk => ?_⟩
      cases n' with
      | zero =>
        obtain rfl := List.length_eq_zero_iff.1 (Nat.le_zero.1 hn')
        obtain rfl : s'.ahead = v := hv
        rfl
      | succ n' => exact bind_of_ok (hmakes i s' v hs' hv hk)
    | some b =>
      -- A step that makes something reads something, so that either bound goes down by one.
      have hpos := Language.length_pos hl (hmore a b)
      have hlen := congrArg List.length hus
      rw [List.length_append] at hlen
      obtain ⟨hdepth', vs, hvs, hstar, hmakes'⟩ := ih (by omega) hcu (ht.trans hu.symm)
      refine ⟨hdepth'.trans hdepth, us ++ vs, by rw [hus, hvs, List.append_assoc],
        .step hl hstar, fun i n' hn' => ?_⟩
      rw [List.length_append] at hn'
      obtain ⟨n', rfl⟩ : ∃ m, n' = m + 1 := ⟨n' - 1, by omega⟩
      refine (hmakes i).bind (hdepth ▸ hmakes' i n' (by omega)) fun v hv => ?_
      rw [hvs]
      exact nextKind_append_congr hv vs

theorem iterateUpTo_fault (hstep : ∀ a, Reads loose (step a) (fun i => step' i a) (l a))
    (hstop : ∀ a, l a [] none) (hmore : ∀ a b, ¬l a [] (some b)) (hidle : ∀ i a, Idle (step' i a))
    {n : Nat} {a : α} {s : State g} {f : SyntaxFault} (hf : FirstFault (iterateUpTo step n a) s f)
    (hdeep : ¬f.IsTooDeep) :
    ∃ ts rest, FaultAfter s f ts rest ∧ (loose → (Language.Star l a).Begins ts) ∧
      ∀ i n' s' v, s'.depth = s.depth → s'.ahead = ts ++ v → nextKind v = nextKind rest →
        s'.ahead.length ≤ n' → Faulty (iterateUpTo (step' i) n' a) s' := by
  have hkeeps := Keeps.iterateUpTo fun a => (hstep a).keeps
  have hkeeps' (i : ι) := Keeps.iterateUpTo fun a => (hstep a).keeps' i
  induction n generalizing a s with
  | zero => exact absurd hf not_firstFault_self
  | succ n ih =>
    obtain h | ⟨o, t, hot, ht, h⟩ := hf.of_bind (hstep a).keeps fun o => by
      cases o with
      | none => exact .pure a
      | some b => exact hkeeps n b
    · obtain ⟨ts, rest, hafter, hcomplete, hrefuses⟩ := (hstep a).fault h hdeep
      refine ⟨ts, rest, hafter, fun hloose => (hcomplete hloose).star hstop,
        fun i n' s' v hs' hv hk hn' => ?_⟩
      have hfaulty := hrefuses i s' v hs' hv hk
      cases n' with
      | zero =>
        -- With nothing left to read the step has no fault to find.
        have hs : s'.ahead = [] := List.length_eq_zero_iff.1 (Nat.le_zero.1 hn')
        have hidle := hidle i a s' (by rw [hs]; rfl)
        exact absurd (by rw [hidle]; rfl) hfaulty
      | succ n' =>
        refine hfaulty.bind ((hstep a).keeps' i) fun o => ?_
        cases o with
        | none => exact .pure a
        | some b => exact hkeeps' i n' b
    · cases o with
      | none => exact absurd h not_firstFault_self
      | some b =>
        obtain ⟨hdepth, us, hus, hl, hmakes⟩ := (hstep a).clean hot ht
        have hpos := Language.length_pos hl (hmore a b)
        obtain ⟨ts, rest, hafter, hcomplete, hrefuses⟩ := ih h
        refine ⟨us ++ ts, rest, hafter.append hus, fun hloose => ?_,
          fun i n' s' v hs' hv hk hn' => ?_⟩
        · obtain ⟨vs, c, hc⟩ := hcomplete hloose
          exact ⟨vs, c, by rw [List.append_assoc]; exact .step hl hc⟩
        · rw [hv, List.append_assoc, List.length_append, List.length_append] at hn'
          obtain ⟨n', rfl⟩ : ∃ m, n' = m + 1 := ⟨n' - 1, by omega⟩
          rw [List.append_assoc] at hv
          have hnext : nextKind (ts ++ v) = nextKind t.ahead := by
            rw [hafter.ahead]
            exact nextKind_append_congr hk ts
          have hlen : (ts ++ v).length ≤ n' := by
            rw [List.length_append]
            omega
          refine .bind_of_ok (hmakes i s' (ts ++ v) hs' hv hnext) rfl ?_
          exact hrefuses i n' _ v (hs'.trans hdepth.symm) rfl hk hlen

/-- Steps that read something, up to one that reads nothing, are read one after the other. -/
theorem iterate (hstep : ∀ a, Reads loose (step a) (fun i => step' i a) (l a))
    (hstop : ∀ a, l a [] none) (hmore : ∀ a b, ¬l a [] (some b)) (hidle : ∀ i a, Idle (step' i a))
    (a : α) :
    Reads loose (Rule.iterate step a) (fun i => Rule.iterate (step' i) a) (.Star l a) where
  possible := ⟨[], a, .stop (hstop a)⟩
  keeps s := Keeps.iterateUpTo (fun a => (hstep a).keeps) s.ahead.length a s
  keeps' i s := Keeps.iterateUpTo (fun a => (hstep a).keeps' i) s.ahead.length a s
  clean {s t c} h ht := by
    obtain ⟨hdepth, ts, hts, hl, hmakes⟩ :=
      iterateUpTo_clean hstep hstop hmore hidle (Nat.le_refl _) h ht
    refine ⟨hdepth, ts, hts, hl, fun i s' v hs' hv hk => ?_⟩
    have hlen : ts.length ≤ s'.ahead.length := by rw [hv, List.length_append]; omega
    exact hmakes i s'.ahead.length hlen s' v hs' hv hk
  fault hf hdeep := by
    obtain ⟨ts, rest, hafter, hcomplete, hrefuses⟩ :=
      iterateUpTo_fault hstep hstop hmore hidle hf hdeep
    exact ⟨ts, rest, hafter, hcomplete, fun i s' v hs' hv hk =>
      hrefuses i s'.ahead.length s' v hs' hv hk (Nat.le_refl _)⟩

theorem many {r : Rule g (Option α)} {r' : ∀ i, Rule (g' i) (Option α)} {l : Language (Option α)}
    (h : Reads loose r r' l) (hstop : l [] none) (hmore : ∀ a, ¬l [] (some a))
    (hidle : ∀ i, Idle (r' i)) :
    Reads loose (Rule.many r) (fun i => Rule.many (r' i)) (.Many l) := by
  -- The things found so far are carried from step to step, the last of them first.
  let m (as : List α) : Language (Option (List α)) := fun ts o => ∃ a, l ts a ∧ o = a.map (· :: as)
  have hstep (as : List α) : Reads loose (Option.map (· :: as) <$> r)
      (fun i => Option.map (· :: as) <$> r' i) (m as) := h.map fun ts o ho => ⟨o, ho, rfl⟩
  have hidle (i : ι) (as : List α) : Idle (Option.map (· :: as) <$> r' i) := by
    intro s hs
    rw [map_eq_pure_bind, bind_of_ok (hidle i s hs)]
    rfl
  have hmore (as bs : List α) : ¬m as [] (some bs) := by
    rintro ⟨o, ho, hbs⟩
    cases o with
    | none => cases hbs
    | some a => exact hmore a ho
  have hall (as cs : List α) (ts : List Token) (hs : Language.Star m as ts cs) :
      ∃ bs, cs.reverse = as.reverse ++ bs ∧ Language.Many l ts bs := by
    induction hs with
    | stop h =>
      obtain ⟨o, ho, hnone⟩ := h
      cases o with
      | none => exact ⟨[], by simp, .stop ho⟩
      | some a => cases hnone
    | step h _ ih =>
      obtain ⟨bs, hbs, hmany⟩ := ih
      obtain ⟨o, ho, hsome⟩ := h
      cases o with
      | none => cases hsome
      | some a =>
        cases hsome
        exact ⟨a :: bs, by simpa using hbs, .next ho hmany⟩
  simp only [many_eq_iterate]
  refine (iterate hstep (fun as => ⟨none, hstop, rfl⟩) hmore hidle []).map fun ts as hs => ?_
  obtain ⟨bs, hbs, hmany⟩ := hall [] as ts hs
  simpa [hbs] using hmany

end Reads

end Rule

end ScrapeScript
