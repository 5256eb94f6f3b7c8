import ScrapeScript.Proofs.Tree.Leaves

namespace ScrapeScript

theorem Slot.eq_of_leaves {as bs : List Slot} (hshape : as.map shape = bs.map shape)
    (htokens : as.filterMap token? = bs.filterMap token?)
    (hvalues : as.filterMap value? = bs.filterMap value?) : as = bs := by
  induction as generalizing bs with
  | nil => simpa [eq_comm] using hshape
  | cons a as ih =>
    cases bs with
    | nil => cases hshape
    | cons b bs =>
      obtain ⟨hab, hshape⟩ := List.cons.inj hshape
      have ih := @ih bs hshape
      cases a <;> cases b <;> simp_all [shape, mapLeaf, token?, value?, List.filterMap_cons]

namespace Expr

theorem length_slots_of_shape {e e' : Expr} (h : e.shape = e'.shape) :
    e.slots.length = e'.slots.length := by
  have hslots := congrArg (fun e => e.slots.length) h
  simpa [shape, slots_mapLeaves] using hslots

theorem eq_of_slotsOfMore {as as' : List Expr}
    (ih : ∀ a ∈ as, ∀ a', a.shape = a'.shape → a.slots = a'.slots → a = a')
    (hshape : as.map shape = as'.map shape) (hslots : slotsOfMore as = slotsOfMore as') :
    as = as' := by
  induction as generalizing as' with
  | nil => simpa [eq_comm] using hshape
  | cons a as iha =>
    cases as' with
    | nil => cases hshape
    | cons a' as' =>
      obtain ⟨ha, has⟩ := List.cons.inj hshape
      obtain ⟨ih, ihas⟩ := List.forall_mem_cons.1 ih
      obtain ⟨hfirst, hrest⟩ :=
        List.append_inj (List.cons.inj hslots).2 (length_slots_of_shape ha)
      rw [ih a' ha hfirst, iha ihas has hrest]

theorem eq_of_slotsOfArguments {as as' : List Expr}
    (ih : ∀ a ∈ as, ∀ a', a.shape = a'.shape → a.slots = a'.slots → a = a')
    (hshape : as.map shape = as'.map shape) (hslots : slotsOfArguments as = slotsOfArguments as') :
    as = as' := by
  cases as with
  | nil => simpa [eq_comm] using hshape
  | cons a as =>
    cases as' with
    | nil => cases hshape
    | cons a' as' =>
      obtain ⟨ha, has⟩ := List.cons.inj hshape
      obtain ⟨ih, ihas⟩ := List.forall_mem_cons.1 ih
      obtain ⟨hfirst, hrest⟩ := List.append_inj hslots (length_slots_of_shape ha)
      rw [ih a' ha hfirst, eq_of_slotsOfMore ihas has hrest]

theorem eq_of_slots {e e' : Expr} (hshape : e.shape = e'.shape) (hslots : e.slots = e'.slots) :
    e = e' := by
  induction e generalizing e' with
  | binary l op r ihl ihr =>
    cases e' <;> simp [shape, mapLeaves] at hshape
    obtain ⟨hl, hrest⟩ := List.append_inj hslots (length_slots_of_shape hshape.1)
    obtain ⟨hop, hr⟩ := List.cons.inj hrest
    rw [ihl hshape.1 hl, Slot.kept.inj hop, ihr hshape.2 hr]
  | grouping e ih =>
    cases e' <;> simp [shape, mapLeaves] at hshape
    rw [ih hshape (List.append_inj_left' (List.cons.inj hslots).2 rfl)]
  | literal v =>
    cases e' <;> simp [shape, mapLeaves, slots] at hshape hslots
    rw [hslots]
  | «variable» t =>
    cases e' <;> simp [shape, mapLeaves, slots] at hshape hslots
    rw [hslots]
  | unary op e ih =>
    cases e' <;> simp [shape, mapLeaves, slots] at hshape hslots
    rw [ih hshape hslots.2, hslots.1]
  | call f paren as ihf ihas =>
    cases e' <;> simp [shape, mapLeaves] at hshape
    obtain ⟨hf, hrest⟩ := List.append_inj hslots (length_slots_of_shape hshape.1)
    obtain ⟨has, hparen⟩ := List.append_inj' (List.cons.inj hrest).2 rfl
    rw [ihf hshape.1 hf, Slot.kept.inj (List.singleton_inj.1 hparen),
      eq_of_slotsOfArguments (fun a ha a' => ihas a ha) hshape.2 has]
  | property e name ih =>
    cases e' <;> simp [shape, mapLeaves] at hshape
    obtain ⟨he, hname⟩ := List.append_inj hslots (length_slots_of_shape hshape)
    rw [ih hshape he, Slot.kept.inj (List.singleton_inj.1 (List.cons.inj hname).2)]

end Expr

namespace Stmt

theorem length_slots_of_shape {s s' : Stmt} (h : s.shape = s'.shape) :
    s.slots.length = s'.slots.length := by
  have hslots := congrArg (fun s => s.slots.length) h
  simpa [shape, slots_mapLeaves] using hslots

theorem eq_of_slotsOfAll {ss ss' : List Stmt}
    (ih : ∀ s ∈ ss, ∀ s', s.shape = s'.shape → s.slots = s'.slots → s = s')
    (hshape : ss.map shape = ss'.map shape) (hslots : slotsOfAll ss = slotsOfAll ss') :
    ss = ss' := by
  induction ss generalizing ss' with
  | nil => simpa [eq_comm] using hshape
  | cons s ss ihs =>
    cases ss' with
    | nil => cases hshape
    | cons s' ss' =>
      obtain ⟨hs, hss⟩ := List.cons.inj hshape
      obtain ⟨ih, ihss⟩ := List.forall_mem_cons.1 ih
      obtain ⟨hfirst, hrest⟩ := List.append_inj hslots (length_slots_of_shape hs)
      rw [ih s' hs hfirst, ihs ihss hss hrest]

theorem eq_of_slots {s s' : Stmt} (hshape : s.shape = s'.shape) (hslots : s.slots = s'.slots) :
    s = s' := by
  induction s generalizing s' with
  | expression e =>
    cases s' <;> simp [shape, mapLeaves] at hshape
    rw [Expr.eq_of_slots hshape (List.append_inj_left' hslots rfl)]
  | ifThen c s ih =>
    cases s' <;> simp [shape, mapLeaves] at hshape
    simp only [slots, List.cons.injEq, true_and] at hslots
    obtain ⟨hc, hrest⟩ := List.append_inj hslots (Expr.length_slots_of_shape hshape.1)
    rw [Expr.eq_of_slots hshape.1 hc, ih hshape.2 (List.cons.inj hrest).2]
  | ifElse c s t ihs iht =>
    cases s' <;> simp [shape, mapLeaves] at hshape
    simp only [slots, List.cons.injEq, true_and] at hslots
    obtain ⟨hc, hrest⟩ := List.append_inj hslots (Expr.length_slots_of_shape hshape.1)
    obtain ⟨hs, hrest⟩ :=
      List.append_inj (List.cons.inj hrest).2 (length_slots_of_shape hshape.2.1)
    rw [Expr.eq_of_slots hshape.1 hc, ihs hshape.2.1 hs,
      iht hshape.2.2 (List.cons.inj hrest).2]
  | loop item e s ih =>
    cases s' <;> simp [shape, mapLeaves] at hshape
    simp only [slots, List.cons.injEq, Slot.kept.injEq, true_and] at hslots
    obtain ⟨hitem, hslots⟩ := hslots
    obtain ⟨he, hrest⟩ := List.append_inj hslots (Expr.length_slots_of_shape hshape.1)
    rw [hitem, Expr.eq_of_slots hshape.1 he, ih hshape.2 (List.cons.inj hrest).2]
  | block ss ih =>
    cases s' <;> simp [shape, mapLeaves] at hshape
    have hss := List.append_inj_left' (List.cons.inj hslots).2 rfl
    rw [eq_of_slotsOfAll (fun s hs s' => ih s hs) hshape hss]
  | declare name o =>
    cases s' <;> simp [shape, mapLeaves] at hshape
    rename_i name' o'
    cases o with
    | none =>
      obtain rfl : o' = none := Option.map_eq_none_iff.1 hshape.symm
      rw [Slot.kept.inj (List.cons.inj (List.cons.inj hslots).2).1]
    | some e =>
      obtain ⟨e', rfl, he⟩ := Option.map_eq_some_iff.1 hshape.symm
      simp only [slots, List.cons.injEq, Slot.kept.injEq, true_and] at hslots
      rw [hslots.1, Expr.eq_of_slots he.symm (List.append_inj_left' hslots.2 rfl)]
  | fetch e =>
    cases s' <;> simp [shape, mapLeaves] at hshape
    simp only [slots, List.cons.injEq, true_and] at hslots
    rw [Expr.eq_of_slots hshape (List.append_inj_left' hslots rfl)]
  | save d e =>
    cases s' <;> simp [shape, mapLeaves] at hshape
    simp only [slots, List.cons.injEq, true_and] at hslots
    obtain ⟨hd, hrest⟩ := List.append_inj hslots (Expr.length_slots_of_shape hshape.1)
    rw [Expr.eq_of_slots hshape.1 hd,
      Expr.eq_of_slots hshape.2 (List.append_inj_left' (List.cons.inj hrest).2 rfl)]
  | print e =>
    cases s' <;> simp [shape, mapLeaves] at hshape
    simp only [slots, List.cons.injEq, true_and] at hslots
    rw [Expr.eq_of_slots hshape (List.append_inj_left' hslots rfl)]

/-- Statements are determined by their shape, their tokens and their values. -/
theorem eq_of_leaves {ss ss' : List Stmt} (hshape : ss.map shape = ss'.map shape)
    (htokens : tokensOfAll ss = tokensOfAll ss') (hvalues : valuesOfAll ss = valuesOfAll ss') :
    ss = ss' := by
  have hslots : (slotsOfAll ss).map Slot.shape = (slotsOfAll ss').map Slot.shape := by
    have h := congrArg slotsOfAll hshape
    rwa [shape, slotsOfAll_map _ _ fun s _ => s.slots_mapLeaves _ _,
      slotsOfAll_map _ _ fun s _ => s.slots_mapLeaves _ _] at h
  exact eq_of_slotsOfAll (fun s _ s' => eq_of_slots) hshape
    (Slot.eq_of_leaves hslots htokens hvalues)

end Stmt

end ScrapeScript
