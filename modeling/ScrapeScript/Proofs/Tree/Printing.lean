import ScrapeScript.Proofs.Tree.Leaves
import ScrapeScript.Tree.Printer

namespace ScrapeScript

namespace Printer

variable {α β : Type}

theorem run_pure (a : α) (p : Printer) : (pure a : StateM Printer α).run p = (a, p) := rfl

theorem run_bind (visit : StateM Printer α) (f : α → StateM Printer β) (p : Printer) :
    (visit >>= f).run p = (f (visit.run p).1).run (visit.run p).2 := rfl

theorem run_get (p : Printer) : (get : StateM Printer Printer).run p = (p, p) := rfl

/-- Whatever was printed before, it makes no difference to what comes next. -/
theorem run_render (level : Int) (visit : StateM Printer α) (p : Printer) :
    (render level visit).run p = visit.run ⟨level⟩ := rfl

end Printer

open Printer

/-- From a level on, a visit makes the lines that belong to it, whatever level it leaves behind. -/
def Shows (visit : StateM Printer (List String)) (lines : Nat → List String) : Prop :=
  ∀ level : Nat, (visit.run ⟨level⟩).1 = lines level

namespace Shows

variable {visit : StateM Printer (List String)} {lines : Nat → List String}

theorem add_one (h : Shows visit lines) (level : Nat) :
    (visit.run ⟨(level : Int) + 1⟩).1 = lines (level + 1) := h (level + 1)

theorem add_two (h : Shows visit lines) (level : Nat) :
    (visit.run ⟨(level : Int) + 2⟩).1 = lines (level + 2) := h (level + 2)

end Shows

namespace Expr

theorem visitArguments_shows {as : List Expr} (h : ∀ a ∈ as, Shows a.visit (a.outline ·))
    (level number : Nat) (p : Printer) :
    ((visitArguments level number as).run p).1 = outlineArguments level number as := by
  induction as generalizing number p with
  | nil => rfl
  | cons a as ih =>
    obtain ⟨ha, has⟩ := List.forall_mem_cons.1 h
    simp only [visitArguments, outlineArguments, run_bind, run_render, run_pure, ha.add_two,
      ih has, Int.toNat_natCast]

theorem visit_shows (e : Expr) : Shows e.visit (e.outline ·) := by
  intro level
  change (e.visit.run ⟨level⟩).1 = e.outline level
  induction e generalizing level with
  | call f paren as ihf ihas =>
    have has := visitArguments_shows ihas level 1
    have hcallee := Shows.add_two ihf level
    cases f with
    | «variable» t =>
      simp only [visit, outline, run_bind, run_get, run_pure, has, Int.toNat_natCast]
    | _ =>
      rw [visit, outline]
      · simp only [run_bind, run_get, run_render, run_pure, has, hcallee, Int.toNat_natCast]
      · rintro t ⟨⟩
  | grouping e ih =>
    have he := Shows.add_one ih level
    simp only [visit, outline, run_bind, run_get, run_render, run_pure, he, Int.toNat_natCast]
  | binary l op r ihl ihr =>
    have hl := Shows.add_two ihl level
    have hr := Shows.add_two ihr level
    simp only [visit, outline, run_bind, run_get, run_render, run_pure, hl, hr, Int.toNat_natCast]
  | literal v | «variable» t =>
    simp only [visit, outline, run_bind, run_get, run_pure, Int.toNat_natCast]
  | unary op e ih | property e name ih =>
    have he := Shows.add_two ih level
    simp only [visit, outline, run_bind, run_get, run_render, run_pure, he, Int.toNat_natCast]

end Expr

namespace Stmt

theorem visitBlock_shows {ss : List Stmt} (h : ∀ s ∈ ss, Shows s.visit (s.outline ·))
    (level number : Nat) (p : Printer) :
    ((visitBlock level number ss).run p).1 = outlineBlock level number ss := by
  induction ss generalizing number p with
  | nil => rfl
  | cons s ss ih =>
    obtain ⟨hs, hss⟩ := List.forall_mem_cons.1 h
    simp only [visitBlock, outlineBlock, run_bind, run_render, run_pure, hs.add_two, ih hss,
      Int.toNat_natCast]

theorem visit_shows (s : Stmt) : Shows s.visit (s.outline ·) := by
  intro level
  change (s.visit.run ⟨level⟩).1 = s.outline level
  induction s generalizing level with
  | expression e =>
    have he := e.visit_shows.add_one level
    simp only [visit, outline, run_bind, run_get, run_render, run_pure, he, Int.toNat_natCast]
  | ifThen c s ih =>
    have hc := c.visit_shows.add_two level
    have hs := Shows.add_two ih level
    simp only [visit, outline, run_bind, run_get, run_render, run_pure, hc, hs, Int.toNat_natCast]
  | ifElse c s t ihs iht =>
    have hc := c.visit_shows.add_two level
    have hs := Shows.add_two ihs level
    have ht := Shows.add_two iht level
    simp only [visit, outline, run_bind, run_get, run_render, run_pure, hc, hs, ht,
      Int.toNat_natCast]
  | loop item e s ih =>
    have he := e.visit_shows.add_two level
    have hs := Shows.add_two ih level
    simp only [visit, outline, run_bind, run_get, run_render, run_pure, he, hs, Int.toNat_natCast]
  | block ss ih =>
    have hss := visitBlock_shows ih level 1
    simp only [visit, outline, run_bind, run_get, run_pure, hss, Int.toNat_natCast]
  | declare name o =>
    cases o with
    | none => simp only [visit, outline, run_bind, run_get, run_pure, Int.toNat_natCast]
    | some e =>
      have he := e.visit_shows.add_two level
      simp only [visit, outline, run_bind, run_get, run_render, run_pure, he, Int.toNat_natCast]
  | save d e =>
    have hd := d.visit_shows.add_two level
    have he := e.visit_shows.add_two level
    simp only [visit, outline, run_bind, run_get, run_render, run_pure, hd, he, Int.toNat_natCast]
  | fetch e | print e =>
    have he := e.visit_shows.add_two level
    simp only [visit, outline, run_bind, run_get, run_render, run_pure, he, Int.toNat_natCast]

end Stmt

namespace Printer

theorem run_mapM_render (ss : List Stmt) (p : Printer) :
    ((ss.mapM fun s => render 0 s.visit).run p).1 = ss.map (·.outline 0) := by
  induction ss generalizing p with
  | nil => rfl
  | cons s ss ih =>
    have hs := s.visit_shows 0
    simp only [List.mapM_cons, run_bind, run_render, run_pure, ih, List.map_cons]
    exact congrArg (· :: _) hs

/-- The text of a program does not depend on what was printed before. -/
theorem print_eq (p : Printer) (ss : List Stmt) : (p.print ss).1 = outlineText ss := by
  show "\n".intercalate ((ss.mapM fun s => render 0 s.visit).run p).1.flatten = _
  rw [run_mapM_render, outlineText, List.flatMap_def]

end Printer

end ScrapeScript
