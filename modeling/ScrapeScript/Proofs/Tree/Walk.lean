import Mathlib.Data.List.Forall2
import ScrapeScript.Proofs.Tree.Preorder
import ScrapeScript.Tree.Equality

namespace ScrapeScript

/-- Equality of labels: of one kind, and with tokens and values that are the same. -/
def Label.same : Label → Label → Bool
  | .binary t, .binary t' => t.same t'
  | .literal v, .literal v' => v.same v'
  | .variable t, .variable t' => t.same t'
  | .unary t, .unary t' => t.same t'
  | .call t, .call t' => t.same t'
  | .property t, .property t' => t.same t'
  | .loop t, .loop t' => t.same t'
  | .declare t, .declare t' => t.same t'
  | .grouping, .grouping | .expression, .expression | .conditional, .conditional
  | .block, .block | .fetch, .fetch | .save, .save | .print, .print => true
  | _, _ => false

/-- Two kinds settle it, whatever the children are. -/
theorem Label.differ {p : Prop} : false = true ↔ false = true ∧ p := by simp

namespace Expr

theorem sameAll_iff {as as' : List Expr} :
    sameAll as as' = true ↔ List.Forall₂ (fun a a' => a.same a' = true) as as' := by
  induction as generalizing as' with
  | nil => cases as' <;> simp [sameAll]
  | cons a as ih => cases as' <;> simp [sameAll, ih]

theorem sameOption_iff {o o' : Option Expr} : sameOption o o' = true ↔
    List.Forall₂ (fun a a' => a.same a' = true) o.toList o'.toList := by
  cases o <;> cases o' <;> simp [sameOption]

theorem same_iff (e e' : Expr) : e.same e' = true ↔
    e.label.same e'.label = true ∧
      List.Forall₂ (fun a a' => a.same a' = true) e.children e'.children := by
  cases e with
  | binary l op r =>
    cases e' with
    | binary l' op' r' => simp [same, label, Label.same, children, and_left_comm, and_assoc]
    | _ => exact Label.differ
  | grouping a =>
    cases e' with
    | grouping a' => simp [same, label, Label.same, children]
    | _ => exact Label.differ
  | literal v =>
    cases e' with
    | literal v' => simp [same, label, Label.same, children]
    | _ => exact Label.differ
  | «variable» t =>
    cases e' with
    | «variable» t' => simp [same, label, Label.same, children]
    | _ => exact Label.differ
  | unary op a =>
    cases e' with
    | unary op' a' => simp [same, label, Label.same, children]
    | _ => exact Label.differ
  | call f paren as =>
    cases e' with
    | call f' paren' as' =>
      simp [same, label, Label.same, children, sameAll_iff, and_left_comm, and_assoc]
    | _ => exact Label.differ
  | property a name =>
    cases e' with
    | property a' name' => simp [same, label, Label.same, children, and_comm]
    | _ => exact Label.differ

end Expr

/-- Equality of nodes, as expressions or as statements. -/
def Node.same : Node → Node → Bool
  | expr e, expr e' => e.same e'
  | stmt s, stmt s' => s.same s'
  | _, _ => false

namespace Stmt

theorem sameAll_iff {ss ss' : List Stmt} :
    sameAll ss ss' = true ↔ List.Forall₂ (fun s s' => s.same s' = true) ss ss' := by
  induction ss generalizing ss' with
  | nil => cases ss' <;> simp [sameAll]
  | cons s ss ih => cases ss' <;> simp [sameAll, ih]

theorem same_iff (s s' : Stmt) : s.same s' = true ↔
    s.label.same s'.label = true ∧
      List.Forall₂ (fun m n => m.same n = true) s.children s'.children := by
  cases s with
  | expression a =>
    cases s' with
    | expression a' => simp [same, label, Label.same, children, Node.same]
    | _ => exact Label.differ
  | ifThen c s =>
    cases s' with
    | ifThen c' s' => simp [same, label, Label.same, children, Node.same]
    | ifElse c' s' t' => simp [same, label, Label.same, children]
    | _ => exact Label.differ
  | ifElse c s t =>
    cases s' with
    | ifThen c' s' => simp [same, label, Label.same, children]
    | ifElse c' s' t' => simp [same, label, Label.same, children, Node.same, and_assoc]
    | _ => exact Label.differ
  | loop item a s =>
    cases s' with
    | loop item' a' s' => simp [same, label, Label.same, children, Node.same, and_assoc]
    | _ => exact Label.differ
  | block ss =>
    cases s' with
    | block ss' => simp [same, label, Label.same, children, Node.same, sameAll_iff]
    | _ => exact Label.differ
  | declare name o =>
    cases s' with
    | declare name' o' =>
      simp [same, label, Label.same, children, Node.same, Expr.sameOption_iff]
    | _ => exact Label.differ
  | fetch a =>
    cases s' with
    | fetch a' => simp [same, label, Label.same, children, Node.same]
    | _ => exact Label.differ
  | save a b =>
    cases s' with
    | save a' b' => simp [same, label, Label.same, children, Node.same]
    | _ => exact Label.differ
  | print a =>
    cases s' with
    | print a' => simp [same, label, Label.same, children, Node.same]
    | _ => exact Label.differ

end Stmt

namespace Node

theorem same_iff (m n : Node) : m.same n = true ↔
    m.label.same n.label = true ∧
      List.Forall₂ (fun m n => m.same n = true) m.children n.children := by
  cases m with
  | expr e =>
    cases n with
    | expr e' => simpa [label, children, same] using e.same_iff e'
    | stmt s => cases e <;> cases s <;> exact Label.differ
  | stmt s =>
    cases n with
    | expr e => cases s <;> cases e <;> exact Label.differ
    | stmt s' => exact s.same_iff s'

theorem map_expr_inj {as as' : List Expr} : as.map expr = as'.map expr ↔ as = as' :=
  List.map_inj_right fun _ _ => expr.inj

theorem map_stmt_inj {ss ss' : List Stmt} : ss.map stmt = ss'.map stmt ↔ ss = ss' :=
  List.map_inj_right fun _ _ => stmt.inj

theorem toList_inj {o o' : Option Expr} : o.toList = o'.toList ↔ o = o' := by
  cases o <;> cases o' <;> simp

/-- A node is its label and its children. -/
theorem eq_iff (m n : Node) : m = n ↔ m.label = n.label ∧ m.children = n.children := by
  refine ⟨by rintro rfl; exact ⟨rfl, rfl⟩, fun ⟨hlabel, hchildren⟩ => ?_⟩
  cases m with
  | expr e =>
    cases n with
    | expr e' =>
      cases e <;> cases e' <;> simp_all [label, Expr.label, children, Expr.children, map_expr_inj]
    | stmt s => cases e <;> cases s <;> cases hlabel
  | stmt s =>
    cases n with
    | expr e => cases s <;> cases e <;> cases hlabel
    | stmt s' =>
      cases s <;> cases s' <;>
        simp_all [label, Stmt.label, children, Stmt.children, map_expr_inj, map_stmt_inj,
          toList_inj]

/-- Two nodes that look the same from where a walk meets them: their labels are related, and they
have as many children. -/
def Alike (r : Label → Label → Prop) (m n : Node) : Prop :=
  r m.label n.label ∧ m.children.length = n.children.length

section Decoding

variable {r : Label → Label → Prop} {q : Node → Node → Prop}

theorem alike_flatMap {ms ns : List Node} (h : List.Forall₂ q ms ns)
    (ih : ∀ m ∈ ms, ∀ n, q m n → List.Forall₂ (Alike r) m.preorder n.preorder) :
    List.Forall₂ (Alike r) (ms.flatMap preorder) (ns.flatMap preorder) := by
  induction h with
  | nil => exact .nil
  | @cons m n ms ns hmn _ ihms =>
    obtain ⟨ihm, ih⟩ := List.forall_mem_cons.1 ih
    exact List.rel_append (ihm n hmn) (ihms ih)

/-- As many trees on both sides are matched one by one, if each is where it can be. -/
theorem of_alike_flatMap {cs ds ms ns : List Node} (hlength : cs.length = ds.length)
    (ih : ∀ c ∈ cs, ∀ d ms ns, List.Forall₂ (Alike r) (c.preorder ++ ms) (d.preorder ++ ns) →
      q c d ∧ List.Forall₂ (Alike r) ms ns)
    (h : List.Forall₂ (Alike r) (cs.flatMap preorder ++ ms) (ds.flatMap preorder ++ ns)) :
    List.Forall₂ q cs ds ∧ List.Forall₂ (Alike r) ms ns := by
  induction cs generalizing ds with
  | nil =>
    obtain rfl := List.eq_nil_of_length_eq_zero hlength.symm
    exact ⟨.nil, h⟩
  | cons c cs ihcs =>
    cases ds with
    | nil => cases hlength
    | cons d ds =>
      obtain ⟨ihc, ih⟩ := List.forall_mem_cons.1 ih
      rw [List.flatMap_cons, List.flatMap_cons, List.append_assoc, List.append_assoc] at h
      obtain ⟨hfirst, h⟩ := ihc d _ _ h
      obtain ⟨hothers, hrest⟩ := ihcs (Nat.succ.inj hlength) ih h
      exact ⟨.cons hfirst hothers, hrest⟩

variable (hq : ∀ m n, q m n ↔ r m.label n.label ∧ List.Forall₂ q m.children n.children)

include hq

theorem alike_preorder {m n : Node} (h : q m n) :
    List.Forall₂ (Alike r) m.preorder n.preorder := by
  induction m using induction generalizing n with
  | node m ih =>
    obtain ⟨hlabel, hchildren⟩ := (hq m n).1 h
    rw [preorder_eq, preorder_eq]
    exact .cons ⟨hlabel, hchildren.length_eq⟩ (alike_flatMap hchildren fun m hm n => ih m hm)

/-- The first nodes of a walk make up a whole tree, however it goes on. -/
theorem of_alike_append {m n : Node} {ms ns : List Node}
    (h : List.Forall₂ (Alike r) (m.preorder ++ ms) (n.preorder ++ ns)) :
    q m n ∧ List.Forall₂ (Alike r) ms ns := by
  induction m using induction generalizing n ms ns with
  | node m ih =>
    rw [preorder_eq, preorder_eq, List.cons_append, List.cons_append, List.forall₂_cons] at h
    obtain ⟨⟨hlabel, hlength⟩, h⟩ := h
    obtain ⟨hchildren, hrest⟩ := of_alike_flatMap hlength (fun m hm d ms ns => ih m hm) h
    exact ⟨(hq m n).2 ⟨hlabel, hchildren⟩, hrest⟩

theorem alike_walk_iff {m n : Node} : List.Forall₂ (Alike r) m.walk n.walk ↔ q m n := by
  rw [walk_eq, walk_eq]
  refine ⟨fun h => ?_, alike_preorder hq⟩
  rw [← List.append_nil m.preorder, ← List.append_nil n.preorder] at h
  exact (of_alike_append hq h).1

end Decoding

/-- What a walk tells about a node: its own part, and how many children it has. -/
def entry (n : Node) : Label × Nat := (n.label, n.children.length)

theorem entries_eq_iff {m n : Node} : m.walk.map entry = n.walk.map entry ↔ m = n := by
  have hq (m n : Node) :
      m = n ↔ m.label = n.label ∧ List.Forall₂ (· = ·) m.children n.children := by
    rw [List.forall₂_eq_eq_eq]
    exact m.eq_iff n
  rw [← alike_walk_iff hq, ← List.forall₂_eq_eq_eq, List.forall₂_map_left_iff,
    List.forall₂_map_right_iff]
  simp only [entry, Prod.mk.injEq]
  rfl

/-- A walk ends after as many turns as there are nodes. It visits the places of the tree in the
order of their paths, each of them once: a node, then all below its first child, then all below the
next. Labels and numbers of children along it determine a statement, whether the tokens and values
are to be identical or to be the same. -/
theorem walk_faithful :
    (∀ n : Node, Tour.turns n.count ⟨[n], []⟩ = some ⟨[], n.walk⟩ ∧
      n.walk = n.preorder ∧ n.preorder = n :: n.children.flatMap preorder ∧
      n.paths.Pairwise (· < ·) ∧ (∀ path, path ∈ n.paths ↔ (n.at? path).isSome) ∧
      n.walk.map some = n.paths.map n.at?) ∧
    ∀ s s' : Stmt,
      ((stmt s).walk.map entry = (stmt s').walk.map entry ↔ s = s') ∧
      (List.Forall₂ (Alike fun l l' => l.same l' = true) (stmt s).walk (stmt s').walk ↔
        s.same s' = true) := by
  refine ⟨fun n => ⟨?_, n.walk_eq, n.preorder_eq, n.paths_increasing, fun _ => mem_paths, ?_⟩,
    fun s s' => ⟨?_, alike_walk_iff (q := fun m n => m.same n = true) same_iff⟩⟩
  · have hturns := Tour.turns_countAll [n] []
    rwa [countAll, countAll, Nat.add_zero] at hturns
  · rw [walk_eq, map_paths]
  · rw [entries_eq_iff, stmt.injEq]

end Node

end ScrapeScript
