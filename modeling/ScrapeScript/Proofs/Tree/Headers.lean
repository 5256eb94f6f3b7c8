import ScrapeScript.Proofs.Tree.Lines
import ScrapeScript.Proofs.Tree.Printing

namespace ScrapeScript

open Outline

/-- Of some lines those with an even number of spaces before them. -/
def evenLines (lines : List String) : List String := lines.filter fun l => indentation l % 2 == 0

theorem evenLines_header (level : Nat) (title : String) (lines : List String) :
    evenLines (header level title :: lines) = header level title :: evenLines lines :=
  List.filter_cons_of_pos (by simp [indentation_header])

theorem evenLines_branch (level : Nat) (last : Bool) (caption : String) (lines : List String) :
    evenLines (branch level last caption :: lines) = evenLines lines :=
  List.filter_cons_of_neg (by simp [indentation_branch, Nat.add_mod])

/-- By how many levels the nodes of a body stand further in. -/
def Body.depth : Body → Nat
  | inner _ => 1
  | limbs _ => 2

theorem Body.evenLines_lines (level : Nat) (b : Body) : evenLines (b.lines level) =
    b.nodes.flatMap fun m => evenLines (m.outline (level + b.depth)) := by
  cases b with
  | inner m => rw [lines, nodes, depth, List.flatMap_singleton]
  | limbs ls =>
    rw [lines, nodes, depth]
    induction ls with
    | nil => rfl
    | cons l ls ih =>
      rw [List.flatMap_cons, evenLines, List.filter_append, ← evenLines, ← evenLines, ih,
        Limb.lines, evenLines_branch]
      cases hchild : l.child with
      | none => rw [List.filterMap_cons_none hchild]; rfl
      | some m => rw [List.filterMap_cons_some hchild]; rfl

/-- How much further in than a node its children stand. -/
def Node.step : Node → Nat
  | expr (.grouping _) | stmt (.expression _) => 2
  | _ => 4

theorem Node.step_eq (n : Node) : n.step = 2 * n.body.depth := by
  cases n with
  | expr e =>
    cases e with
    | call f paren as => cases f <;> rfl
    | _ => rfl
  | stmt s =>
    cases s with
    | declare name o => cases o <;> rfl
    | _ => rfl

/-- A node where it stands in a tree: so many spaces in, and called there or not. -/
structure Occurrence where
  node : Node
  indent : Nat
  called : Bool

namespace Occurrence

def children (o : Occurrence) : List Occurrence :=
  match o.node with
  | .expr (.call f _ as) =>
    ⟨.expr f, o.indent + o.node.step, true⟩ ::
      as.map fun a => ⟨.expr a, o.indent + o.node.step, false⟩
  | n => n.children.map fun m => ⟨m, o.indent + n.step, false⟩

theorem map_node_children (o : Occurrence) : o.children.map (·.node) = o.node.children := by
  rw [children]
  split
  case h_1 f paren as hnode => simp [hnode, Node.children, Expr.children]
  case h_2 => rw [List.map_map]; exact List.map_id _

theorem node_mem_children {o c : Occurrence} (h : c ∈ o.children) : c.node ∈ o.node.children := by
  rw [← map_node_children]
  exact List.mem_map_of_mem h

theorem indent_of_mem_children {o c : Occurrence} (h : c ∈ o.children) :
    c.indent = o.indent + o.node.step := by
  rw [children] at h
  split at h
  · obtain rfl | h := List.mem_cons.1 h
    · rfl
    · obtain ⟨a, -, rfl⟩ := List.mem_map.1 h
      rfl
  · obtain ⟨m, -, rfl⟩ := List.mem_map.1 h
    rfl

theorem count_lt_of_mem_children {o c : Occurrence} (h : c ∈ o.children) :
    c.node.count < o.node.count :=
  Node.count_lt_of_mem_children (node_mem_children h)

/-- An occurrence has a property if each has it whose children have it. -/
@[elab_as_elim]
theorem induction {motive : Occurrence → Prop}
    (occurrence : ∀ o, (∀ c ∈ o.children, motive c) → motive o) (o : Occurrence) : motive o :=
  induction_parts (fun _ _ => count_lt_of_mem_children) occurrence o

/-- A node and all below it where they stand, in the order of a walk. -/
def preorder : Occurrence → List Occurrence := preorderOf fun _ _ => count_lt_of_mem_children

theorem preorder_eq (o : Occurrence) : o.preorder = o :: o.children.flatMap preorder :=
  preorderOf_eq _ o

theorem map_node_preorder (o : Occurrence) : o.preorder.map (·.node) = o.node.walk := by
  rw [Node.walk_eq]
  induction o using induction with
  | occurrence o ih =>
    rw [preorder_eq, Node.preorder_eq, List.map_cons, List.map_flatMap, List.flatMap_congr ih,
      ← map_node_children, List.flatMap_map]

/-- Only a variable that is called has no line of its own. -/
def isShown (o : Occurrence) : Bool := !(o.called && o.node matches .expr (.variable _))

theorem preorder_of_not_isShown {o : Occurrence} (h : o.isShown = false) : o.preorder = [o] := by
  have hchildren : o.children = [] := by
    obtain ⟨n, indent, called⟩ := o
    simp only [isShown, Bool.not_eq_false', Bool.and_eq_true] at h
    split at h
    · rfl
    · simp at h
  rw [preorder_eq, hchildren, List.flatMap_nil]

theorem map_node_shown (o : Occurrence) :
    (o.children.filter (·.isShown)).map (·.node) = o.node.body.nodes := by
  obtain ⟨n, indent, called⟩ := o
  cases n with
  | expr e =>
    cases e with
    | call f paren as =>
      cases f <;>
        simp [children, isShown, Node.body, Body.nodes, Limb.filterMap_child_numbered,
          List.filter_map, Function.comp_def]
    | _ => simp [children, Node.children, Expr.children, isShown, Node.body, Body.nodes]
  | stmt s =>
    cases s with
    | block ss =>
      simp [children, Node.children, Stmt.children, isShown, Node.body, Body.nodes,
        Limb.filterMap_child_numbered, List.filter_map, Function.comp_def]
    | declare name o =>
      cases o <;> simp [children, Node.children, Stmt.children, isShown, Node.body, Body.nodes]
    | _ => simp [children, Node.children, Stmt.children, isShown, Node.body, Body.nodes]

/-- The line that a node begins with. -/
def header (o : Occurrence) : String :=
  String.ofList (List.replicate o.indent ' ') ++ "└─ " ++ o.node.title

/-- The lines of a node that begin a node, and those it has of its own. -/
def headers (o : Occurrence) : List String := (o.preorder.filter (·.isShown)).map (·.header)

theorem flatMap_headers (os : List Occurrence) :
    os.flatMap headers = (os.filter (·.isShown)).flatMap headers := by
  induction os with
  | nil => rfl
  | cons o os ih =>
    rw [List.flatMap_cons, ih]
    cases h : o.isShown with
    | true => rw [List.filter_cons_of_pos h, List.flatMap_cons]
    | false =>
      rw [List.filter_cons_of_neg (by simp [h]), headers, preorder_of_not_isShown h]
      simp [h]

theorem headers_eq {o : Occurrence} (h : o.isShown = true) :
    o.headers = o.header :: (o.children.filter (·.isShown)).flatMap headers := by
  rw [← flatMap_headers, headers, preorder_eq, List.filter_cons_of_pos h, List.map_cons,
    List.filter_flatMap, List.map_flatMap]
  rfl

/-- An occurrence that is shown begins an outline whose even lines are the headers below it. -/
theorem evenLines_outline {o : Occurrence} (h : o.isShown = true) {level : Nat}
    (hlevel : o.indent = 2 * level) : evenLines (o.node.outline level) = o.headers := by
  induction o using induction generalizing level with
  | occurrence o ih =>
    have hchild : ∀ c ∈ o.children.filter (·.isShown),
        headers c = evenLines (c.node.outline (level + o.node.body.depth)) := by
      intro c hc
      obtain ⟨hc, hshown⟩ := List.mem_filter.1 hc
      refine (ih c hc hshown ?_).symm
      rw [indent_of_mem_children hc, Node.step_eq, hlevel, Nat.mul_add]
    rw [Node.outline_eq, evenLines_header, Body.evenLines_lines, headers_eq h,
      List.flatMap_congr hchild, ← map_node_shown, List.flatMap_map, header, hlevel]
    rfl

end Occurrence

/-- Whatever the printer printed before: the lines with an even number of spaces before them are the
headers of the nodes that walks over the statements visit, in that order and each at its own place,
but for the variables that are called. -/
theorem Printer.headers_print (p : Printer) {ss : List Stmt}
    (hlines : ∀ s ∈ ss, (Node.stmt s).OneLine) :
    let occurrences := ss.flatMap fun s => Occurrence.preorder ⟨.stmt s, 0, false⟩
    occurrences.map (·.node) = ss.flatMap (fun s => (Node.stmt s).walk) ∧
      evenLines (textLines (p.print ss).1) =
        (occurrences.filter (·.isShown)).map (·.header) := by
  refine ⟨?_, ?_⟩
  · rw [List.map_flatMap]
    exact List.flatMap_congr fun s _ => Occurrence.map_node_preorder _
  · rw [print_eq, textLines_outlineText hlines, evenLines, List.filter_flatMap,
      List.filter_flatMap, List.map_flatMap]
    refine List.flatMap_congr fun s _ => ?_
    have hlevel : (⟨.stmt s, 0, false⟩ : Occurrence).indent = 2 * 0 := rfl
    exact Occurrence.evenLines_outline rfl hlevel

theorem Printer.headers_print_call :
    let ss : List Stmt := [.expression (.call (.variable (.plain "f")) (.plain ")")
      [.grouping (.variable (.plain "x"))])]
    (∀ s ∈ ss, (Node.stmt s).OneLine) ∧
      evenLines (textLines (print ⟨-3⟩ ss).1) =
        ["└─ Expression", "  └─ Call: f", "      └─ Grouping", "        └─ Variable: x"] := by
  intro ss
  have hlines : ∀ s ∈ ss, (Node.stmt s).OneLine := by
    rw [List.forall_mem_singleton]
    simp [Node.OneLine, Node.walk_eq, Node.preorder_eq, Node.children, Stmt.children,
      Expr.children, Node.label, Stmt.label, Expr.label, Label.texts, Token.plain]
  refine ⟨hlines, (headers_print ⟨-3⟩ hlines).2.trans ?_⟩
  simp [ss, Occurrence.preorder_eq, Occurrence.children, Node.step, Node.children, Stmt.children,
    Expr.children, Occurrence.isShown, Occurrence.header, Node.title, Node.name?, Node.label,
    Stmt.label, Expr.label, Label.word, Token.plain]

end ScrapeScript
