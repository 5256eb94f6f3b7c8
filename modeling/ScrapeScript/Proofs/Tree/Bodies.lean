import ScrapeScript.Tree.Node
import ScrapeScript.Tree.Outline

namespace ScrapeScript

open Outline

/-- A token of which only the text is known. -/
def Token.plain (lexeme : String) : Token := ⟨.unknown, lexeme, .null, ⟨"", 1, 1, 0⟩⟩

/-- The word that the header of a node begins with. -/
def Label.word : Label → String
  | .binary _ => "Binary"
  | .grouping => "Grouping"
  | .literal _ => "Literal"
  | .variable _ => "Variable"
  | .unary _ => "Unary"
  | .call _ => "Call"
  | .property _ => "Property Access"
  | .expression => "Expression"
  | .conditional => "If"
  | .loop _ => "For"
  | .block => "Block"
  | .declare _ => "Variable Declaration"
  | .fetch => "Fetch"
  | .save => "Save"
  | .print => "Print"

/-- A line below the header of a node, and the child that it announces, if it does. -/
structure Limb where
  last : Bool
  caption : String
  child : Option Node

/-- Limbs with a number each, the last of them with a corner. -/
def Limb.numbered (word : String) (number : Nat) : List Node → List Limb
  | [] => []
  | n :: ns => ⟨ns.isEmpty, s!"{word} {number}:", some n⟩ :: numbered word (number + 1) ns

theorem Limb.filterMap_child_numbered (word : String) (number : Nat) (ns : List Node) :
    (numbered word number ns).filterMap (·.child) = ns := by
  induction ns generalizing number with
  | nil => rfl
  | cons n ns ih => rw [numbered, List.filterMap_cons, ih]

/-- What stands below the header of a node. -/
inductive Body
  | inner (child : Node)
  | limbs (ls : List Limb)

/-- The children that are shown with lines of their own. -/
def Body.nodes : Body → List Node
  | inner n => [n]
  | limbs ls => ls.filterMap (·.child)

namespace Node

/-- What the header of a node shows besides its word. A call shows the variable that it calls. -/
def name? : Node → Option String
  | expr (.binary _ op _) => some op.lexeme
  | expr (.literal v) => some v.literalText
  | expr (.variable t) => some t.lexeme
  | expr (.unary op _) => some op.lexeme
  | expr (.call (.variable t) _ _) => some t.lexeme
  | expr (.property _ t) => some t.lexeme
  | stmt (.declare t _) => some t.lexeme
  | _ => none

def title (n : Node) : String :=
  match n.name? with
  | some name => n.label.word ++ (": " ++ name)
  | none => n.label.word

def body : Node → Body
  | expr (.binary l _ r) => .limbs [⟨false, "Left:", expr l⟩, ⟨true, "Right:", expr r⟩]
  | expr (.grouping e) => .inner (expr e)
  | expr (.literal _) | expr (.variable _) => .limbs []
  | expr (.unary _ e) => .limbs [⟨true, "Right:", expr e⟩]
  | expr (.call (.variable _) _ as) => .limbs (Limb.numbered "Arg" 1 (as.map expr))
  | expr (.call f _ as) =>
    .limbs (⟨false, "Callee:", expr f⟩ :: Limb.numbered "Arg" 1 (as.map expr))
  | expr (.property e _) => .limbs [⟨true, "Object:", expr e⟩]
  | stmt (.expression e) => .inner (expr e)
  | stmt (.ifThen c s) => .limbs [⟨false, "Condition:", expr c⟩, ⟨true, "Then:", stmt s⟩]
  | stmt (.ifElse c s t) =>
    .limbs [⟨false, "Condition:", expr c⟩, ⟨false, "Then:", stmt s⟩, ⟨true, "Else:", stmt t⟩]
  | stmt (.loop item e s) =>
    .limbs [⟨false, "Variable: " ++ item.lexeme, none⟩, ⟨false, "Iterable:", expr e⟩,
      ⟨true, "Body:", stmt s⟩]
  | stmt (.block ss) => .limbs (Limb.numbered "Statement" 1 (ss.map stmt))
  | stmt (.declare _ none) => .limbs [⟨true, "Initializer: null", none⟩]
  | stmt (.declare _ (some e)) => .limbs [⟨true, "Initializer:", expr e⟩]
  | stmt (.fetch e) => .limbs [⟨true, "URL:", expr e⟩]
  | stmt (.save d e) => .limbs [⟨false, "Data:", expr d⟩, ⟨true, "Filename:", expr e⟩]
  | stmt (.print e) => .limbs [⟨true, "Expression:", expr e⟩]

def outline (level : Nat) : Node → List String
  | expr e => e.outline level
  | stmt s => s.outline level

end Node

def Limb.lines (level : Nat) (l : Limb) : List String :=
  branch level l.last l.caption :: (l.child.map (Node.outline (level + 2))).getD []

def Body.lines (level : Nat) : Body → List String
  | inner n => n.outline (level + 1)
  | limbs ls => ls.flatMap (Limb.lines level)

@[simp] theorem toString_string (s : String) : toString s = s := rfl

theorem Expr.outlineArguments_eq (level number : Nat) (as : List Expr) :
    outlineArguments level number as =
      (Limb.numbered "Arg" number (as.map .expr)).flatMap (Limb.lines level) := by
  induction as generalizing number with
  | nil => rfl
  | cons a as ih =>
    rw [outlineArguments, ih]
    simp [Limb.numbered, Limb.lines, Node.outline]

theorem Stmt.outlineBlock_eq (level number : Nat) (ss : List Stmt) :
    outlineBlock level number ss =
      (Limb.numbered "Statement" number (ss.map .stmt)).flatMap (Limb.lines level) := by
  induction ss generalizing number with
  | nil => rfl
  | cons s ss ih =>
    rw [outlineBlock, ih]
    simp [Limb.numbered, Limb.lines, Node.outline]

namespace Node

theorem title_of_name {n : Node} {name : String} (h : n.name? = some name) :
    n.title = n.label.word ++ ": " ++ name := by
  rw [title, h, String.append_assoc]

theorem title_of_none {n : Node} (h : n.name? = none) : n.title = n.label.word := by
  rw [title, h]

theorem body_nodes_subset (n : Node) : n.body.nodes ⊆ n.children := by
  cases n with
  | expr e =>
    cases e with
    | call f paren as =>
      cases f <;>
        simp [body, Body.nodes, Limb.filterMap_child_numbered, children, Expr.children]
    | _ => simp [body, Body.nodes, children, Expr.children]
  | stmt s =>
    cases s with
    | block ss => simp [body, Body.nodes, Limb.filterMap_child_numbered, children, Stmt.children]
    | declare name o => cases o <;> simp [body, Body.nodes, children, Stmt.children]
    | _ => simp [body, Body.nodes, children, Stmt.children]

/-- The outline of a node is its header and then its body. -/
theorem outline_eq (level : Nat) (n : Node) :
    n.outline level = header level n.title :: n.body.lines level := by
  cases n with
  | expr e =>
    cases e with
    | call f paren as =>
      cases f <;>
        simp [outline, Expr.outline, Expr.outlineArguments_eq, title, name?, label, Expr.label,
          Label.word, body, Body.lines, Limb.lines, ← String.append_assoc]
    | _ =>
      simp [outline, Expr.outline, title, name?, label, Expr.label, Label.word, body, Body.lines,
        Limb.lines, ← String.append_assoc]
  | stmt s =>
    cases s with
    | declare name o =>
      cases o <;>
        simp [outline, Stmt.outline, title, name?, label, Stmt.label, Label.word, body,
          Body.lines, Limb.lines, ← String.append_assoc]
    | _ =>
      simp [outline, Stmt.outline, Stmt.outlineBlock_eq, title, name?, label, Stmt.label,
        Label.word, body, Body.lines, Limb.lines]

end Node

end ScrapeScript
