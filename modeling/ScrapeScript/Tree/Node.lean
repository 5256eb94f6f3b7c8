import ScrapeScript.Tree.Basic

namespace ScrapeScript

/-- A place in a tree, whichever sort stands there. -/
inductive Node
  | expr (e : Expr)
  | stmt (s : Stmt)

/-- What a node holds of its own, its children aside. -/
inductive Label
  | binary (operator : Token)
  | grouping
  | literal (value : Value)
  | variable (name : Token)
  | unary (operator : Token)
  | call (paren : Token)
  | property (name : Token)
  | expression
  | conditional
  | loop (item : Token)
  | block
  | declare (name : Token)
  | fetch
  | save
  | print
deriving DecidableEq

def Expr.label : Expr → Label
  | .binary _ op _ => .binary op
  | .grouping _ => .grouping
  | .literal v => .literal v
  | .variable t => .variable t
  | .unary op _ => .unary op
  | .call _ t _ => .call t
  | .property _ t => .property t

def Stmt.label : Stmt → Label
  | .expression _ => .expression
  | .ifThen _ _ | .ifElse _ _ _ => .conditional
  | .loop t _ _ => .loop t
  | .block _ => .block
  | .declare t _ => .declare t
  | .fetch _ => .fetch
  | .save _ _ => .save
  | .print _ => .print

def Expr.children : Expr → List Expr
  | .binary a _ b => [a, b]
  | .grouping a => [a]
  | .literal _ | .variable _ => []
  | .unary _ a => [a]
  | .call f _ as => f :: as
  | .property a _ => [a]

def Stmt.children : Stmt → List Node
  | .expression a => [.expr a]
  | .ifThen c s => [.expr c, .stmt s]
  | .ifElse c s t => [.expr c, .stmt s, .stmt t]
  | .loop _ a s => [.expr a, .stmt s]
  | .block ss => ss.map .stmt
  | .declare _ a => a.toList.map .expr
  | .fetch a => [.expr a]
  | .save a b => [.expr a, .expr b]
  | .print a => [.expr a]

mutual

/-- The number of nodes of an expression. -/
def Expr.count : Expr → Nat
  | .binary a _ b => a.count + b.count + 1
  | .grouping a => a.count + 1
  | .literal _ | .variable _ => 1
  | .unary _ a => a.count + 1
  | .call f _ as => f.count + Expr.countAll as + 1
  | .property a _ => a.count + 1

def Expr.countAll : List Expr → Nat
  | [] => 0
  | a :: as => a.count + Expr.countAll as

end

mutual

/-- The number of nodes of a statement. -/
def Stmt.count : Stmt → Nat
  | .expression a => a.count + 1
  | .ifThen c s => c.count + s.count + 1
  | .ifElse c s t => c.count + s.count + t.count + 1
  | .loop _ a s => a.count + s.count + 1
  | .block ss => Stmt.countAll ss + 1
  | .declare _ a => Expr.countAll a.toList + 1
  | .fetch a => a.count + 1
  | .save a b => a.count + b.count + 1
  | .print a => a.count + 1

def Stmt.countAll : List Stmt → Nat
  | [] => 0
  | s :: ss => s.count + Stmt.countAll ss

end

namespace Node

def label : Node → Label
  | expr e => e.label
  | stmt s => s.label

/-- The children in the order of the text. -/
def children : Node → List Node
  | expr e => e.children.map expr
  | stmt s => s.children

def count : Node → Nat
  | expr e => e.count
  | stmt s => s.count

def countAll : List Node → Nat
  | [] => 0
  | n :: ns => n.count + countAll ns

@[simp] theorem countAll_append (ms ns : List Node) :
    countAll (ms ++ ns) = countAll ms + countAll ns := by
  induction ms with
  | nil => simp [countAll]
  | cons m ms ih => simp [countAll, ih, Nat.add_assoc]

theorem countAll_map_expr (as : List Expr) : countAll (as.map expr) = Expr.countAll as := by
  induction as with
  | nil => rfl
  | cons a as ih => simp [countAll, ih, count, Expr.countAll]

theorem countAll_map_stmt (ss : List Stmt) : countAll (ss.map stmt) = Stmt.countAll ss := by
  induction ss with
  | nil => rfl
  | cons s ss ih => simp [countAll, ih, count, Stmt.countAll]

/-- A node is one more than its children. -/
theorem count_eq (n : Node) : n.count = countAll n.children + 1 := by
  cases n with
  | expr e =>
    simp only [children, countAll_map_expr, count]
    cases e <;> simp [Expr.children, Expr.count, Expr.countAll]
  | stmt s =>
    cases s with
    | block ss => simp [children, Stmt.children, countAll_map_stmt, count, Stmt.count]
    | declare t a =>
      simp [children, Stmt.children, countAll_map_expr, count, Stmt.count]
    | _ => simp [children, Stmt.children, countAll, count, Stmt.count, Nat.add_assoc]

/-- Visits the first pending node and puts its children before the others. -/
def walkAll : List Node → List Node
  | [] => []
  | n :: pending => n :: walkAll (n.children ++ pending)
termination_by pending => countAll pending
decreasing_by
  simp only [countAll_append, countAll, count_eq n]
  omega

/-- A node and all below it, each before its children. -/
def walk (n : Node) : List Node := walkAll [n]

end Node

end ScrapeScript
