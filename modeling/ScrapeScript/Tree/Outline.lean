import ScrapeScript.Tree.Basic

namespace ScrapeScript

namespace Outline

def indent (level : Nat) : String := String.ofList (List.replicate (2 * level) ' ')

/-- The line of a node itself. -/
def header (level : Nat) (title : String) : String := indent level ++ "└─ " ++ title

/-- A line below that of a node, the last of them with a corner. -/
def branch (level : Nat) (last : Bool) (title : String) : String :=
  indent level ++ "   " ++ (if last then "└─ " else "├─ ") ++ title

end Outline

open Outline

mutual

/-- The lines of an expression. A child stands below a line that says what it is, two levels
further in; the inside of parentheses has no such line and stands one level in. -/
def Expr.outline (level : Nat) : Expr → List String
  | .binary a op b =>
    header level s!"Binary: {op.lexeme}" ::
      branch level false "Left:" :: a.outline (level + 2) ++
      branch level true "Right:" :: b.outline (level + 2)
  | .grouping a => header level "Grouping" :: a.outline (level + 1)
  | .literal v => [header level s!"Literal: {v.literalText}"]
  | .variable t => [header level s!"Variable: {t.lexeme}"]
  | .unary op a =>
    header level s!"Unary: {op.lexeme}" ::
      branch level true "Right:" :: a.outline (level + 2)
  | .call f _ as =>
    (match f with
      | .variable t => [header level s!"Call: {t.lexeme}"]
      | f => header level "Call" :: branch level false "Callee:" :: f.outline (level + 2)) ++
    Expr.outlineArguments level 1 as
  | .property a t =>
    header level s!"Property Access: {t.lexeme}" ::
      branch level true "Object:" :: a.outline (level + 2)

def Expr.outlineArguments (level number : Nat) : List Expr → List String
  | [] => []
  | a :: as =>
    branch level as.isEmpty s!"Arg {number}:" :: a.outline (level + 2) ++
      Expr.outlineArguments level (number + 1) as

end

mutual

/-- The lines of a statement. -/
def Stmt.outline (level : Nat) : Stmt → List String
  | .expression a => header level "Expression" :: a.outline (level + 1)
  | .ifThen c s =>
    header level "If" ::
      branch level false "Condition:" :: c.outline (level + 2) ++
      branch level true "Then:" :: s.outline (level + 2)
  | .ifElse c s t =>
    header level "If" ::
      branch level false "Condition:" :: c.outline (level + 2) ++
      branch level false "Then:" :: s.outline (level + 2) ++
      branch level true "Else:" :: t.outline (level + 2)
  | .loop v a s =>
    header level "For" ::
      branch level false s!"Variable: {v.lexeme}" ::
      branch level false "Iterable:" :: a.outline (level + 2) ++
      branch level true "Body:" :: s.outline (level + 2)
  | .block ss => header level "Block" :: Stmt.outlineBlock level 1 ss
  | .declare t none =>
    [header level s!"Variable Declaration: {t.lexeme}", branch level true "Initializer: null"]
  | .declare t (some a) =>
    header level s!"Variable Declaration: {t.lexeme}" ::
      branch level true "Initializer:" :: a.outline (level + 2)
  | .fetch a => header level "Fetch" :: branch level true "URL:" :: a.outline (level + 2)
  | .save a b =>
    header level "Save" ::
      branch level false "Data:" :: a.outline (level + 2) ++
      branch level true "Filename:" :: b.outline (level + 2)
  | .print a =>
    header level "Print" :: branch level true "Expression:" :: a.outline (level + 2)

def Stmt.outlineBlock (level number : Nat) : List Stmt → List String
  | [] => []
  | s :: ss =>
    branch level ss.isEmpty s!"Statement {number}:" :: s.outline (level + 2) ++
      Stmt.outlineBlock level (number + 1) ss

end

/-- The outline of a program as one text, without a newline at its end. -/
def outlineText (ss : List Stmt) : String := "\n".intercalate (ss.flatMap (·.outline 0))

end ScrapeScript
