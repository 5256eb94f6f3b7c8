import ScrapeScript.Tree.Outline

namespace ScrapeScript

/-- A printer keeps the level at which it came to a node last. -/
structure Printer where
  level : Int := 0

namespace Printer

/-- Comes to a node at a level, and visits it. -/
def render {α : Type} (level : Int) (visit : StateM Printer α) : StateM Printer α := do
  set (⟨level⟩ : Printer)
  visit

end Printer

open Outline Printer

mutual

/-- The lines of an expression at the level of the printer, which the visits of its children
change. -/
def Expr.visit : Expr → StateM Printer (List String)
  | .binary a op b => do
    let level := (← get).level
    let left ← render (level + 2) a.visit
    let right ← render (level + 2) b.visit
    return header level.toNat s!"Binary: {op.lexeme}" ::
      branch level.toNat false "Left:" :: left ++
      branch level.toNat true "Right:" :: right
  | .grouping a => do
    let level := (← get).level
    let inner ← render (level + 1) a.visit
    return header level.toNat "Grouping" :: inner
  | .literal v => return [header (← get).level.toNat s!"Literal: {v.literalText}"]
  | .variable t => return [header (← get).level.toNat s!"Variable: {t.lexeme}"]
  | .unary op a => do
    let level := (← get).level
    let operand ← render (level + 2) a.visit
    return header level.toNat s!"Unary: {op.lexeme}" ::
      branch level.toNat true "Right:" :: operand
  | .call f _ as => do
    let level := (← get).level
    let callee ← match f with
      | .variable t => pure [header level.toNat s!"Call: {t.lexeme}"]
      | f => do
        let callee ← render (level + 2) f.visit
        pure (header level.toNat "Call" :: branch level.toNat false "Callee:" :: callee)
    let arguments ← Expr.visitArguments level 1 as
    return callee ++ arguments
  | .property a t => do
    let level := (← get).level
    let object ← render (level + 2) a.visit
    return header level.toNat s!"Property Access: {t.lexeme}" ::
      branch level.toNat true "Object:" :: object

def Expr.visitArguments (level : Int) (number : Nat) :
    List Expr → StateM Printer (List String)
  | [] => return []
  | a :: as => do
    let first ← render (level + 2) a.visit
    let others ← Expr.visitArguments level (number + 1) as
    return branch level.toNat as.isEmpty s!"Arg {number}:" :: first ++ others

end

mutual

/-- The lines of a statement, in the same way. -/
def Stmt.visit : Stmt → StateM Printer (List String)
  | .expression a => do
    let level := (← get).level
    let expr ← render (level + 1) a.visit
    return header level.toNat "Expression" :: expr
  | .ifThen c s => do
    let level := (← get).level
    let condition ← render (level + 2) c.visit
    let thenBranch ← render (level + 2) s.visit
    return header level.toNat "If" ::
      branch level.toNat false "Condition:" :: condition ++
      branch level.toNat true "Then:" :: thenBranch
  | .ifElse c s t => do
    let level := (← get).level
    let condition ← render (level + 2) c.visit
    let thenBranch ← render (level + 2) s.visit
    let elseBranch ← render (level + 2) t.visit
    return header level.toNat "If" ::
      branch level.toNat false "Condition:" :: condition ++
      branch level.toNat false "Then:" :: thenBranch ++
      branch level.toNat true "Else:" :: elseBranch
  | .loop v a s => do
    let level := (← get).level
    let iterable ← render (level + 2) a.visit
    let body ← render (level + 2) s.visit
    return header level.toNat "For" ::
      branch level.toNat false s!"Variable: {v.lexeme}" ::
      branch level.toNat false "Iterable:" :: iterable ++
      branch level.toNat true "Body:" :: body
  | .block ss => do
    let level := (← get).level
    let inner ← Stmt.visitBlock level 1 ss
    return header level.toNat "Block" :: inner
  | .declare t none => do
    let level := (← get).level
    return [header level.toNat s!"Variable Declaration: {t.lexeme}",
      branch level.toNat true "Initializer: null"]
  | .declare t (some a) => do
    let level := (← get).level
    let value ← render (level + 2) a.visit
    return header level.toNat s!"Variable Declaration: {t.lexeme}" ::
      branch level.toNat true "Initializer:" :: value
  | .fetch a => do
    let level := (← get).level
    let url ← render (level + 2) a.visit
    return header level.toNat "Fetch" :: branch level.toNat true "URL:" :: url
  | .save a b => do
    let level := (← get).level
    let data ← render (level + 2) a.visit
    let target ← render (level + 2) b.visit
    return header level.toNat "Save" ::
      branch level.toNat false "Data:" :: data ++
      branch level.toNat true "Filename:" :: target
  | .print a => do
    let level := (← get).level
    let value ← render (level + 2) a.visit
    return header level.toNat "Print" :: branch level.toNat true "Expression:" :: value

def Stmt.visitBlock (level : Int) (number : Nat) : List Stmt → StateM Printer (List String)
  | [] => return []
  | s :: ss => do
    let first ← render (level + 2) s.visit
    let others ← Stmt.visitBlock level (number + 1) ss
    return branch level.toNat ss.isEmpty s!"Statement {number}:" :: first ++ others

end

/-- The text of a program, and the printer after it. -/
def Printer.print (printer : Printer) (ss : List Stmt) : String × Printer :=
  let (lines, printer) := (ss.mapM fun s => render 0 s.visit).run printer
  ("\n".intercalate lines.flatten, printer)

/-- The text of a single statement, from a printer of its own. -/
def Stmt.dump (s : Stmt) : String := (Printer.print {} [s]).1

end ScrapeScript
