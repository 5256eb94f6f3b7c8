import ScrapeScript.Parser.Rule
import ScrapeScript.Tree.Basic

namespace ScrapeScript

namespace TokenKind

/-- How tightly a binary operator binds. Assignment is none of them. -/
def precedence? : TokenKind → Option Nat
  | or => some 1
  | and => some 2
  | equalEqual | notEqual => some 3
  | greater | greaterEqual | less | lessEqual => some 4
  | plus | minus => some 5
  | multiply | divide => some 6
  | _ => none

def isPrefixOperator (k : TokenKind) : Bool := k matches not | minus

/-- What an operand begins with, its operators aside. -/
def startsPrimary (k : TokenKind) : Bool :=
  k matches boolean | number | string | identifier | select | leftParen

end TokenKind

namespace Rule

variable {g : Setting}

/-- A literal, a name, something in parentheses, or a selection, which has exactly one argument. -/
def primary (expression : Rule g Expr) : Rule g Expr := do
  match ← accept TokenKind.startsPrimary with
  | none => fail .expression
  | some t =>
    match t.kind with
    | .identifier => return .variable t
    | .leftParen =>
      let inner ← expression
      let _ ← demand .closeExpression
      return .grouping inner
    | .select =>
      let _ ← demand .openSelect
      let selector ← expression
      let paren ← demand .closeSelector
      return .call (.variable t) paren [selector]
    | _ => return .literal t.value

/-- A comma and the argument after it. -/
def nextArgument (expression : Rule g Expr) : Rule g (Option Expr) := do
  match ← acceptKind .comma with
  | none => return none
  | some _ => some <$> expression

/-- The arguments of a call, up to the parenthesis that closes it. -/
def arguments (expression : Rule g Expr) : Rule g (List Expr) := do
  if ← nextIs .rightParen then
    return []
  else
    let first ← expression
    let others ← many (nextArgument expression)
    return first :: others

/-- A call of what stands before, from behind the parenthesis that opens it. -/
def finishCall (expression : Rule g Expr) (subject : Expr) : Rule g Expr := do
  let args ← arguments expression
  let paren ← demand .closeArguments
  return .call subject paren args

/-- A call of what stands before, or a property of it. -/
def suffix (expression : Rule g Expr) (subject : Expr) : Rule g (Option Expr) := do
  match ← accept fun k => k matches .leftParen | .dot with
  | none => return none
  | some t =>
    match t.kind with
    | .leftParen => some <$> finishCall expression subject
    | _ =>
      match ← accept TokenKind.isPropertyName with
      | some name => return some (.property subject name)
      | none => fail .propertyName

def callLevel (expression : Rule g Expr) : Rule g Expr := do
  let subject ← primary expression
  iterate (suffix expression) subject

/-- A prefix operator and its operand, or an operand without one. -/
def unary (expression operand : Rule g Expr) : Rule g Expr := do
  match ← accept TokenKind.isPrefixOperator with
  | some op => Expr.unary op <$> operand
  | none => callLevel expression

/-- An operator of one precedence and the operand on its right. -/
def operation (operand : Rule g Expr) (precedence : Nat) (left : Expr) : Rule g (Option Expr) := do
  match ← accept (·.precedence? == some precedence) with
  | some op => (fun right => some (.binary left op right)) <$> operand
  | none => return none

/-- Operations of one precedence, folded to the left. -/
def chain (precedence : Nat) (operand : Rule g Expr) : Rule g Expr := do
  let left ← operand
  iterate (operation operand precedence) left

/-- Operations of all precedences, the tightest innermost. -/
def binary (operand : Rule g Expr) : Rule g Expr := [1, 2, 3, 4, 5, 6].foldr chain operand

/-- An assignment, which takes all on its right, or a binary operation. -/
def assignment (expression operand : Rule g Expr) : Rule g Expr := do
  let target ← binary (unary expression operand)
  match ← acceptKind .equals with
  | none => return target
  | some op =>
    let value ← expression
    match target with
    | .variable _ => return .binary target op value
    | _ => throw ⟨.assignmentTarget, op⟩

mutual

/-- An expression that may nest so many levels deeper. -/
def expressionUpTo : Nat → Rule g Expr
  | 0, s => fail (.tooDeep g.limit) s
  | height + 1, s => within (assignment (expressionUpTo height) (operandUpTo height)) s

/-- What stands after a prefix operator and may nest so many levels deeper. -/
def operandUpTo : Nat → Rule g Expr
  | 0, s => fail (.tooDeep g.limit) s
  | height + 1, s => within (unary (expressionUpTo height) (operandUpTo height)) s

end

/-- An expression at the depth reached so far. -/
def expression : Rule g Expr := fun s => expressionUpTo (g.levels - s.depth) s

end Rule

end ScrapeScript
