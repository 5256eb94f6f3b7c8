import ScrapeScript.Parser.Expression

namespace ScrapeScript

/-- What a statement begins with that is more than an expression. -/
def TokenKind.startsForm (k : TokenKind) : Bool :=
  k matches ifWord | forWord | leftBrace | fetch | save | print

namespace Rule

variable {g : Setting}

/-- The value a declaration gives, if it gives one. -/
def initializer (expression : Rule g Expr) : Rule g (Option Expr) := do
  match ← acceptKind .equals with
  | none => return none
  | some _ => some <$> expression

def variableDeclaration (expression : Rule g Expr) : Rule g Stmt := do
  let name ← demand .variableName
  let initializer ← initializer expression
  let _ ← demand .semicolonAfterDeclaration
  return .declare name initializer

def expressionStatement (expression : Rule g Expr) : Rule g Stmt := do
  let expr ← expression
  let _ ← demand .semicolonAfterExpression
  return .expression expr

/-- An alternative belongs to the nearest condition that can take it. -/
def conditional (expression : Rule g Expr) (statement : Rule g Stmt) : Rule g Stmt := do
  let _ ← demand .openIf
  let condition ← expression
  let _ ← demand .closeCondition
  let thenBranch ← statement
  match ← acceptKind .elseWord with
  | none => return .ifThen condition thenBranch
  | some _ => Stmt.ifElse condition thenBranch <$> statement

def loop (expression : Rule g Expr) (statement : Rule g Stmt) : Rule g Stmt := do
  let _ ← demand .openFor
  let item ← demand .loopVariable
  let _ ← demand .inAfterLoopVariable
  let iterable ← expression
  let _ ← demand .closeLoopHeader
  Stmt.loop item iterable <$> statement

def fetch (expression : Rule g Expr) : Rule g Stmt := do
  let _ ← demand .openFetch
  let url ← expression
  let _ ← demand .closeUrl
  let _ ← demand .semicolonAfterFetch
  return .fetch url

def save (expression : Rule g Expr) : Rule g Stmt := do
  let _ ← demand .openSave
  let data ← expression
  let _ ← demand .commaAfterData
  let target ← expression
  let _ ← demand .closeFilename
  let _ ← demand .semicolonAfterSave
  return .save data target

def print (expression : Rule g Expr) : Rule g Stmt := do
  let _ ← demand .openPrint
  let value ← expression
  let _ ← demand .closeExpression
  let _ ← demand .semicolonAfterPrint
  return .print value

/-- A statement or a declaration; one that fails is passed over. -/
def declaration (expression : Rule g Expr) (statement : Rule g Stmt) :
    Rule g (Option Stmt) :=
  recovering do
    match ← acceptKind .varWord with
    | some _ => variableDeclaration expression
    | none => statement

/-- The next declaration, unless a token of the kinds `p` is next. -/
def declarationUnless (p : TokenKind → Bool) (expression : Rule g Expr) (statement : Rule g Stmt) :
    Rule g (Option (Option Stmt)) := do
  if ← stopsAt p then
    return none
  else
    some <$> declaration expression statement

/-- Declarations up to a token of the kinds `p`, less those that were passed over. -/
def declarationsUntil (p : TokenKind → Bool) (expression : Rule g Expr) (statement : Rule g Stmt) :
    Rule g (List Stmt) := do
  let found ← many (declarationUnless p expression statement)
  return found.filterMap id

def block (expression : Rule g Expr) (statement : Rule g Stmt) : Rule g Stmt := do
  let inner ← declarationsUntil (fun k => k matches .rightBrace | .endOfFile) expression
    statement
  let _ ← demand .closeBlock
  return .block inner

/-- A statement of any form, its parts one level further in. -/
def form (expression : Rule g Expr) (statement : Rule g Stmt) : Rule g Stmt := do
  match ← accept TokenKind.startsForm with
  | none => expressionStatement expression
  | some t =>
    match t.kind with
    | .ifWord => conditional expression statement
    | .forWord => loop expression statement
    | .leftBrace => block expression statement
    | .fetch => fetch expression
    | .save => save expression
    | _ => print expression

/-- A statement that may nest so many levels deeper. -/
def statementUpTo : Nat → Rule g Stmt
  | 0, s => fail (.tooDeep g.limit) s
  | height + 1, s => within (form (expressionUpTo height) (statementUpTo height)) s

/-- A statement at the depth reached so far. -/
def statement : Rule g Stmt := fun s => statementUpTo (g.levels - s.depth) s

/-- Declarations up to an end of file. -/
def program : Rule g (List Stmt) :=
  declarationsUntil (· == .endOfFile) expression statement

end Rule

end ScrapeScript
