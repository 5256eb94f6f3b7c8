import ScrapeScript.Token.Basic

namespace ScrapeScript

/-- An assignment is a binary operation too. A call keeps the parenthesis that closes it. -/
inductive Expr
  | binary (left : Expr) (operator : Token) (right : Expr)
  | grouping (inner : Expr)
  | literal (value : Value)
  | variable (name : Token)
  | unary (operator : Token) (operand : Expr)
  | call (callee : Expr) (paren : Token) (arguments : List Expr)
  | property (object : Expr) (name : Token)

inductive Stmt
  | expression (expr : Expr)
  | ifThen (condition : Expr) (thenBranch : Stmt)
  | ifElse (condition : Expr) (thenBranch elseBranch : Stmt)
  | loop (item : Token) (iterable : Expr) (body : Stmt)
  | block (statements : List Stmt)
  | declare (name : Token) (initializer : Option Expr)
  | fetch (url : Expr)
  | save (data target : Expr)
  | print (value : Expr)

end ScrapeScript
