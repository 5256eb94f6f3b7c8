import ScrapeScript.Tree.Basic

namespace ScrapeScript

mutual

/-- Equality of expressions: the same shape, and tokens and values that are the same. -/
def Expr.same : Expr → Expr → Bool
  | .binary a op b, .binary a' op' b' => a.same a' && op.same op' && b.same b'
  | .grouping a, .grouping a' => a.same a'
  | .literal v, .literal v' => v.same v'
  | .variable t, .variable t' => t.same t'
  | .unary op a, .unary op' a' => op.same op' && a.same a'
  | .call f t as, .call f' t' as' => f.same f' && t.same t' && Expr.sameAll as as'
  | .property a t, .property a' t' => a.same a' && t.same t'
  | _, _ => false

def Expr.sameAll : List Expr → List Expr → Bool
  | [], [] => true
  | a :: as, b :: bs => a.same b && Expr.sameAll as bs
  | _, _ => false

end

def Expr.sameOption : Option Expr → Option Expr → Bool
  | none, none => true
  | some a, some b => a.same b
  | _, _ => false

mutual

/-- Equality of statements, in the same way. -/
def Stmt.same : Stmt → Stmt → Bool
  | .expression a, .expression a' => a.same a'
  | .ifThen c s, .ifThen c' s' => c.same c' && s.same s'
  | .ifElse c s t, .ifElse c' s' t' => c.same c' && s.same s' && t.same t'
  | .loop v a s, .loop v' a' s' => v.same v' && a.same a' && s.same s'
  | .block ss, .block ss' => Stmt.sameAll ss ss'
  | .declare n a, .declare n' a' => n.same n' && Expr.sameOption a a'
  | .fetch a, .fetch a' => a.same a'
  | .save a b, .save a' b' => a.same a' && b.same b'
  | .print a, .print a' => a.same a'
  | _, _ => false

def Stmt.sameAll : List Stmt → List Stmt → Bool
  | [], [] => true
  | s :: ss, t :: ts => s.same t && Stmt.sameAll ss ts
  | _, _ => false

end

end ScrapeScript
