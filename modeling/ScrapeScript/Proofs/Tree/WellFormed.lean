import ScrapeScript.Proofs.Grammar.Clause

namespace ScrapeScript

namespace Expr

/-- How tightly an expression binds: an assignment not at all, a binary operation as its operator
does, an operation with a prefix tighter, and what can be called tightest. -/
def level : Expr → Nat
  | .binary _ op _ => ([1, 2, 3, 4, 5, 6].find? (op.kind ∈ binaryOperators ·)).getD 0
  | .unary _ _ => 7
  | _ => 8

theorem level_binary (l : Expr) (op : Token) (r : Expr) :
    (Expr.binary l op r).level = op.kind.precedence?.getD 0 := by
  rw [level]
  cases op.kind <;> rfl

/-- A tree that parentheses would not change: each part is where its level allows it to be. -/
inductive WellFormed : Expr → Prop
  | literal (v : Value) : WellFormed (.literal v)
  | variable {t : Token} : t.kind = .identifier → WellFormed (.variable t)
  | grouping {e : Expr} : e.WellFormed → WellFormed (.grouping e)
  | assignment {t op : Token} {r : Expr} :
    op.kind = .equals → t.kind = .identifier → r.WellFormed →
    WellFormed (.binary (.variable t) op r)
  | operation {l r : Expr} {op : Token} {p : Nat} :
    op.kind ∈ binaryOperators p → l.WellFormed → p ≤ l.level → r.WellFormed → p < r.level →
    WellFormed (.binary l op r)
  | unary {op : Token} {e : Expr} :
    op.kind = .not ∨ op.kind = .minus → e.WellFormed → 7 ≤ e.level → WellFormed (.unary op e)
  | selection {word paren : Token} {e : Expr} :
    word.kind = .select → paren.kind = .rightParen → e.WellFormed →
    WellFormed (.call (.variable word) paren [e])
  | call {f : Expr} {paren : Token} {as : List Expr} :
    f.WellFormed → 8 ≤ f.level → paren.kind = .rightParen → (∀ a ∈ as, a.WellFormed) →
    WellFormed (.call f paren as)
  | property {e : Expr} {name : Token} :
    e.WellFormed → 8 ≤ e.level → name.kind ∈ propertyNames → WellFormed (.property e name)

end Expr

namespace Stmt

/-- A declaration stands at the top of a program or of a block and nowhere else. -/
def IsDeclaration (s : Stmt) : Prop := ∃ name e, s = .declare name e

/-- A tree whose branches are statements, and in which no alternative could move further in. -/
inductive WellFormed : Stmt → Prop
  | expression {e : Expr} : e.WellFormed → WellFormed (.expression e)
  | ifThen {c : Expr} {s : Stmt} :
    c.WellFormed → s.WellFormed → ¬s.IsDeclaration → WellFormed (.ifThen c s)
  | ifElse {c : Expr} {s t : Stmt} :
    c.WellFormed → s.WellFormed → ¬s.IsDeclaration → ¬s.EndsOpen → t.WellFormed →
    ¬t.IsDeclaration → WellFormed (.ifElse c s t)
  | loop {item : Token} {e : Expr} {s : Stmt} :
    item.kind = .identifier → e.WellFormed → s.WellFormed → ¬s.IsDeclaration →
    WellFormed (.loop item e s)
  | block {ss : List Stmt} : (∀ s ∈ ss, s.WellFormed) → WellFormed (.block ss)
  | declare {name : Token} {e : Option Expr} :
    name.kind = .identifier → (∀ v ∈ e, v.WellFormed) → WellFormed (.declare name e)
  | fetch {e : Expr} : e.WellFormed → WellFormed (.fetch e)
  | save {d e : Expr} : d.WellFormed → e.WellFormed → WellFormed (.save d e)
  | print {e : Expr} : e.WellFormed → WellFormed (.print e)

end Stmt

mutual

/-- How many levels of nesting an expression needs below the one at which it begins. -/
def Expr.need : Expr → Nat
  | .literal _ | .variable _ => 0
  | .grouping e | .unary _ e => e.need + 1
  | .binary l op r => if op.kind = .equals then max l.need (r.need + 1) else max l.need r.need
  | .call f _ as => max f.need (Expr.needOfArguments as)
  | .property e _ => e.need

def Expr.needOfArguments : List Expr → Nat
  | [] => 0
  | a :: as => max (a.need + 1) (Expr.needOfArguments as)

end

mutual

/-- How many levels of nesting a statement needs. A declaration takes none for itself. -/
def Stmt.need : Stmt → Nat
  | .expression e | .fetch e | .print e => e.need + 2
  | .save d e => max (d.need + 2) (e.need + 2)
  | .ifThen c s => max (c.need + 1) s.need + 1
  | .ifElse c s t => max (c.need + 1) (max s.need t.need) + 1
  | .loop _ e s => max (e.need + 1) s.need + 1
  | .block ss => Stmt.needOfAll ss + 1
  | .declare _ none => 0
  | .declare _ (some e) => e.need + 1

def Stmt.needOfAll : List Stmt → Nat
  | [] => 0
  | s :: ss => max s.need (Stmt.needOfAll ss)

end

end ScrapeScript
