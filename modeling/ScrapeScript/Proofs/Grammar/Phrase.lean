import ScrapeScript.Parser.Expression

namespace ScrapeScript

/-- The binary operators, level by level. Those of the first level bind loosest. -/
def binaryOperators : Nat → List TokenKind
  | 1 => [.or]
  | 2 => [.and]
  | 3 => [.equalEqual, .notEqual]
  | 4 => [.greater, .greaterEqual, .less, .lessEqual]
  | 5 => [.plus, .minus]
  | 6 => [.multiply, .divide]
  | _ => []

/-- What may stand behind a dot. Some of these words are no names anywhere else. -/
def propertyNames : List TokenKind := [.identifier, .select, .xpath, .text, .attr, .html]

theorem mem_binaryOperators {k : TokenKind} {p : Nat} :
    k ∈ binaryOperators p ↔ k.precedence? = some p := by
  constructor
  · intro h
    unfold binaryOperators at h
    split at h <;> cases k <;> simp_all [TokenKind.precedence?]
  · intro h
    cases k <;> simp only [TokenKind.precedence?, Option.some.injEq, reduceCtorEq] at h <;>
      subst h <;> decide

theorem mem_propertyNames {k : TokenKind} : k ∈ propertyNames ↔ k.isPropertyName = true := by
  cases k <;> decide

/-- The rules for expressions. The levels of operation are those of the binary operators, and one
more for what binds tighter than all of them. -/
inductive PhraseRule
  | expression
  | operation (level : Nat)
  | unary
  | call
  | primary
  | arguments
  | moreArguments

/-- A rule makes one expression, or the arguments of a call. -/
abbrev PhraseRule.Tree : PhraseRule → Type
  | arguments | moreArguments => List Expr
  | _ => Expr

/-- The only expressions that a value can be assigned to. -/
def Expr.IsVariable (e : Expr) : Prop := ∃ t, e = .variable t

/-- The grammar of expressions: the tokens that a rule allows, and the tree they stand for.
A `target` may stand on the left of an assignment. -/
inductive Phrase (target : Expr → Prop) : (rule : PhraseRule) → List Token → rule.Tree → Prop
  | value {ts : List Token} {e : Expr} :
    Phrase target (.operation 1) ts e → Phrase target .expression ts e
  | assignment {ts us : List Token} {l r : Expr} {op : Token} :
    Phrase target (.operation 1) ts l → target l → op.kind = .equals →
    Phrase target .expression us r → Phrase target .expression (ts ++ op :: us) (.binary l op r)
  | tighter {p : Nat} {ts : List Token} {e : Expr} :
    Phrase target (.operation (p + 1)) ts e → Phrase target (.operation p) ts e
  | operation {p : Nat} {ts us : List Token} {l r : Expr} {op : Token} :
    Phrase target (.operation p) ts l → op.kind ∈ binaryOperators p →
    Phrase target (.operation (p + 1)) us r →
    Phrase target (.operation p) (ts ++ op :: us) (.binary l op r)
  | operand {ts : List Token} {e : Expr} :
    Phrase target .unary ts e → Phrase target (.operation 7) ts e
  | unary {ts : List Token} {e : Expr} {op : Token} :
    op.kind = .not ∨ op.kind = .minus → Phrase target .unary ts e →
    Phrase target .unary (op :: ts) (.unary op e)
  | call {ts : List Token} {e : Expr} : Phrase target .call ts e → Phrase target .unary ts e
  | primary {ts : List Token} {e : Expr} : Phrase target .primary ts e → Phrase target .call ts e
  | application {ts us : List Token} {f : Expr} {as : List Expr} {opening paren : Token} :
    Phrase target .call ts f → opening.kind = .leftParen → Phrase target .arguments us as →
    paren.kind = .rightParen →
    Phrase target .call (ts ++ opening :: (us ++ [paren])) (.call f paren as)
  | property {ts : List Token} {e : Expr} {dot name : Token} :
    Phrase target .call ts e → dot.kind = .dot → name.kind ∈ propertyNames →
    Phrase target .call (ts ++ [dot, name]) (.property e name)
  | literal {t : Token} : t.kind = .boolean ∨ t.kind = .number ∨ t.kind = .string →
    Phrase target .primary [t] (.literal t.value)
  | name {t : Token} : t.kind = .identifier → Phrase target .primary [t] (.variable t)
  | selection {ts : List Token} {e : Expr} {word opening paren : Token} :
    word.kind = .select → opening.kind = .leftParen → Phrase target .expression ts e →
    paren.kind = .rightParen →
    Phrase target .primary (word :: opening :: (ts ++ [paren])) (.call (.variable word) paren [e])
  | grouping {ts : List Token} {e : Expr} {opening closing : Token} :
    opening.kind = .leftParen → Phrase target .expression ts e → closing.kind = .rightParen →
    Phrase target .primary (opening :: (ts ++ [closing])) (.grouping e)
  | noArguments : Phrase target .arguments [] []
  | arguments {ts us : List Token} {a : Expr} {as : List Expr} :
    Phrase target .expression ts a → Phrase target .moreArguments us as →
    Phrase target .arguments (ts ++ us) (a :: as)
  | lastArgument : Phrase target .moreArguments [] []
  | nextArgument {ts us : List Token} {a : Expr} {as : List Expr} {comma : Token} :
    comma.kind = .comma → Phrase target .expression ts a → Phrase target .moreArguments us as →
    Phrase target .moreArguments (comma :: (ts ++ us)) (a :: as)

/-- A token of a kind, with nothing else to tell it by. -/
def Token.ofKind (k : TokenKind) : Token := ⟨k, "", .null, ⟨"", 1, 1, 0⟩⟩

/-- The kind of the next of some tokens, or that of the final one if there is none. -/
def nextKind (ts : List Token) : TokenKind := (ts.head?.map (·.kind)).getD .endOfFile

@[simp] theorem nextKind_nil : nextKind [] = .endOfFile := rfl

@[simp] theorem nextKind_cons (t : Token) (ts : List Token) : nextKind (t :: ts) = t.kind := rfl

theorem nextKind_append_congr {ts us : List Token} (h : nextKind ts = nextKind us)
    (pre : List Token) : nextKind (pre ++ ts) = nextKind (pre ++ us) := by
  cases pre with
  | nil => exact h
  | cons t pre => rfl

/-- What a phrase can begin with. -/
def TokenKind.startsPhrase (k : TokenKind) : Bool := k.startsPrimary || k.isPrefixOperator

/-- The first token of a phrase tells whether a prefix operator is the first thing in it. -/
def PhraseRule.Starts : PhraseRule → TokenKind → Prop
  | .call, k | .primary, k => k.startsPrimary = true
  | .expression, k | .operation _, k | .unary, k => k.startsPhrase = true
  | .arguments, _ | .moreArguments, _ => True

theorem TokenKind.startsPhrase_of_startsPrimary {k : TokenKind} (h : k.startsPrimary = true) :
    k.startsPhrase = true := by
  simp [startsPhrase, h]

/-- What the grammar is written with. Trivia and an end of file have no place in it, and neither
have unknown tokens, brackets and dollars. -/
def TokenKind.isTerminal (k : TokenKind) : Bool :=
  !(k matches comment | whitespace | endOfFile | unknown | leftBracket | rightBracket | dollar)

theorem TokenKind.isTerminal_of_mem_binaryOperators {k : TokenKind} {p : Nat}
    (h : k ∈ binaryOperators p) : k.isTerminal = true := by
  have h := mem_binaryOperators.1 h
  cases k <;> simp_all [precedence?, isTerminal]

theorem TokenKind.isTerminal_of_mem_propertyNames {k : TokenKind} (h : k ∈ propertyNames) :
    k.isTerminal = true := by
  have hall : ∀ k ∈ propertyNames, k.isTerminal = true := by decide
  exact hall k h

theorem TokenKind.matters_of_isTerminal {k : TokenKind} (h : k.isTerminal = true) :
    k ≠ .endOfFile ∧ k.isTrivia = false := by
  cases k <;> simp_all [isTerminal, isTrivia]

namespace Phrase

variable {target : Expr → Prop} {ts : List Token} {e : Expr}

theorem starts {rule : PhraseRule} {x : rule.Tree} (h : Phrase target rule ts x)
    (rest : List Token) : rule.Starts (nextKind (ts ++ rest)) := by
  -- What a phrase begins with may itself be followed by an operator, so the rest is any.
  induction h generalizing rest with
  | value _ ih | tighter _ ih | operand _ ih | primary _ ih => exact ih rest
  | assignment _ _ _ _ ih | operation _ _ _ ih | application _ _ _ _ ih | property _ _ _ ih =>
    rw [List.append_assoc]
    exact ih _
  | unary h => rcases h with h | h <;> simp [PhraseRule.Starts, h] <;> decide
  | call _ ih => exact TokenKind.startsPhrase_of_startsPrimary (ih rest)
  | literal h => rcases h with h | h | h <;> simp [PhraseRule.Starts, h] <;> decide
  | name h | selection h | grouping h => simp [PhraseRule.Starts, h]; decide
  | noArguments | lastArgument | arguments | nextArgument => trivial

theorem terminals {rule : PhraseRule} {x : rule.Tree} (h : Phrase target rule ts x) :
    ∀ t ∈ ts, t.kind.isTerminal = true := by
  induction h with
  | value _ ih | tighter _ ih | operand _ ih | primary _ ih | call _ ih => exact ih
  | operation _ hop => grind [TokenKind.isTerminal_of_mem_binaryOperators hop]
  | property _ _ hname =>
    grind [TokenKind.isTerminal_of_mem_propertyNames hname, TokenKind.isTerminal]
  | _ => grind [TokenKind.isTerminal]

end Phrase

end ScrapeScript
