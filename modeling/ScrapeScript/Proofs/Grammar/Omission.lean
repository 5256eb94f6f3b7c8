import ScrapeScript.Proofs.Grammar.Clause

namespace ScrapeScript

/-- The tokens of a statement that ends with a semicolon, without the semicolon. -/
inductive Unstopped : List Token → Stmt → Prop
  | expression {ts : List Token} {e : Expr} :
    Phrase Expr.IsVariable .expression ts e → Unstopped ts (.expression e)
  | fetch {ts : List Token} {e : Expr} {word opening closing : Token} :
    word.kind = .fetch → opening.kind = .leftParen → Phrase Expr.IsVariable .expression ts e →
    closing.kind = .rightParen → Unstopped (word :: opening :: (ts ++ [closing])) (.fetch e)
  | save {ts us : List Token} {d e : Expr} {word opening comma closing : Token} :
    word.kind = .save → opening.kind = .leftParen → Phrase Expr.IsVariable .expression ts d →
    comma.kind = .comma → Phrase Expr.IsVariable .expression us e → closing.kind = .rightParen →
    Unstopped (word :: opening :: (ts ++ comma :: (us ++ [closing]))) (.save d e)
  | print {ts : List Token} {e : Expr} {word opening closing : Token} :
    word.kind = .print → opening.kind = .leftParen → Phrase Expr.IsVariable .expression ts e →
    closing.kind = .rightParen → Unstopped (word :: opening :: (ts ++ [closing])) (.print e)
  | declare {word name : Token} :
    word.kind = .varWord → name.kind = .identifier → Unstopped [word, name] (.declare name none)
  | define {ts : List Token} {e : Expr} {word name equals : Token} :
    word.kind = .varWord → name.kind = .identifier → equals.kind = .equals →
    Phrase Expr.IsVariable .expression ts e →
    Unstopped (word :: name :: equals :: ts) (.declare name (some e))

theorem Unstopped.clause {us : List Token} {s : Stmt} {stop : Token} (h : Unstopped us s)
    (hstop : stop.kind = .semicolon) : Clause .nearest .declaration (us ++ [stop]) s := by
  cases h with
  | expression he => exact .statement (.expression he hstop)
  | fetch hw ho he hc => simpa using Clause.statement (.fetch hw ho he hc hstop)
  | save hw ho hd hm he hc => simpa using Clause.statement (.save hw ho hd hm he hc hstop)
  | print hw ho he hc => simpa using Clause.statement (.print hw ho he hc hstop)
  | declare hw hn => exact .declare hw hn hstop
  | define hw hn heq he => exact .define hw hn heq he hstop

/-- A statement stands right in a block or right at the top of what a rule makes, with tokens `pre`
before it and tokens `post` after it. The trees are with the statement and without it. -/
inductive Omission (s : Stmt) :
    (rule : ClauseRule) → (pre post : List Token) → (x x' : rule.Tree) → Prop
  | here {post : List Token} {ss : List Stmt} :
    Clause .nearest .declarations post ss → Omission s .declarations [] post (s :: ss) ss
  | later {ts pre post : List Token} {a : Stmt} {ss ss' : List Stmt} :
    Clause .nearest .declaration ts a → Omission s .declarations pre post ss ss' →
    Omission s .declarations (ts ++ pre) post (a :: ss) (a :: ss')
  | inside {pre post us : List Token} {a a' : Stmt} {ss : List Stmt} :
    Omission s .statement pre post a a' → Clause .nearest .declarations us ss →
    Omission s .declarations pre (post ++ us) (a :: ss) (a' :: ss)
  | block {pre post : List Token} {ss ss' : List Stmt} {opening closing : Token} :
    opening.kind = .leftBrace → Omission s .declarations pre post ss ss' →
    closing.kind = .rightBrace →
    Omission s .statement (opening :: pre) (post ++ [closing]) (.block ss) (.block ss')
  | ifThen {ts pre post : List Token} {c : Expr} {a a' : Stmt} {word opening closing : Token} :
    word.kind = .ifWord → opening.kind = .leftParen → Phrase Expr.IsVariable .expression ts c →
    closing.kind = .rightParen → Omission s .statement pre post a a' →
    Omission s .statement (word :: opening :: (ts ++ closing :: pre)) post
      (.ifThen c a) (.ifThen c a')
  | thenBranch {ts pre post vs : List Token} {c : Expr} {a a' t : Stmt}
      {word opening closing other : Token} :
    word.kind = .ifWord → opening.kind = .leftParen → Phrase Expr.IsVariable .expression ts c →
    closing.kind = .rightParen → Omission s .statement pre post a a' → ¬a.EndsOpen →
    other.kind = .elseWord → Clause .nearest .statement vs t →
    Omission s .statement (word :: opening :: (ts ++ closing :: pre)) (post ++ other :: vs)
      (.ifElse c a t) (.ifElse c a' t)
  | elseBranch {ts us pre post : List Token} {c : Expr} {a t t' : Stmt}
      {word opening closing other : Token} :
    word.kind = .ifWord → opening.kind = .leftParen → Phrase Expr.IsVariable .expression ts c →
    closing.kind = .rightParen → Clause .nearest .statement us a → ¬a.EndsOpen →
    other.kind = .elseWord → Omission s .statement pre post t t' →
    Omission s .statement (word :: opening :: (ts ++ closing :: (us ++ other :: pre))) post
      (.ifElse c a t) (.ifElse c a t')
  | loop {ts pre post : List Token} {e : Expr} {a a' : Stmt}
      {word opening item inside closing : Token} :
    word.kind = .forWord → opening.kind = .leftParen → item.kind = .identifier →
    inside.kind = .inWord → Phrase Expr.IsVariable .expression ts e → closing.kind = .rightParen →
    Omission s .statement pre post a a' →
    Omission s .statement (word :: opening :: item :: inside :: (ts ++ closing :: pre)) post
      (.loop item e a) (.loop item e a')

namespace Omission

variable {s : Stmt} {pre post us : List Token}

/-- What is left out stands in a block, so that it is not what takes an alternative. -/
theorem endsOpen_iff {pre post : List Token} {a a' : Stmt}
    (h : Omission s .statement pre post a a') : a'.EndsOpen ↔ a.EndsOpen := by
  match h with
  | .block .. | .ifThen .. | .thenBranch .. => exact Iff.rfl
  | .elseBranch _ _ _ _ _ _ _ h | .loop _ _ _ _ _ _ h => exact h.endsOpen_iff

/-- With the statement the tokens make the first tree. -/
theorem clause {rule : ClauseRule} {x x' : rule.Tree} (h : Omission s rule pre post x x')
    (hs : Clause .nearest .declaration us s) : Clause .nearest rule (pre ++ us ++ post) x := by
  induction h with
  | here hpost => exact .next hs hpost
  | later ha _ ih => simpa using Clause.next ha ih
  | inside _ hus ih => simpa using Clause.next (.statement ih) hus
  | block ho _ hc ih => simpa using Clause.block ho ih hc
  | ifThen hw ho hc hr _ ih => simpa using Clause.ifThen hw ho hc hr ih
  | thenBranch hw ho hc hr _ ha hother ht ih =>
    simpa using Clause.ifElse hw ho hc hr ih ha hother ht
  | elseBranch hw ho hc hr hus ha hother _ ih =>
    simpa using Clause.ifElse hw ho hc hr hus ha hother ih
  | loop hw ho hi hin he hr _ ih => simpa using Clause.loop hw ho hi hin he hr ih

/-- Without it they make the second one. -/
theorem clause_without {rule : ClauseRule} {x x' : rule.Tree}
    (h : Omission s rule pre post x x') : Clause .nearest rule (pre ++ post) x' := by
  induction h with
  | here hpost => exact hpost
  | later ha _ ih => simpa using Clause.next ha ih
  | inside _ hus ih => simpa using Clause.next (.statement ih) hus
  | block ho _ hc ih => simpa using Clause.block ho ih hc
  | ifThen hw ho hc hr _ ih => simpa using Clause.ifThen hw ho hc hr ih
  | thenBranch hw ho hc hr hs ha hother ht ih =>
    simpa using Clause.ifElse hw ho hc hr ih (mt hs.endsOpen_iff.1 ha) hother ht
  | elseBranch hw ho hc hr hus ha hother _ ih =>
    simpa using Clause.ifElse hw ho hc hr hus ha hother ih
  | loop hw ho hi hin he hr _ ih => simpa using Clause.loop hw ho hi hin he hr ih

end Omission

end ScrapeScript
