import ScrapeScript.Parser.Statement
import ScrapeScript.Proofs.Grammar.Phrase

namespace ScrapeScript

/-- An alternative after this statement would belong to a condition inside it. -/
def Stmt.EndsOpen : Stmt → Prop
  | .ifThen _ _ => True
  | .ifElse _ _ s | .loop _ _ s => s.EndsOpen
  | _ => False

/-- What the grammar leaves to further rules: what may be assigned to, and what may stand between
a condition and its alternative. -/
structure Grammar where
  target : Expr → Prop
  thenBranch : Stmt → Prop

namespace Grammar

/-- Any statement may stand between a condition and its alternative. -/
abbrev plain (target : Expr → Prop) : Grammar := ⟨target, fun _ => True⟩

/-- Values go to variables. Nothing says to which of two conditions an alternative belongs. -/
def written : Grammar := plain Expr.IsVariable

/-- An alternative belongs to the nearest condition. -/
def nearest : Grammar := ⟨Expr.IsVariable, fun s => ¬s.EndsOpen⟩

/-- A value may go to any operation. -/
def loose : Grammar := plain fun _ => True

end Grammar

inductive ClauseRule
  | statement
  | declaration
  | declarations

/-- A rule makes one statement, or those of a block or a program. -/
abbrev ClauseRule.Tree : ClauseRule → Type
  | declarations => List Stmt
  | _ => Stmt

/-- The grammar of statements. -/
inductive Clause (g : Grammar) : (rule : ClauseRule) → List Token → rule.Tree → Prop
  | expression {ts : List Token} {e : Expr} {stop : Token} :
    Phrase g.target .expression ts e → stop.kind = .semicolon →
    Clause g .statement (ts ++ [stop]) (.expression e)
  | ifThen {ts us : List Token} {c : Expr} {s : Stmt} {word opening closing : Token} :
    word.kind = .ifWord → opening.kind = .leftParen → Phrase g.target .expression ts c →
    closing.kind = .rightParen → Clause g .statement us s →
    Clause g .statement (word :: opening :: (ts ++ closing :: us)) (.ifThen c s)
  | ifElse {ts us vs : List Token} {c : Expr} {s t : Stmt} {word opening closing other : Token} :
    word.kind = .ifWord → opening.kind = .leftParen → Phrase g.target .expression ts c →
    closing.kind = .rightParen → Clause g .statement us s → g.thenBranch s →
    other.kind = .elseWord → Clause g .statement vs t →
    Clause g .statement (word :: opening :: (ts ++ closing :: (us ++ other :: vs))) (.ifElse c s t)
  | loop {ts us : List Token} {e : Expr} {s : Stmt} {word opening item inside closing : Token} :
    word.kind = .forWord → opening.kind = .leftParen → item.kind = .identifier →
    inside.kind = .inWord → Phrase g.target .expression ts e → closing.kind = .rightParen →
    Clause g .statement us s →
    Clause g .statement (word :: opening :: item :: inside :: (ts ++ closing :: us))
      (.loop item e s)
  | block {ts : List Token} {ss : List Stmt} {opening closing : Token} :
    opening.kind = .leftBrace → Clause g .declarations ts ss → closing.kind = .rightBrace →
    Clause g .statement (opening :: (ts ++ [closing])) (.block ss)
  | fetch {ts : List Token} {e : Expr} {word opening closing stop : Token} :
    word.kind = .fetch → opening.kind = .leftParen → Phrase g.target .expression ts e →
    closing.kind = .rightParen → stop.kind = .semicolon →
    Clause g .statement (word :: opening :: (ts ++ [closing, stop])) (.fetch e)
  | save {ts us : List Token} {d e : Expr} {word opening comma closing stop : Token} :
    word.kind = .save → opening.kind = .leftParen → Phrase g.target .expression ts d →
    comma.kind = .comma → Phrase g.target .expression us e → closing.kind = .rightParen →
    stop.kind = .semicolon →
    Clause g .statement (word :: opening :: (ts ++ comma :: (us ++ [closing, stop]))) (.save d e)
  | print {ts : List Token} {e : Expr} {word opening closing stop : Token} :
    word.kind = .print → opening.kind = .leftParen → Phrase g.target .expression ts e →
    closing.kind = .rightParen → stop.kind = .semicolon →
    Clause g .statement (word :: opening :: (ts ++ [closing, stop])) (.print e)
  | declare {word name stop : Token} :
    word.kind = .varWord → name.kind = .identifier → stop.kind = .semicolon →
    Clause g .declaration [word, name, stop] (.declare name none)
  | define {ts : List Token} {e : Expr} {word name equals stop : Token} :
    word.kind = .varWord → name.kind = .identifier → equals.kind = .equals →
    Phrase g.target .expression ts e → stop.kind = .semicolon →
    Clause g .declaration (word :: name :: equals :: (ts ++ [stop])) (.declare name (some e))
  | statement {ts : List Token} {s : Stmt} : Clause g .statement ts s → Clause g .declaration ts s
  | nothing : Clause g .declarations [] []
  | next {ts us : List Token} {s : Stmt} {ss : List Stmt} :
    Clause g .declaration ts s → Clause g .declarations us ss →
    Clause g .declarations (ts ++ us) (s :: ss)

/-- A program is what a sequence of declarations makes. -/
abbrev Grammar.Program (g : Grammar) (ts : List Token) (ss : List Stmt) : Prop :=
  Clause g .declarations ts ss

namespace Clause

variable {g : Grammar}

theorem terminals {rule : ClauseRule} {ts : List Token} {x : rule.Tree} (h : Clause g rule ts x) :
    ∀ t ∈ ts, t.kind.isTerminal = true := by
  induction h with
  | save _ _ hd _ he =>
    have hd := hd.terminals
    have he := he.terminals
    simp_all [or_imp, TokenKind.isTerminal]
  | _ => grind [Phrase.terminals, TokenKind.isTerminal]

/-- No clause reaches past an end of file, and none has trivia in it. -/
theorem kinds {rule : ClauseRule} {ts : List Token} {x : rule.Tree} (h : Clause g rule ts x) :
    ∀ t ∈ ts, t.kind ≠ .endOfFile ∧ t.kind.isTrivia = false :=
  fun t ht => TokenKind.matters_of_isTerminal (h.terminals t ht)

/-- A program in which alternatives go to the nearest condition is one of the grammar as written. -/
theorem written_of_nearest {rule : ClauseRule} {ts : List Token} {x : rule.Tree}
    (h : Clause .nearest rule ts x) : Clause .written rule ts x := by
  induction h with
  | ifElse hw hl hc hr _ _ ho _ ihs iht => exact .ifElse hw hl hc hr ihs trivial ho iht
  | _ => constructor <;> assumption

/-- A statement that ends open takes an alternative into the condition at its end. -/
theorem exists_attached {us vs : List Token} {s t : Stmt} {other : Token}
    (h : Clause .nearest .statement us s) (hs : s.EndsOpen) (ho : other.kind = .elseWord)
    (ht : Clause .nearest .statement vs t) :
    ∃ s', Clause .nearest .statement (us ++ other :: vs) s' := by
  -- The last branch that ends open takes the alternative, and a condition whose branch does not
  -- takes it for itself.
  match h with
  | .ifThen (s := s) hw hl hc hr hb =>
    by_cases hopen : s.EndsOpen
    · obtain ⟨s', hs'⟩ := hb.exists_attached hopen ho ht
      exact ⟨_, by simpa using Clause.ifThen hw hl hc hr hs'⟩
    · exact ⟨_, by simpa using Clause.ifElse hw hl hc hr hb hopen ho ht⟩
  | .ifElse hw hl hc hr hb hopen ho' he =>
    obtain ⟨s', hs'⟩ := he.exists_attached hs ho ht
    exact ⟨_, by simpa using Clause.ifElse hw hl hc hr hb hopen ho' hs'⟩
  | .loop hw hl hi hin he hr hb =>
    obtain ⟨s', hs'⟩ := hb.exists_attached hs ho ht
    exact ⟨_, by simpa using Clause.loop hw hl hi hin he hr hs'⟩
  | .expression .. | .block .. | .fetch .. | .save .. | .print .. => exact hs.elim

/-- Every program can be read with each alternative at the nearest condition. -/
theorem exists_nearest {rule : ClauseRule} {ts : List Token} {x : rule.Tree}
    (h : Clause .written rule ts x) : ∃ x', Clause .nearest rule ts x' := by
  induction h with
  | expression he hs => exact ⟨_, .expression he hs⟩
  | ifThen hw hl hc hr _ ih =>
    obtain ⟨s, hs⟩ := ih
    exact ⟨_, .ifThen hw hl hc hr hs⟩
  | ifElse hw hl hc hr _ _ ho _ ihs iht =>
    obtain ⟨s, hs⟩ := ihs
    obtain ⟨t, ht⟩ := iht
    by_cases hopen : s.EndsOpen
    · -- The alternative goes to a condition in the branch, and this one is left without any.
      obtain ⟨s', hs'⟩ := hs.exists_attached hopen ho ht
      exact ⟨_, .ifThen hw hl hc hr hs'⟩
    · exact ⟨_, .ifElse hw hl hc hr hs hopen ho ht⟩
  | loop hw hl hi hin he hr _ ih =>
    obtain ⟨s, hs⟩ := ih
    exact ⟨_, .loop hw hl hi hin he hr hs⟩
  | block hl _ hr ih =>
    obtain ⟨ss, hss⟩ := ih
    exact ⟨_, .block hl hss hr⟩
  | fetch hw hl he hr hs => exact ⟨_, .fetch hw hl he hr hs⟩
  | save hw hl hd hm he hr hs => exact ⟨_, .save hw hl hd hm he hr hs⟩
  | print hw hl he hr hs => exact ⟨_, .print hw hl he hr hs⟩
  | declare hw hn hs => exact ⟨_, .declare hw hn hs⟩
  | define hw hn he h hs => exact ⟨_, .define hw hn he h hs⟩
  | statement _ ih =>
    obtain ⟨s, hs⟩ := ih
    exact ⟨_, .statement hs⟩
  | nothing => exact ⟨_, .nothing⟩
  | next _ _ ihs ihss =>
    obtain ⟨s, hs⟩ := ihs
    obtain ⟨ss, hss⟩ := ihss
    exact ⟨_, .next hs hss⟩

end Clause

end ScrapeScript
