import Mathlib.Data.List.Forall2
import ScrapeScript.Proofs.Tree.WellFormed

namespace ScrapeScript

/-- What a tree says about one of the tokens it is written with: a token that it keeps, a literal
of which it keeps the value, or a kind. -/
inductive Slot
  | kept (t : Token)
  | literal (v : Value)
  | kind (k : TokenKind)

def Slot.Admits : Slot → Token → Prop
  | .kept t, u => u = t
  | .literal v, u => (u.kind = .boolean ∨ u.kind = .number ∨ u.kind = .string) ∧ u.value = v
  | .kind k, u => u.kind = k

/-- One token for each of the slots. -/
abbrev Fills (slots : List Slot) (ts : List Token) : Prop := List.Forall₂ Slot.Admits slots ts

mutual

/-- An expression written out. -/
def Expr.slots : Expr → List Slot
  | .binary l op r => l.slots ++ .kept op :: r.slots
  | .grouping e => .kind .leftParen :: (e.slots ++ [.kind .rightParen])
  | .literal v => [.literal v]
  | .variable t => [.kept t]
  | .unary op e => .kept op :: e.slots
  | .call f paren as => f.slots ++ .kind .leftParen :: (Expr.slotsOfArguments as ++ [.kept paren])
  | .property e name => e.slots ++ [.kind .dot, .kept name]

def Expr.slotsOfArguments : List Expr → List Slot
  | [] => []
  | a :: as => a.slots ++ Expr.slotsOfMore as

def Expr.slotsOfMore : List Expr → List Slot
  | [] => []
  | a :: as => .kind .comma :: (a.slots ++ Expr.slotsOfMore as)

end

mutual

/-- A statement written out. -/
def Stmt.slots : Stmt → List Slot
  | .expression e => e.slots ++ [.kind .semicolon]
  | .ifThen c s => .kind .ifWord :: .kind .leftParen :: (c.slots ++ .kind .rightParen :: s.slots)
  | .ifElse c s t =>
    .kind .ifWord :: .kind .leftParen ::
      (c.slots ++ .kind .rightParen :: (s.slots ++ .kind .elseWord :: t.slots))
  | .loop item e s =>
    .kind .forWord :: .kind .leftParen :: .kept item :: .kind .inWord ::
      (e.slots ++ .kind .rightParen :: s.slots)
  | .block ss => .kind .leftBrace :: (Stmt.slotsOfAll ss ++ [.kind .rightBrace])
  | .declare name none => [.kind .varWord, .kept name, .kind .semicolon]
  | .declare name (some e) =>
    .kind .varWord :: .kept name :: .kind .equals :: (e.slots ++ [.kind .semicolon])
  | .fetch e =>
    .kind .fetch :: .kind .leftParen :: (e.slots ++ [.kind .rightParen, .kind .semicolon])
  | .save d e =>
    .kind .save :: .kind .leftParen ::
      (d.slots ++ .kind .comma :: (e.slots ++ [.kind .rightParen, .kind .semicolon]))
  | .print e =>
    .kind .print :: .kind .leftParen :: (e.slots ++ [.kind .rightParen, .kind .semicolon])

def Stmt.slotsOfAll : List Stmt → List Slot
  | [] => []
  | s :: ss => s.slots ++ Stmt.slotsOfAll ss

end

theorem fills_nil_iff {ts : List Token} : Fills [] ts ↔ ts = [] := List.forall₂_nil_left_iff

theorem fills_cons_iff {a : Slot} {as : List Slot} {ts : List Token} :
    Fills (a :: as) ts ↔ ∃ t us, a.Admits t ∧ Fills as us ∧ ts = t :: us :=
  List.forall₂_cons_left_iff

theorem fills_append_iff {as bs : List Slot} {ts : List Token} :
    Fills (as ++ bs) ts ↔ ∃ us vs, Fills as us ∧ Fills bs vs ∧ ts = us ++ vs := by
  induction as generalizing ts with
  | nil => simp
  | cons a as ih =>
    simp only [List.cons_append, fills_cons_iff, ih]
    constructor
    · rintro ⟨t, _, ht, ⟨us, vs, hus, hvs, rfl⟩, rfl⟩
      exact ⟨t :: us, vs, ⟨t, us, ht, hus, rfl⟩, hvs, rfl⟩
    · rintro ⟨_, vs, ⟨t, us, ht, hus, rfl⟩, hvs, rfl⟩
      exact ⟨t, us ++ vs, ht, ⟨us, vs, hus, hvs, rfl⟩, rfl⟩

theorem Fills.append {as bs : List Slot} {ts us : List Token} (h : Fills as ts)
    (h' : Fills bs us) : Fills (as ++ bs) (ts ++ us) :=
  fills_append_iff.2 ⟨ts, us, h, h', rfl⟩

theorem TokenKind.precedence?_bounds {k : TokenKind} {p : Nat} (h : k.precedence? = some p) :
    1 ≤ p ∧ p ≤ 6 := by
  cases k <;> simp [precedence?] at h <;> omega

theorem Expr.level_le (e : Expr) : e.level ≤ 8 := by
  cases e with
  | binary _ op _ =>
    cases h : op.kind.precedence? with
    | none => simp [level_binary, h]
    | some p =>
      have hp := TokenKind.precedence?_bounds h
      rw [level_binary, h, Option.getD_some]
      omega
  | _ => simp [level]

/-- A phrase of an expression that binds as tightly as a level, or tighter. -/
def BoundPhrase (target : Expr → Prop) (ts : List Token) (e : Expr) : Nat → Prop
  | 0 => Phrase target .expression ts e
  | 7 => Phrase target .unary ts e
  | 8 => Phrase target .call ts e
  | p => Phrase target (.operation p) ts e

namespace BoundPhrase

variable {target : Expr → Prop} {ts : List Token} {e : Expr} {p q : Nat}

theorem loosen (hp : p < 8) (h : BoundPhrase target ts e (p + 1)) : BoundPhrase target ts e p := by
  match p with
  | 0 => exact .value h
  | 1 | 2 | 3 | 4 | 5 => exact .tighter h
  | 6 => exact .tighter (.operand h)
  | 7 => exact .call h

theorem of_le (h : BoundPhrase target ts e q) (hpq : p ≤ q) (hq : q ≤ 8) :
    BoundPhrase target ts e p := by
  induction hpq with
  | refl => exact h
  | step _ ih => exact ih (h.loosen (by omega)) (by omega)

/-- Operands of a binary operator stand at a level of operation, the tightest one included. -/
theorem operation (h : BoundPhrase target ts e p) (h1 : 1 ≤ p) (h7 : p ≤ 7) :
    Phrase target (.operation p) ts e := by
  match p with
  | 1 | 2 | 3 | 4 | 5 | 6 => exact h
  | 7 => exact .operand h

theorem of_operation (h : Phrase target (.operation p) ts e) (h1 : 1 ≤ p) (h6 : p ≤ 6) :
    BoundPhrase target ts e p := by
  match p with
  | 1 | 2 | 3 | 4 | 5 | 6 => exact h

theorem expression (h : BoundPhrase target ts e e.level) : Phrase target .expression ts e :=
  h.of_le (Nat.zero_le _) e.level_le

theorem unary (h : BoundPhrase target ts e e.level) (he : 7 ≤ e.level) :
    Phrase target .unary ts e :=
  h.of_le he e.level_le

theorem call (h : BoundPhrase target ts e e.level) (he : 8 ≤ e.level) :
    Phrase target .call ts e :=
  h.of_le he e.level_le

end BoundPhrase

section Expressions

variable {target : Expr → Prop} {as : List Expr} {ts : List Token}

theorem phrase_moreArguments
    (has : ∀ a ∈ as, ∀ {ts}, Fills a.slots ts → BoundPhrase target ts a a.level)
    (h : Fills (Expr.slotsOfMore as) ts) : Phrase target .moreArguments ts as := by
  induction as generalizing ts with
  | nil =>
    obtain rfl := fills_nil_iff.1 h
    exact .lastArgument
  | cons a as ih =>
    simp only [Expr.slotsOfMore, fills_cons_iff, fills_append_iff] at h
    obtain ⟨comma, _, hcomma, ⟨us, vs, hus, hvs, rfl⟩, rfl⟩ := h
    have ha := has a List.mem_cons_self hus
    exact .nextArgument hcomma ha.expression
      (ih (fun b hb => has b (List.mem_cons_of_mem a hb)) hvs)

theorem phrase_arguments
    (has : ∀ a ∈ as, ∀ {ts}, Fills a.slots ts → BoundPhrase target ts a a.level)
    (h : Fills (Expr.slotsOfArguments as) ts) : Phrase target .arguments ts as := by
  cases as with
  | nil =>
    obtain rfl := fills_nil_iff.1 h
    exact .noArguments
  | cons a as =>
    obtain ⟨us, vs, hus, hvs, rfl⟩ := fills_append_iff.1 h
    have ha := has a List.mem_cons_self hus
    exact .arguments ha.expression
      (phrase_moreArguments (fun b hb => has b (List.mem_cons_of_mem a hb)) hvs)

/-- What a well-formed expression is written with is a phrase of its level. -/
theorem Expr.WellFormed.boundPhrase {e : Expr} (he : e.WellFormed)
    (ht : ∀ t, target (.variable t)) (h : Fills e.slots ts) :
    BoundPhrase target ts e e.level := by
  induction he generalizing ts with
  | literal v =>
    simp only [slots, fills_cons_iff, fills_nil_iff] at h
    obtain ⟨t, _, ⟨hk, rfl⟩, rfl, rfl⟩ := h
    exact .primary (.literal hk)
  | «variable» hk =>
    simp only [slots, fills_cons_iff, fills_nil_iff] at h
    obtain ⟨t, _, rfl, rfl, rfl⟩ := h
    exact .primary (.name hk)
  | grouping _ ih =>
    simp only [slots, fills_cons_iff, fills_append_iff, fills_nil_iff] at h
    obtain ⟨opening, _, ho, ⟨us, _, hus, ⟨closing, _, hc, rfl, rfl⟩, rfl⟩, rfl⟩ := h
    exact .primary (.grouping ho (ih hus).expression hc)
  | @assignment _ _ r hop hk _ ih =>
    simp only [slots, fills_cons_iff, fills_append_iff, fills_nil_iff] at h
    obtain ⟨_, _, ⟨t, _, rfl, rfl, rfl⟩, ⟨op, us, rfl, hus, rfl⟩, rfl⟩ := h
    -- The grammar has an operation to the left of the sign, and a variable is one.
    have hl : BoundPhrase target [t] (.variable t) 8 := .primary (.name hk)
    have hl : BoundPhrase target [t] (.variable t) 1 := hl.of_le (by omega) (by omega)
    have hlevel : (Expr.binary (.variable t) op r).level = 0 := by
      rw [level_binary, hop]
      rfl
    rw [hlevel]
    exact .assignment hl (ht t) hop (ih hus).expression
  | @operation l r _ p hop _ hl _ hr ihl ihr =>
    simp only [slots, fills_cons_iff, fills_append_iff] at h
    obtain ⟨us, _, hus, ⟨op, vs, rfl, hvs, rfl⟩, rfl⟩ := h
    have hprecedence := mem_binaryOperators.1 hop
    have hlevel : (Expr.binary l op r).level = p := by
      rw [level_binary, hprecedence, Option.getD_some]
    -- Either operand may bind tighter than its place asks for.
    have hp := TokenKind.precedence?_bounds hprecedence
    have hleft := ((ihl hus).of_le hl l.level_le).operation hp.1 (by omega)
    have hright := ((ihr hvs).of_le hr r.level_le).operation (by omega) (by omega)
    rw [hlevel]
    exact .of_operation (.operation hleft hop hright) hp.1 hp.2
  | unary hop _ he ih =>
    simp only [slots, fills_cons_iff] at h
    obtain ⟨op, us, rfl, hus, rfl⟩ := h
    exact Phrase.unary hop ((ih hus).unary he)
  | selection hw hp _ ih =>
    simp only [slots, slotsOfArguments, slotsOfMore, fills_cons_iff, fills_append_iff,
      fills_nil_iff] at h
    obtain ⟨_, _, ⟨word, _, rfl, rfl, rfl⟩, ⟨opening, _, ho, ⟨_, _, ⟨us, _, hus, rfl, rfl⟩,
      ⟨paren, _, rfl, rfl, rfl⟩, rfl⟩, rfl⟩, rfl⟩ := h
    rw [List.append_nil]
    exact .primary (.selection hw ho (ih hus).expression hp)
  | call _ hf hp _ ihf ihas =>
    simp only [slots, fills_cons_iff, fills_append_iff, fills_nil_iff] at h
    obtain ⟨us, _, hus, ⟨opening, _, ho, ⟨vs, _, hvs, ⟨paren, _, rfl, rfl, rfl⟩, rfl⟩, rfl⟩,
      rfl⟩ := h
    exact .application ((ihf hus).call hf) ho (phrase_arguments ihas hvs) hp
  | property _ he hname ih =>
    simp only [slots, fills_cons_iff, fills_append_iff, fills_nil_iff] at h
    obtain ⟨us, _, hus, ⟨dot, _, hdot, ⟨name, _, rfl, rfl, rfl⟩, rfl⟩, rfl⟩ := h
    exact .property ((ih hus).call he) hdot hname

theorem Expr.WellFormed.phrase {e : Expr} (he : e.WellFormed) (h : Fills e.slots ts) :
    Phrase Expr.IsVariable .expression ts e :=
  (he.boundPhrase (fun t => ⟨t, rfl⟩) h).expression

end Expressions

section Statements

variable {ss : List Stmt} {ts : List Token}

theorem clause_declarations
    (hss : ∀ s ∈ ss, ∀ {ts}, Fills s.slots ts → Clause .nearest .declaration ts s)
    (h : Fills (Stmt.slotsOfAll ss) ts) : Clause .nearest .declarations ts ss := by
  induction ss generalizing ts with
  | nil =>
    obtain rfl := fills_nil_iff.1 h
    exact .nothing
  | cons s ss ih =>
    obtain ⟨us, vs, hus, hvs, rfl⟩ := fills_append_iff.1 h
    exact .next (hss s List.mem_cons_self hus)
      (ih (fun t ht => hss t (List.mem_cons_of_mem s ht)) hvs)

theorem Stmt.WellFormed.clauses {s : Stmt} (hs : s.WellFormed) (h : Fills s.slots ts) :
    Clause .nearest .declaration ts s ∧
      (¬s.IsDeclaration → Clause .nearest .statement ts s) := by
  have both {ts : List Token} {s : Stmt} (h : Clause .nearest .statement ts s) :
      Clause .nearest .declaration ts s ∧
        (¬s.IsDeclaration → Clause .nearest .statement ts s) := ⟨.statement h, fun _ => h⟩
  induction hs generalizing ts with
  | expression he =>
    simp only [slots, fills_cons_iff, fills_append_iff, fills_nil_iff] at h
    obtain ⟨us, _, hus, ⟨stop, _, hstop, rfl, rfl⟩, rfl⟩ := h
    exact both (.expression (he.phrase hus) hstop)
  | ifThen hc _ hd ih =>
    simp only [slots, fills_cons_iff, fills_append_iff] at h
    obtain ⟨word, _, hw, ⟨opening, _, ho, ⟨us, _, hus, ⟨closing, vs, hcl, hvs, rfl⟩, rfl⟩, rfl⟩,
      rfl⟩ := h
    exact both (.ifThen hw ho (hc.phrase hus) hcl ((ih hvs).2 hd))
  | ifElse hc _ hd hopen _ hd' ih ih' =>
    simp only [slots, fills_cons_iff, fills_append_iff] at h
    obtain ⟨word, _, hw, ⟨opening, _, ho, ⟨us, _, hus, ⟨closing, _, hcl, ⟨vs, _, hvs, ⟨other, ws,
      hother, hws, rfl⟩, rfl⟩, rfl⟩, rfl⟩, rfl⟩, rfl⟩ := h
    exact both (.ifElse hw ho (hc.phrase hus) hcl ((ih hvs).2 hd) hopen hother ((ih' hws).2 hd'))
  | loop hi he _ hd ih =>
    simp only [slots, fills_cons_iff, fills_append_iff] at h
    obtain ⟨word, _, hw, ⟨opening, _, ho, ⟨item, _, rfl, ⟨inside, _, hin, ⟨us, _, hus, ⟨closing, vs,
      hcl, hvs, rfl⟩, rfl⟩, rfl⟩, rfl⟩, rfl⟩, rfl⟩ := h
    exact both (.loop hw ho hi hin (he.phrase hus) hcl ((ih hvs).2 hd))
  | block _ ih =>
    simp only [slots, fills_cons_iff, fills_append_iff, fills_nil_iff] at h
    obtain ⟨opening, _, ho, ⟨us, _, hus, ⟨closing, _, hcl, rfl, rfl⟩, rfl⟩, rfl⟩ := h
    exact both (.block ho (clause_declarations (fun s hs _ h => (ih s hs h).1) hus) hcl)
  | @declare name e hn he =>
    cases e with
    | none =>
      simp only [slots, fills_cons_iff, fills_nil_iff] at h
      obtain ⟨word, _, hw, ⟨_, _, rfl, ⟨stop, _, hstop, rfl, rfl⟩, rfl⟩, rfl⟩ := h
      exact ⟨.declare hw hn hstop, fun hd => absurd ⟨_, _, rfl⟩ hd⟩
    | some e =>
      simp only [slots, fills_cons_iff, fills_append_iff, fills_nil_iff] at h
      obtain ⟨word, _, hw, ⟨_, _, rfl, ⟨equals, _, heq, ⟨us, _, hus, ⟨stop, _, hstop, rfl, rfl⟩,
        rfl⟩, rfl⟩, rfl⟩, rfl⟩ := h
      exact ⟨.define hw hn heq ((he e rfl).phrase hus) hstop, fun hd => absurd ⟨_, _, rfl⟩ hd⟩
  | fetch he =>
    simp only [slots, fills_cons_iff, fills_append_iff, fills_nil_iff] at h
    obtain ⟨word, _, hw, ⟨opening, _, ho, ⟨us, _, hus, ⟨closing, _, hcl, ⟨stop, _, hstop, rfl, rfl⟩,
      rfl⟩, rfl⟩, rfl⟩, rfl⟩ := h
    exact both (.fetch hw ho (he.phrase hus) hcl hstop)
  | save hd he =>
    simp only [slots, fills_cons_iff, fills_append_iff, fills_nil_iff] at h
    obtain ⟨word, _, hw, ⟨opening, _, ho, ⟨us, _, hus, ⟨comma, _, hco, ⟨vs, _, hvs, ⟨closing, _,
      hcl, ⟨stop, _, hstop, rfl, rfl⟩, rfl⟩, rfl⟩, rfl⟩, rfl⟩, rfl⟩, rfl⟩ := h
    exact both (.save hw ho (hd.phrase hus) hco (he.phrase hvs) hcl hstop)
  | print he =>
    simp only [slots, fills_cons_iff, fills_append_iff, fills_nil_iff] at h
    obtain ⟨word, _, hw, ⟨opening, _, ho, ⟨us, _, hus, ⟨closing, _, hcl, ⟨stop, _, hstop, rfl, rfl⟩,
      rfl⟩, rfl⟩, rfl⟩, rfl⟩ := h
    exact both (.print hw ho (he.phrase hus) hcl hstop)

/-- What well-formed statements are written with is a program. -/
theorem program_of_wellFormed (hss : ∀ s ∈ ss, s.WellFormed) (h : Fills (Stmt.slotsOfAll ss) ts) :
    Grammar.nearest.Program ts ss :=
  clause_declarations (fun s hs _ h => ((hss s hs).clauses h).1) h

end Statements

/-- A tree of a rule written out. -/
def PhraseRule.slots : (rule : PhraseRule) → rule.Tree → List Slot
  | .arguments, as => Expr.slotsOfArguments as
  | .moreArguments, as => Expr.slotsOfMore as
  | .expression, e | .operation _, e | .unary, e | .call, e | .primary, e => Expr.slots e

def ClauseRule.slots : (rule : ClauseRule) → rule.Tree → List Slot
  | .statement, s | .declaration, s => Stmt.slots s
  | .declarations, ss => Stmt.slotsOfAll ss

/-- The tokens of a phrase are one for each slot of what they stand for. -/
theorem Phrase.fills {target : Expr → Prop} {rule : PhraseRule} {ts : List Token} {x : rule.Tree}
    (h : Phrase target rule ts x) : Fills (rule.slots x) ts := by
  induction h with
  | value _ ih | tighter _ ih | operand _ ih | call _ ih | primary _ ih => exact ih
  | assignment _ _ _ _ ihl ihr => exact ihl.append (.cons rfl ihr)
  | operation _ _ _ ihl ihr => exact ihl.append (.cons rfl ihr)
  | unary _ _ ih => exact .cons rfl ih
  | application _ ho _ _ ihf ihas => exact ihf.append (.cons ho (ihas.append (.cons rfl .nil)))
  | property _ hd _ ih => exact ih.append (.cons hd (.cons rfl .nil))
  | literal hk => exact .cons ⟨hk, rfl⟩ .nil
  | name => exact .cons rfl .nil
  | @selection ts e _ _ _ _ ho _ _ ih =>
    have hargument : Fills (Expr.slotsOfArguments [e]) ts := by
      simpa [PhraseRule.slots, Expr.slotsOfArguments, Expr.slotsOfMore] using ih
    exact .cons rfl (.cons ho (hargument.append (.cons rfl .nil)))
  | grouping ho _ hc ih => exact .cons ho (ih.append (.cons hc .nil))
  | noArguments | lastArgument => exact .nil
  | arguments _ _ ih ihs => exact ih.append ihs
  | nextArgument hc _ _ ih ihs => exact .cons hc (ih.append ihs)

theorem Clause.fills {g : Grammar} {rule : ClauseRule} {ts : List Token} {x : rule.Tree}
    (h : Clause g rule ts x) : Fills (rule.slots x) ts := by
  induction h with
  | expression he hs => exact he.fills.append (.cons hs .nil)
  | ifThen hw ho hc hr _ ih => exact .cons hw (.cons ho (hc.fills.append (.cons hr ih)))
  | ifElse hw ho hc hr _ _ hother _ ih ih' =>
    exact .cons hw (.cons ho (hc.fills.append (.cons hr (ih.append (.cons hother ih')))))
  | loop hw ho _ hin he hr _ ih =>
    exact .cons hw (.cons ho (.cons rfl (.cons hin (he.fills.append (.cons hr ih)))))
  | block ho _ hc ih => exact .cons ho (ih.append (.cons hc .nil))
  | fetch hw ho he hc hs | print hw ho he hc hs =>
    exact .cons hw (.cons ho (he.fills.append (.cons hc (.cons hs .nil))))
  | save hw ho hd hm he hc hs =>
    exact .cons hw (.cons ho (hd.fills.append (.cons hm (he.fills.append (.cons hc
      (.cons hs .nil))))))
  | declare hw _ hs => exact .cons hw (.cons rfl (.cons hs .nil))
  | define hw _ heq he hs =>
    exact .cons hw (.cons rfl (.cons heq (he.fills.append (.cons hs .nil))))
  | statement _ ih => exact ih
  | nothing => exact .nil
  | next _ _ ih ihs => exact ih.append ihs

end ScrapeScript
