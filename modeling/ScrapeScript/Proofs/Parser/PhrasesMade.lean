import ScrapeScript.Proofs.Parser.Makes
import ScrapeScript.Proofs.Parser.PhrasesRead
import ScrapeScript.Proofs.Tree.WellFormed

namespace ScrapeScript

namespace TokenKind

/-- No call, property or operation of a level or a tighter one goes on with this. -/
def endsOperation (level : Nat) (k : TokenKind) : Bool :=
  k != .leftParen && k != .dot && k.precedence?.all (· < level)

def endsExpression (k : TokenKind) : Bool := k.endsOperation 1 && k != .equals

theorem endsOperation_iff {p : Nat} {k : TokenKind} : k.endsOperation p = true ↔
    k ≠ .leftParen ∧ k ≠ .dot ∧ ∀ q, k.precedence? = some q → q < p := by
  simp [endsOperation, and_assoc, Option.all_eq_true]

theorem endsOperation_mono {p q : Nat} {k : TokenKind} (h : k.endsOperation p = true)
    (hpq : p ≤ q) : k.endsOperation q = true := by
  rw [endsOperation_iff] at h ⊢
  exact ⟨h.1, h.2.1, fun r hr => Nat.lt_of_lt_of_le (h.2.2 r hr) hpq⟩

theorem endsOperation_of_precedence {p : Nat} {k : TokenKind} (h : k.precedence? = some p) :
    k.endsOperation (p + 1) = true := by
  rw [endsOperation_iff, h]
  refine ⟨?_, ?_, fun q hq => ?_⟩
  · rintro rfl
    cases h
  · rintro rfl
    cases h
  · cases hq
    exact Nat.lt_succ_self p

end TokenKind

namespace Rule

variable {g : Setting} {target : Expr → Prop} {expression operand : Rule g Expr} {d p : Nat}
  {ts us : List Token} {k : TokenKind}

/-- The operations of a level, and of those that are tighter. -/
def level (operand : Rule g Expr) (p : Nat) : Rule g Expr :=
  (List.range' p (7 - p)).foldr chain operand

theorem level_eq_chain (hp : p ≤ 6) : level operand p = chain p (level operand (p + 1)) := by
  obtain ⟨n, hn⟩ : ∃ n, 7 - p = n + 1 := ⟨6 - p, by omega⟩
  have hn' : 7 - (p + 1) = n := by omega
  unfold level
  rw [hn, hn', List.range'_succ, List.foldr_cons]

section Expressions

variable {e f l r : Expr} {as : List Expr}

theorem literal_made {t : Token} (ht : t.kind = .boolean ∨ t.kind = .number ∨ t.kind = .string) :
    Makes (primary expression) d [t] (.literal t.value) k := by
  rcases ht with ht | ht | ht <;> refine .accept_some (by rw [ht]; rfl) ?_ <;> simp only [ht] <;>
    exact .pure _

theorem name_made {t : Token} (ht : t.kind = .identifier) :
    Makes (primary expression) d [t] (.variable t) k := by
  refine .accept_some (by rw [ht]; rfl) ?_
  simp only [ht]
  exact .pure _

theorem selection_made {word opening paren : Token} (hw : word.kind = .select)
    (ho : opening.kind = .leftParen) (he : Makes expression d ts e .rightParen)
    (hp : paren.kind = .rightParen) :
    Makes (primary expression) d (word :: opening :: (ts ++ [paren]))
      (.call (.variable word) paren [e]) k := by
  refine .accept_some (by rw [hw]; rfl) ?_
  simp only [hw]
  exact .demand ho (he.bind (.demand hp (.pure _)) fun _ _ => hp)

theorem grouping_made {opening closing : Token} (ho : opening.kind = .leftParen)
    (he : Makes expression d ts e .rightParen) (hc : closing.kind = .rightParen) :
    Makes (primary expression) d (opening :: (ts ++ [closing])) (.grouping e) k := by
  refine .accept_some (by rw [ho]; rfl) ?_
  simp only [ho]
  exact he.bind (.demand hc (.pure _)) fun _ _ => hc

theorem noArguments_made : Makes (arguments expression) d [] [] .rightParen :=
  .peek (q := (· == .rightParen)) (c := true) (nextIs_eq nofun) (fun v hv => by simp [hv])
    (.pure [])

theorem arguments_made {a : Expr} (ha : Makes expression d ts a k)
    (has : ∀ n, us.length ≤ n → Makes (manyUpTo (nextArgument expression) n) d us as .rightParen)
    (hstart : ∀ rest, nextKind (ts ++ rest) ≠ .rightParen)
    (hk : ∀ v, nextKind v = .rightParen → nextKind (us ++ v) = k) :
    Makes (arguments expression) d (ts ++ us) (a :: as) .rightParen := by
  refine .peek (q := (· == .rightParen)) (c := false) (nextIs_eq nofun) (fun v _ => ?_) ?_
  · rw [List.append_assoc]
    simpa using hstart (us ++ v)
  · exact ha.bind ((Makes.many has).bind_nil (.pure _)) hk

theorem nextArgument_made {a : Expr} {comma : Token} (hc : comma.kind = .comma)
    (ha : Makes expression d ts a k) :
    Makes (nextArgument expression) d (comma :: ts) (some a) k :=
  .accept_some (by simp [hc]) ha.map

theorem lastArgument_made : Makes (nextArgument expression) d [] none .rightParen :=
  .accept_none (fun v hv => by simp [hv]) (.pure none)

theorem finishCall_made {paren : Token} (has : Makes (arguments expression) d ts as .rightParen)
    (hp : paren.kind = .rightParen) :
    Makes (finishCall expression f) d (ts ++ [paren]) (.call f paren as) k :=
  has.bind (.demand hp (.pure _)) fun _ _ => hp

theorem application_made {opening paren : Token} (ho : opening.kind = .leftParen)
    (has : Makes (arguments expression) d ts as .rightParen) (hp : paren.kind = .rightParen) :
    Makes (suffix expression f) d (opening :: (ts ++ [paren])) (some (.call f paren as)) k := by
  refine .accept_some (by rw [ho]) ?_
  simp only [ho]
  exact (finishCall_made has hp).map

theorem property_made {dot name : Token} (hd : dot.kind = .dot)
    (hname : name.kind ∈ propertyNames) :
    Makes (suffix expression e) d [dot, name] (some (.property e name)) k := by
  refine .accept_some (by rw [hd]) ?_
  simp only [hd]
  exact .accept_some (mem_propertyNames.1 hname) (.pure _)

/-- Before a token that ends operations of some level, a call does not go on. -/
theorem noSuffix_made (hk : k.endsOperation p = true) :
    Makes (suffix expression e) d [] none k := by
  have hk := TokenKind.endsOperation_iff.1 hk
  refine .accept_none (fun v hv => ?_) (.pure none)
  rw [List.nil_append, hv]
  cases k <;> simp_all

theorem operation_made {op : Token} (hop : op.kind.precedence? = some p)
    (hr : Makes operand d ts r k) :
    Makes (operation operand p l) d (op :: ts) (some (.binary l op r)) k :=
  .accept_some (by simp [hop]) hr.map

theorem noOperation_made (hk : k.endsOperation p = true) :
    Makes (operation operand p l) d [] none k := by
  have hk := TokenKind.endsOperation_iff.1 hk
  refine .accept_none (fun v hv => ?_) (.pure none)
  rw [List.nil_append, hv]
  have hne : k.precedence? ≠ some p := fun h => Nat.lt_irrefl p (hk.2.2 p h)
  simpa using hne

theorem unary_made {op : Token} (hop : op.kind = .not ∨ op.kind = .minus)
    (he : Makes operand d ts e k) :
    Makes (unary expression operand) d (op :: ts) (.unary op e) k := by
  refine .accept_some ?_ he.map
  rcases hop with hop | hop <;> rw [hop] <;> rfl

theorem call_made (he : Makes (callLevel expression) d ts e k)
    (hstart : ∀ rest, (nextKind (ts ++ rest)).startsPrimary = true) :
    Makes (unary expression operand) d ts e k := by
  refine .accept_none (fun v _ => ?_) he
  have hstart := hstart v
  revert hstart
  cases nextKind (ts ++ v) <;> simp [TokenKind.startsPrimary, TokenKind.isPrefixOperator]

theorem value_made (h : Makes (binary (unary expression operand)) d ts e k) (hk : k ≠ .equals) :
    Makes (assignment expression operand) d ts e k :=
  h.bind_nil (.accept_none (fun v hv => by simpa [hv] using hk) (.pure e))

theorem assigned_made {t op : Token}
    (hl : Makes (binary (unary expression operand)) d ts (.variable t) .equals)
    (hop : op.kind = .equals) (hr : Makes expression d us r k) :
    Makes (assignment expression operand) d (ts ++ op :: us) (.binary (.variable t) op r) k :=
  hl.bind (.accept_some (by simp [hop]) (hr.bind_nil (.pure _))) fun _ _ => hop

/-- An expression of a level is reached, or made once nothing goes on with it. -/
structure LevelMade (operand : Rule g Expr) (d p : Nat) (ts : List Token) (e : Expr) : Prop where
  reaches : p ≤ 6 → ∀ k, k.endsOperation (p + 1) = true →
    Reaches (level operand p) (operation (level operand (p + 1)) p) d ts e k
  makes : ∀ k, k.endsOperation p = true → Makes (level operand p) d ts e k

theorem LevelMade.of_reaches (h : ∀ k, k.endsOperation (p + 1) = true →
    Reaches (level operand p) (operation (level operand (p + 1)) p) d ts e k) :
    LevelMade operand d p ts e where
  reaches _ := h
  makes k hk := (h k (k.endsOperation_mono hk (Nat.le_succ p))).stop (noOperation_made hk)

/-- What a rule of the grammar allows is made, before what may follow it, by the rule of the parser
that is allowed as many levels as it needs. -/
def Made (g : Setting) (h d : Nat) : (rule : PhraseRule) → List Token → rule.Tree → Prop
  | .expression, ts, e => Expr.need e ≤ h → ∀ k, k.endsExpression = true →
    Makes (assignment (expressionUpTo h) (operandUpTo h) : Rule g Expr) d ts e k
  | .operation p, ts, e => p ≤ 7 ∧
    (Expr.need e ≤ h → LevelMade (unary (expressionUpTo h) (operandUpTo h) : Rule g Expr) d p ts e)
  | .unary, ts, e => Expr.need e ≤ h → ∀ k, k.endsOperation 7 = true →
    Makes (unary (expressionUpTo h) (operandUpTo h) : Rule g Expr) d ts e k
  | .call, ts, e => Expr.need e ≤ h → ∀ k,
    Reaches (callLevel (expressionUpTo h) : Rule g Expr) (suffix (expressionUpTo h)) d ts e k
  | .primary, ts, e => Expr.need e ≤ h → ∀ k,
    Makes (primary (expressionUpTo h) : Rule g Expr) d ts e k
  | .arguments, ts, as => Expr.needOfArguments as ≤ h →
    Makes (arguments (expressionUpTo h) : Rule g (List Expr)) d ts as .rightParen
  | .moreArguments, ts, as => Expr.needOfArguments as ≤ h → ∀ n, ts.length ≤ n →
    Makes (manyUpTo (nextArgument (expressionUpTo h)) n : Rule g (List Expr)) d ts as .rightParen

theorem expressionUpTo_made {h : Nat} (ih : ∀ {h d}, d + h ≤ g.levels → Made g h d .expression ts e)
    (hneed : e.need + 1 ≤ h) (hd : d + h ≤ g.levels) (hk : k.endsExpression = true) :
    Makes (expressionUpTo h : Rule g Expr) d ts e k := by
  obtain ⟨h, rfl⟩ : ∃ m, h = m + 1 := ⟨h - 1, by omega⟩
  rw [expressionUpTo_succ]
  exact .within (by omega) (ih (by omega) (by omega) k hk)

theorem operandUpTo_made {h : Nat} (ih : ∀ {h d}, d + h ≤ g.levels → Made g h d .unary ts e)
    (hneed : e.need + 1 ≤ h) (hd : d + h ≤ g.levels) (hk : k.endsOperation 7 = true) :
    Makes (operandUpTo h : Rule g Expr) d ts e k := by
  obtain ⟨h, rfl⟩ : ∃ m, h = m + 1 := ⟨h - 1, by omega⟩
  rw [operandUpTo_succ]
  exact .within (by omega) (ih (by omega) (by omega) k hk)

end Expressions

/-- Behind an argument is a comma or the end of the arguments. -/
theorem exists_nextKind_moreArguments {as : List Expr} (h : Phrase target .moreArguments ts as) :
    ∃ k : TokenKind, k.endsExpression = true ∧
      ∀ v, nextKind v = .rightParen → nextKind (ts ++ v) = k := by
  cases h with
  | lastArgument => exact ⟨.rightParen, rfl, fun v hv => hv⟩
  | nextArgument hc => exact ⟨.comma, rfl, fun v _ => hc⟩

theorem made_of_phrase {rule : PhraseRule} {x : rule.Tree} (hx : Phrase Expr.IsVariable rule ts x)
    {h : Nat} (hd : d + h ≤ g.levels) : Made g h d rule ts x := by
  -- The induction is on the phrase. Each level entered takes one from `h` and adds one to `d`.
  induction hx generalizing h d with
  | value _ ih =>
    intro hneed k hk
    simp only [TokenKind.endsExpression, Bool.and_eq_true, bne_iff_ne] at hk
    exact value_made (((ih hd).2 hneed).makes k hk.1) hk.2
  | @assignment _ _ _ r op _ htarget hop _ ihl ihr =>
    intro hneed k hk
    obtain ⟨t, rfl⟩ := htarget
    have hneed : r.need + 1 ≤ h := by simpa [Expr.need, hop] using hneed
    have hl : LevelMade (unary (expressionUpTo h) (operandUpTo h) : Rule g Expr) d 1 _ _ :=
      (ihl hd).2 (Nat.zero_le h)
    exact assigned_made (hl.makes .equals rfl) hop (expressionUpTo_made ihr hneed hd hk)
  | @tighter p _ _ _ ih =>
    have hp : p ≤ 6 := Nat.le_of_succ_le_succ (ih hd).1
    refine ⟨by omega, fun hneed => .of_reaches fun k hk => ?_⟩
    rw [level_eq_chain hp]
    exact .start (((ih hd).2 hneed).makes k hk)
  | @operation p _ _ l r op _ hop _ ihl ihr =>
    have hp : p ≤ 6 := Nat.le_of_succ_le_succ (ihr hd).1
    refine ⟨by omega, fun hneed => .of_reaches fun k hk => ?_⟩
    have hop := mem_binaryOperators.1 hop
    have hne : op.kind ≠ .equals := by
      intro h
      rw [h] at hop
      cases hop
    simp only [Expr.need, if_neg hne, Nat.max_le] at hneed
    -- The left operand is no whole operation yet: the loop that reads it goes on at the operator.
    have hl := ((ihl hd).2 hneed.1).reaches hp op.kind (op.kind.endsOperation_of_precedence hop)
    exact hl.step (operation_made hop (((ihr hd).2 hneed.2).makes k hk)) (List.cons_ne_nil _ _)
      fun _ _ => rfl
  | operand _ ih =>
    exact ⟨Nat.le_refl 7, fun hneed => ⟨fun hp => absurd hp (by decide), ih hd hneed⟩⟩
  | unary hop _ ih =>
    intro hneed k hk
    exact unary_made hop (operandUpTo_made ih hneed hd hk)
  | call hx ih =>
    intro hneed k hk
    exact call_made ((ih hd hneed k).stop (noSuffix_made hk)) hx.starts
  | primary _ ih => exact fun hneed k => .start (ih hd hneed k)
  | application _ ho _ hp ihf ihas =>
    intro hneed k
    simp only [Expr.need, Nat.max_le] at hneed
    exact (ihf hd hneed.1 _).step (application_made ho (ihas hd hneed.2) hp) (List.cons_ne_nil _ _)
      fun _ _ => rfl
  | property _ hdot hname ih =>
    intro hneed k
    exact (ih hd hneed _).step (property_made hdot hname) (List.cons_ne_nil _ _) fun _ _ => rfl
  | literal ht => exact fun _ k => literal_made ht
  | name ht => exact fun _ k => name_made ht
  | selection hw ho _ hp ih =>
    intro hneed k
    simp only [Expr.need, Expr.needOfArguments, Nat.max_le] at hneed
    exact selection_made hw ho (expressionUpTo_made ih hneed.2.1 hd rfl) hp
  | grouping ho _ hc ih =>
    intro hneed k
    exact grouping_made ho (expressionUpTo_made ih hneed hd rfl) hc
  | noArguments => exact fun _ => noArguments_made
  | arguments ha has iha ihas =>
    intro hneed
    simp only [Expr.needOfArguments, Nat.max_le] at hneed
    obtain ⟨k, hk, hnext⟩ := exists_nextKind_moreArguments has
    refine arguments_made (expressionUpTo_made iha hneed.1 hd hk) (ihas hd hneed.2) ?_ hnext
    -- No argument begins with the parenthesis that would end an empty list of them.
    intro rest h
    have hstart := ha.starts rest
    rw [h] at hstart
    cases hstart
  | lastArgument => exact fun _ n _ => .manyUpTo_stop lastArgument_made
  | nextArgument hc _ has iha ihas =>
    intro hneed n hn
    simp only [Expr.needOfArguments, Nat.max_le] at hneed
    obtain ⟨k, hk, hnext⟩ := exists_nextKind_moreArguments has
    have ha := nextArgument_made hc (expressionUpTo_made iha hneed.1 hd hk)
    exact ha.manyUpTo_next (List.cons_ne_nil _ _) (ihas hd hneed.2) hnext hn

end Rule

end ScrapeScript
