import ScrapeScript.Proofs.Grammar.Phrase
import ScrapeScript.Proofs.Parser.ReadsLoops

namespace ScrapeScript

theorem TokenKind.startsPrimary_cases {k : TokenKind} (h : k.startsPrimary = true) :
    k = .identifier ∨ k = .leftParen ∨ k = .select ∨ k = .boolean ∨ k = .number ∨ k = .string := by
  cases k <;> simp_all [startsPrimary]

namespace Rule

variable {g : Setting} {ι : Type} {g' : ι → Setting} {target : Expr → Prop}
  {expression operand : Rule g Expr} {expression' operand' : ∀ i, Rule (g' i) Expr}

/-- A rule reads the phrases of a rule of the grammar. Where any value may be assigned to, what is
read before a fault can be completed. -/
abbrev ReadsPhrases (target : Expr → Prop) (rule : PhraseRule) (r : Rule g rule.Tree)
    (r' : ∀ i, Rule (g' i) rule.Tree) : Prop :=
  Reads (∀ e, target e) r r' (Phrase target rule)

theorem primary_reads (he : ReadsPhrases target .expression expression expression') :
    ReadsPhrases target .primary (primary expression) (fun i => primary (expression' i)) := by
  refine .mono (.expect (m := fun t us e => Phrase target .primary (t :: us) e)
    (c := .expression) rfl nofun .number rfl rfl (fun _ => rfl) fun t ht => ?_) ?_
  · obtain hk | hk | hk | hk := TokenKind.startsPrimary_cases ht
    · simp only [hk]
      refine .mono (.pure _) ?_
      rintro _ _ ⟨rfl, rfl⟩
      exact .name hk
    · simp only [hk]
      refine .mono (he.bind fun e => .bind (.demand _) fun _ => .pure _) ?_
      rintro _ _ ⟨us, _, e, rfl, he, _, _, closing, rfl, ⟨rfl, hc⟩, rfl, rfl⟩
      exact .grouping hk he hc
    · simp only [hk]
      refine .mono (.bind (.demand _) fun _ => he.bind fun e => .bind (.demand _) fun _ =>
        .pure _) ?_
      rintro _ _ ⟨_, _, opening, rfl, ⟨rfl, ho⟩, us, _, e, rfl, he, _, _, paren, rfl, ⟨rfl, hp⟩,
        rfl, rfl⟩
      exact .selection hk ho he hp
    · have hread : Reads (∀ e, target e) (Pure.pure (.literal t.value) : Rule g Expr)
          (fun i => (Pure.pure (.literal t.value) : Rule (g' i) Expr))
          (fun us e => Phrase target .primary (t :: us) e) := by
        refine .mono (.pure _) ?_
        rintro _ _ ⟨rfl, rfl⟩
        exact .literal hk
      rcases hk with hk | hk | hk <;> simp only [hk] <;> exact hread
  · rintro _ e ⟨t, us, rfl, -, he⟩
    exact he

/-- What one more argument of a call is written with, or nothing. -/
def MoreArgument (target : Expr → Prop) : Language (Option Expr) :=
  .optional (· == .comma) fun _ => Phrase target .expression

theorem nextArgument_reads (he : ReadsPhrases target .expression expression expression') :
    Reads (∀ e, target e) (nextArgument expression) (fun i => nextArgument (expression' i))
      (MoreArgument target) :=
  .branch rfl (.pure none) fun _ _ => he.map fun _ a ha => ⟨a, rfl, ha⟩

theorem moreArguments_of_many {ts : List Token} {as : List Expr}
    (h : Language.Many (MoreArgument target) ts as) : Phrase target .moreArguments ts as := by
  induction h with
  | stop h =>
    obtain rfl := Language.optional_none_iff.1 h
    exact .lastArgument
  | next h _ ih =>
    obtain ⟨comma, us, rfl, hcomma, ha⟩ := Language.optional_some_iff.1 h
    exact .nextArgument (by simpa using hcomma) ha ih

theorem arguments_reads (he : ReadsPhrases target .expression expression expression') :
    ReadsPhrases target .arguments (arguments expression) (fun i => arguments (expression' i)) := by
  have hmany : Reads (∀ e, target e) (many (nextArgument expression))
      (fun i => many (nextArgument (expression' i))) (Phrase target .moreArguments) :=
    .mono (.many (nextArgument_reads he) Language.optional_nil
      (fun _ => Language.not_optional_nil_some) (fun _ => idle_accept_bind rfl rfl))
      fun _ _ => moreArguments_of_many
  refine .mono (.peek (q := (· == .rightParen)) (m := fun _ => Phrase target .arguments)
    (nextIs_eq nofun) (fun _ => nextIs_eq nofun) fun b => ?_) fun ts as ⟨_, h⟩ => h
  cases b with
  | true =>
    refine .mono (.pure []) ?_
    rintro _ _ ⟨rfl, rfl⟩
    exact .noArguments
  | false =>
    refine .mono (he.bind fun a => hmany.bind fun as => .pure _) ?_
    rintro _ _ ⟨us, _, a, rfl, ha, vs, _, as, rfl, has, rfl, rfl⟩
    rw [List.append_nil]
    exact .arguments ha has

theorem finishCall_reads (he : ReadsPhrases target .expression expression expression')
    (subject : Expr) :
    Reads (∀ e, target e) (finishCall expression subject)
      (fun i => finishCall (expression' i) subject) fun ts e => ∀ us opening,
        Phrase target .call us subject → opening.kind = .leftParen →
        Phrase target .call (us ++ opening :: ts) e := by
  refine .mono ((arguments_reads he).bind fun as => .bind (.demand _) fun _ => .pure _) ?_
  rintro _ _ ⟨us, _, as, rfl, has, _, _, paren, rfl, ⟨rfl, hp⟩, rfl, rfl⟩
  exact fun vs opening hs ho => .application hs ho has hp

/-- What makes a call or a property of a subject, or nothing. -/
def Suffix (target : Expr → Prop) (subject : Expr) : Language (Option Expr) :=
  .optional (fun k => k matches .leftParen | .dot) fun t ts e =>
    ∀ us, Phrase target .call us subject → Phrase target .call (us ++ t :: ts) e

theorem suffix_reads (he : ReadsPhrases target .expression expression expression')
    (subject : Expr) :
    Reads (∀ e, target e) (suffix expression subject) (fun i => suffix (expression' i) subject)
      (Suffix target subject) := by
  refine .branch rfl (.pure none) fun t ht => ?_
  obtain hk | hk : t.kind = .leftParen ∨ t.kind = .dot := by
    revert ht
    cases t.kind <;> simp
  · simp only [hk]
    exact (finishCall_reads he subject).map fun _ e he => ⟨e, rfl, fun us hs => he us t hs hk⟩
  · simp only [hk]
    refine .mono (.expect (c := .propertyName) rfl nofun .identifier rfl rfl (fun _ => rfl)
      fun name _ => .pure _) ?_
    rintro _ _ ⟨name, _, rfl, hname, rfl, rfl⟩
    exact ⟨_, rfl, fun vs hs => .property hs hk (mem_propertyNames.2 hname)⟩

theorem call_of_star {us ts : List Token} {subject e : Expr}
    (h : Language.Star (Suffix target) subject ts e) (hs : Phrase target .call us subject) :
    Phrase target .call (us ++ ts) e := by
  induction h generalizing us with
  | stop h =>
    obtain rfl := Language.optional_none_iff.1 h
    rwa [List.append_nil]
  | step h _ ih =>
    obtain ⟨t, vs, rfl, -, he⟩ := Language.optional_some_iff.1 h
    rw [← List.append_assoc]
    exact ih (he us hs)

theorem callLevel_reads (he : ReadsPhrases target .expression expression expression') :
    ReadsPhrases target .call (callLevel expression) (fun i => callLevel (expression' i)) := by
  refine .mono ((primary_reads he).bind fun subject => .iterate (suffix_reads he)
    (fun _ => Language.optional_nil) (fun _ _ => Language.not_optional_nil_some)
    (fun _ _ => idle_accept_bind rfl rfl) subject) ?_
  rintro _ e ⟨us, vs, subject, rfl, hs, hstar⟩
  exact call_of_star hstar (.primary hs)

theorem unary_reads (he : ReadsPhrases target .expression expression expression')
    (ho : ReadsPhrases target .unary operand operand') :
    ReadsPhrases target .unary (unary expression operand)
      (fun i => unary (expression' i) (operand' i)) := by
  refine .mono (.branch rfl (callLevel_reads he) fun op _ =>
    ho.map (m := fun us e => ∃ a, Phrase target .unary us a ∧ e = Expr.unary op a)
      fun us a ha => ⟨a, ha, rfl⟩) ?_
  rintro _ e (h | ⟨op, us, rfl, hop, a, ha, rfl⟩)
  · exact .call h
  · refine .unary ?_ ha
    revert hop
    cases op.kind <;> simp [TokenKind.isPrefixOperator]

/-- An operator of one precedence and its right operand, or nothing. -/
def Operation (target : Expr → Prop) (p : Nat) (left : Expr) : Language (Option Expr) :=
  .optional (·.precedence? == some p) fun op ts e =>
    ∃ right, e = .binary left op right ∧ Phrase target (.operation (p + 1)) ts right

theorem operation_of_star {p : Nat} {us ts : List Token} {left e : Expr}
    (h : Language.Star (Operation target p) left ts e)
    (hl : Phrase target (.operation p) us left) : Phrase target (.operation p) (us ++ ts) e := by
  induction h generalizing us with
  | stop h =>
    obtain rfl := Language.optional_none_iff.1 h
    rwa [List.append_nil]
  | step h _ ih =>
    obtain ⟨op, vs, rfl, hop, right, rfl, hr⟩ := Language.optional_some_iff.1 h
    rw [← List.append_assoc]
    exact ih (.operation hl (mem_binaryOperators.2 (by simpa using hop)) hr)

theorem chain_reads {p : Nat} (ho : ReadsPhrases target (.operation (p + 1)) operand operand') :
    ReadsPhrases target (.operation p) (chain p operand) (fun i => chain p (operand' i)) := by
  have hp : (TokenKind.endOfFile.precedence? == some p) = false := rfl
  -- Each step makes the operation so far the left operand of another one.
  have hstep (left : Expr) : Reads (∀ e, target e) (operation operand p left)
      (fun i => operation (operand' i) p left) (Operation target p left) :=
    .branch hp (.pure none) fun op _ => ho.map fun _ right hr => ⟨_, rfl, right, rfl, hr⟩
  refine .mono (ho.bind fun left => .iterate hstep (fun _ => Language.optional_nil)
    (fun _ _ => Language.not_optional_nil_some) (fun _ _ => idle_accept_bind hp rfl) left) ?_
  rintro _ e ⟨us, vs, left, rfl, hl, hstar⟩
  exact operation_of_star hstar (.tighter hl)

theorem binary_reads (ho : ReadsPhrases target .unary operand operand') :
    ReadsPhrases target (.operation 1) (binary operand) (fun i => binary (operand' i)) := by
  have ho : ReadsPhrases target (.operation 7) operand operand' := ho.mono fun _ _ => .operand
  exact chain_reads <| chain_reads <| chain_reads <| chain_reads <| chain_reads <| chain_reads ho

/-- An expression as it is, or a sign of assignment behind it and a value. -/
def Assigned (target : Expr → Prop) (left : Expr) : Language Expr :=
  .or (fun ts e => ts = [] ∧ e = left) (.after (· == .equals) fun op ts e =>
    target left ∧ ∃ value, Phrase target .expression ts value ∧ e = .binary left op value)

theorem assignment_reads (hvariable : ∀ t, target (.variable t))
    (he : ReadsPhrases target .expression expression expression')
    (ho : ReadsPhrases target .unary operand operand') :
    ReadsPhrases target .expression (assignment expression operand)
      (fun i => assignment (expression' i) (operand' i)) := by
  have hrefused {left : Expr} {ts : List Token} {e : Expr}
      (h : Language.or (fun ts e => ts = [] ∧ e = left) (.after (· == .equals) fun op us e =>
        (∀ e, target e) ∧ ∃ value, Phrase target .expression us value ∧ e = .binary left op value)
        ts e) : Assigned target left ts e := by
    obtain h | ⟨op, us, rfl, hop, hloose, h⟩ := h
    · exact .inl h
    · exact .inr ⟨op, us, rfl, hop, hloose left, h⟩
  refine .mono ((binary_reads (unary_reads he ho)).bind (m := Assigned target) fun left => ?_) ?_
  · -- Behind a variable both sides of the branch are right, behind all else one of them is not.
    cases left with
    | «variable» t =>
      refine .mono (.branch rfl (.pure _) fun op _ => he.bind fun value => .pure _) ?_
      rintro ts e (h | ⟨op, us, rfl, hop, _, _, value, rfl, h, rfl, rfl⟩)
      · exact .inl h
      · rw [List.append_nil]
        exact .inr ⟨op, _, rfl, hop, hvariable t, value, h, rfl⟩
    | _ =>
      refine .mono (.refuse he ?_ (fun _ => rfl) (fun _ _ => rfl) fun op => Expr.binary _ op)
        fun _ _ => hrefused
      exact .pure _
  · rintro _ e ⟨us, _, left, rfl, hl, ⟨rfl, rfl⟩ | ⟨op, vs, rfl, hop, htarget, value, hv, rfl⟩⟩
    · rw [List.append_nil]
      exact .value hl
    · exact .assignment hl htarget (by simpa using hop) hv

/-- Without a level left no fault is found but that of nesting. -/
theorem tooDeep_reads {α : Type} {loose : Prop} {r : Rule g α} {r' : ∀ i, Rule (g' i) α}
    {l : Language α} (hr : ∀ s, r s = fail (.tooDeep g.limit) s) (hkeeps : ∀ i, Keeps (r' i))
    (hl : l.Begins []) : Reads loose r r' l where
  possible := hl
  keeps s := by
    rw [hr]
    exact Keeps.fail _ s
  keeps' := hkeeps
  clean {s t a} h := by
    rw [hr] at h
    cases h
  fault {s f} h hdeep := by
    unfold FirstFault at h
    rw [hr] at h
    obtain rfl := firstFault_fail_iff.1 h
    exact absurd ⟨g.limit, rfl⟩ hdeep

theorem expressionUpTo_succ (n : Nat) : (expressionUpTo (n + 1) : Rule g Expr) =
    within (assignment (expressionUpTo n) (operandUpTo n)) := by
  funext s
  rw [expressionUpTo]

theorem operandUpTo_succ (n : Nat) : (operandUpTo (n + 1) : Rule g Expr) =
    within (unary (expressionUpTo n) (operandUpTo n)) := by
  funext s
  rw [operandUpTo]

/-- The phrases are read in any number of levels, and by the rules that may nest deeper. -/
theorem upTo_reads_of_keeps (hvariable : ∀ t, target (.variable t))
    (hlevels : ∀ i, g.levels ≤ (g' i).levels)
    (hkeeps : ∀ i n, Keeps (expressionUpTo n : Rule (g' i) Expr) ∧
      Keeps (operandUpTo n : Rule (g' i) Expr)) {n : Nat} {n' : ι → Nat} (hn : ∀ i, n ≤ n' i) :
    ReadsPhrases target .expression (expressionUpTo n : Rule g Expr)
        (fun i => (expressionUpTo (n' i) : Rule (g' i) Expr)) ∧
      ReadsPhrases target .unary (operandUpTo n : Rule g Expr)
        (fun i => (operandUpTo (n' i) : Rule (g' i) Expr)) := by
  induction n generalizing n' with
  | zero =>
    -- Nothing is read without a level, but a number is a phrase that might have been.
    have ht : Phrase target .unary [Token.ofKind .number] (.literal .null) :=
      .call (.primary (.literal (.inr (.inl rfl))))
    have ht' : Phrase target .expression [Token.ofKind .number] (.literal .null) :=
      .value <| .tighter <| .tighter <| .tighter <| .tighter <| .tighter <| .tighter <| .operand ht
    exact ⟨tooDeep_reads (fun s => by rw [expressionUpTo]) (fun i => (hkeeps i _).1) ⟨_, _, ht'⟩,
      tooDeep_reads (fun s => by rw [operandUpTo]) (fun i => (hkeeps i _).2) ⟨_, _, ht⟩⟩
  | succ n ih =>
    obtain ⟨m, rfl⟩ : ∃ m : ι → Nat, n' = fun i => m i + 1 :=
      ⟨fun i => n' i - 1, funext fun i => (Nat.sub_add_cancel (Nat.one_le_of_lt (hn i))).symm⟩
    obtain ⟨he, ho⟩ := ih fun i => Nat.le_of_succ_le_succ (hn i)
    simp only [expressionUpTo_succ, operandUpTo_succ]
    exact ⟨(assignment_reads hvariable he ho).within hlevels, (unary_reads he ho).within hlevels⟩

theorem upTo_keeps (n : Nat) :
    Keeps (expressionUpTo n : Rule g Expr) ∧ Keeps (operandUpTo n : Rule g Expr) := by
  -- The rule is read along with no other rule, about which there is nothing to show.
  have hreads := @upTo_reads_of_keeps g Empty nofun (fun _ => True) (fun _ => trivial) nofun nofun n
    nofun nofun
  exact ⟨hreads.1.keeps, hreads.2.keeps⟩

theorem upTo_reads (hvariable : ∀ t, target (.variable t))
    (hlevels : ∀ i, g.levels ≤ (g' i).levels) {n : Nat} {n' : ι → Nat} (hn : ∀ i, n ≤ n' i) :
    ReadsPhrases target .expression (expressionUpTo n : Rule g Expr)
        (fun i => (expressionUpTo (n' i) : Rule (g' i) Expr)) ∧
      ReadsPhrases target .unary (operandUpTo n : Rule g Expr)
        (fun i => (operandUpTo (n' i) : Rule (g' i) Expr)) :=
  upTo_reads_of_keeps hvariable hlevels (fun _ => upTo_keeps) hn

end Rule

end ScrapeScript
