import ScrapeScript.Proofs.Grammar.Spelling
import ScrapeScript.Proofs.Parser.Programs

namespace ScrapeScript

namespace SyntaxFault

theorem code_eq_tooDeep_iff (f : SyntaxFault) :
    f.error.diagnostic.code = some "P013" ↔ f.IsTooDeep := by
  obtain ⟨cause, t⟩ := f
  cases cause <;> simp [error, IsTooDeep, SyntaxError.unexpected, SyntaxError.notExpression,
    SyntaxError.notAssignable, SyntaxError.tooDeep, SyntaxError.atToken, SyntaxError.make]

theorem cause_of_code {f : SyntaxFault} (h : f.error.diagnostic.code = some "P006") :
    f.cause = .assignmentTarget := by
  obtain ⟨cause, t⟩ := f
  cases cause <;> simp_all [error, SyntaxError.unexpected, SyntaxError.notExpression,
    SyntaxError.notAssignable, SyntaxError.tooDeep, SyntaxError.atToken, SyntaxError.make]

end SyntaxFault

/-- What comes after an end of file has no part in the sentence. -/
theorem sentence_append_of_nextKind {us : List Token} (h : nextKind us = .endOfFile)
    (ts : List Token) : sentence (ts ++ us) = sentence ts := by
  induction ts with
  | nil => exact sentence_eq_nil h
  | cons t ts ih =>
    unfold sentence at ih ⊢
    rw [List.cons_append, List.takeWhile_cons, List.takeWhile_cons, ih]

theorem sentence_program {g : Grammar} {words : List Token} {ss : List Stmt}
    (h : g.Program words ss) : sentence words = words :=
  sentence_eq_self fun t ht => (h.kinds t ht).1

theorem dropTrivia_program {g : Grammar} {words : List Token} {ss : List Stmt} {last : Token}
    (h : g.Program words ss) (hlast : last.kind = .endOfFile) :
    dropTrivia (words ++ [last]) = words ++ [last] := by
  refine List.filter_eq_self.2 fun t ht => ?_
  rcases List.mem_append.1 ht with ht | ht
  · simp [Token.isTrivia, (h.kinds t ht).2]
  · obtain rfl := List.mem_singleton.1 ht
    simp [Token.isTrivia, hlast, TokenKind.isTrivia]

namespace TokenStream

/-- The tokens that are no trivia, save perhaps an end of file. -/
theorem exists_append_ahead (file : String) (ts : List Token) :
    ∃ us, dropTrivia ts = (ofTokens file ts).ahead ++ us ∧ nextKind us = .endOfFile := by
  unfold ofTokens
  dsimp only
  split
  · rename_i h
    exact ⟨[], by simpa using h, rfl⟩
  · rename_i last h
    split
    · rename_i hlast
      refine ⟨[last], (List.dropLast_append_getLast? last ?_).symm, hlast⟩
      exact h
    · exact ⟨[], (List.append_nil _).symm, rfl⟩

theorem sentence_ahead (file : String) (ts : List Token) :
    sentence (ofTokens file ts).ahead = sentence (dropTrivia ts) := by
  obtain ⟨us, hts, hus⟩ := exists_append_ahead file ts
  rw [hts, sentence_append_of_nextKind hus]

theorem ofTokens_eq (file : String) {ts words : List Token} {last : Token}
    (hts : dropTrivia ts = words ++ [last]) (hlast : last.kind = .endOfFile) :
    ofTokens file ts = ⟨words, last, hlast⟩ := by
  simp [ofTokens, hts, hlast]

variable {limit : Int} {f : SyntaxFault}

theorem faults_parse (stream : TokenStream) (limit : Int) : (stream.parse limit).faults =
    Rule.faultsOf (Rule.program (State.start ⟨limit, stream.final⟩ stream.ahead)) := by
  unfold parse
  split <;> rename_i h <;> rw [h] <;> rfl

/-- A first fault is the first that the rule for programs finds. -/
theorem head?_faults_parse_iff (stream : TokenStream) :
    (stream.parse limit).faults.head? = some f ↔
      Rule.FirstFault Rule.program (State.start ⟨limit, stream.final⟩ stream.ahead) f := by
  rw [faults_parse, List.head?_eq_some_iff]
  constructor
  · rintro ⟨fs, hfs⟩
    exact ⟨fs, hfs.symm⟩
  · rintro ⟨fs, hfs⟩
    exact ⟨fs, hfs.symm⟩

/-- Without faults all before an end of file is a program, and it is returned. -/
theorem parse_clean (stream : TokenStream) (h : (stream.parse limit).faults = []) :
    stream.ahead = sentence stream.ahead ++ (stream.parse limit).ahead ∧
      Grammar.nearest.Program (sentence stream.ahead) (stream.parse limit).statements := by
  rw [faults_parse] at h
  obtain ⟨ss, t, hrun, hfaults⟩ := Rule.program_keeps.exists_ok (not_not_intro h)
  have hclean := Rule.program_clean hrun hfaults rfl
  unfold parse
  rw [hrun]
  exact hclean

theorem firstFault_parse (stream : TokenStream)
    (hf : (stream.parse limit).faults.head? = some f)
    (hdeep : ¬f.IsTooDeep) :
    ∃ e, stream.toList[e]? = some f.token ∧
      (∀ t ∈ stream.toList.take e, t.kind ≠ .endOfFile) ∧
      (∃ us ss, Grammar.loose.Program (stream.toList.take e ++ us) ss) ∧
      (f.token.kind ≠ .endOfFile → ∀ us ss,
        ¬Grammar.written.Program (stream.toList.take (e + 1) ++ us) ss) ∧
      (f.token.kind = .endOfFile → ∀ ss, ¬Grammar.written.Program (stream.toList.take e) ss) ∧
      (f.cause = .assignmentTarget → f.token.kind = .equals) := by
  obtain ⟨us, rest, hafter, ⟨vs, ss, hloose⟩, hnone⟩ :=
    Rule.program_fault (stream.head?_faults_parse_iff.1 hf) hdeep rfl
  have hahead : stream.ahead = us ++ rest := hafter.ahead
  have hkind : nextKind rest = f.token.kind := by
    rw [hafter.token]
    cases rest with
    | nil => exact stream.final_kind.symm
    | cons t rest => rfl
  -- The token of the fault is the next one, or the end of file behind all of them.
  have hlist : ∃ tail, stream.toList = us ++ f.token :: tail := by
    rw [hafter.token, toList, hahead, List.append_assoc]
    cases rest with
    | nil => exact ⟨[], rfl⟩
    | cons t rest => exact ⟨rest ++ [stream.final], rfl⟩
  obtain ⟨tail, hlist⟩ := hlist
  have htake : stream.toList.take us.length = us := by rw [hlist, List.take_left]
  have htake' : stream.toList.take (us.length + 1) = us ++ [f.token] := by
    rw [hlist, List.take_length_add_append, List.take_succ_cons, List.take_zero]
  refine ⟨us.length, by simp [hlist], ?_, ?_, ?_, ?_, hafter.equals⟩
  · rw [htake]
    exact fun t ht => (hloose.kinds t (List.mem_append_left vs ht)).1
  · rw [htake]
    exact ⟨vs, ss, hloose⟩
  · intro _ vs ss
    rw [htake', List.append_assoc]
    exact hnone _ ss hkind.symm
  · intro hend ss
    rw [htake, ← List.append_nil us]
    exact hnone [] ss (hkind.trans hend).symm

end TokenStream

namespace Parser

/-- A run without faults returns the one tree that the tokens up to an end of file stand for, and
stops at that end. -/
theorem program_of_run (ts : List Token) (options : ParseOptions)
    (h : (ofTokens ts options).run.2.faults = []) :
    Grammar.nearest.Program (sentence (dropTrivia ts)) (ofTokens ts options).run.1 ∧
      (∀ ss, Grammar.nearest.Program (sentence (dropTrivia ts)) ss →
        ss = (ofTokens ts options).run.1) ∧
      (ofTokens ts options).run.2.current = (sentence (dropTrivia ts)).length := by
  have hclean := (TokenStream.ofTokens options.file ts).parse_clean h
  have hlength := congrArg List.length hclean.1
  rw [List.length_append] at hlength
  rw [← TokenStream.sentence_ahead options.file ts]
  refine ⟨hclean.2, fun ss hss => Rule.program_unique hss hclean.2, ?_⟩
  exact Nat.sub_eq_of_eq_add hlength

/-- A condition in a condition, and one alternative. What is tested first is a sum of something and
a product. -/
def danglingAlternative : List Token :=
  [.ifWord, .leftParen, .identifier, .plus, .identifier, .multiply, .identifier, .rightParen,
    .whitespace, .ifWord, .leftParen, .identifier, .rightParen, .identifier, .semicolon, .elseWord,
    .identifier, .semicolon].map Token.ofKind

theorem program_danglingAlternative :
    let name := Expr.variable (.ofKind .identifier)
    let sum := Expr.binary name (.ofKind .plus) (.binary name (.ofKind .multiply) name)
    let tree := Stmt.ifThen sum (.ifElse name (.expression name) (.expression name))
    Grammar.nearest.Program (sentence (dropTrivia danglingAlternative)) [tree] ∧
      (ofTokens danglingAlternative {}).run.1 = [tree] := by
  intro name sum tree
  have hname : name.WellFormed := .variable rfl
  have hsum : sum.WellFormed :=
    .operation (p := 5) (by decide) hname (by decide)
      (.operation (p := 6) (by decide) hname (by decide) hname (by decide)) (by decide)
  have hbranch : (Stmt.expression name).WellFormed := .expression hname
  have htree : tree.WellFormed :=
    .ifThen hsum (.ifElse hname hbranch (by simp [Stmt.IsDeclaration]) id hbranch
      (by simp [Stmt.IsDeclaration])) (by simp [Stmt.IsDeclaration])
  have hsentence : sentence (dropTrivia danglingAlternative) =
      [.ifWord, .leftParen, .identifier, .plus, .identifier, .multiply, .identifier, .rightParen,
        .ifWord, .leftParen, .identifier, .rightParen, .identifier, .semicolon, .elseWord,
        .identifier, .semicolon].map Token.ofKind := by decide +kernel
  have hwords : Fills (Stmt.slotsOfAll [tree]) (sentence (dropTrivia danglingAlternative)) := by
    rw [hsentence]
    simp [tree, sum, name, Stmt.slotsOfAll, Stmt.slots, Expr.slots, Slot.Admits, Token.ofKind]
  have hprogram := program_of_wellFormed (by simpa using htree) hwords
  have hfaults : (ofTokens danglingAlternative {}).run.2.faults = [] := by decide +kernel
  exact ⟨hprogram, ((program_of_run danglingAlternative {} hfaults).2.1 _ hprogram).symm⟩

/-- Tokens that well-formed statements are written with are parsed back into these statements if
there are as many levels as they need. If not, that is the first fault. -/
theorem run_of_fills {ss : List Stmt} {words : List Token} {last : Token} (ts : List Token)
    (options : ParseOptions) (hss : ∀ s ∈ ss, s.WellFormed)
    (hwords : Fills (Stmt.slotsOfAll ss) words) (hlast : last.kind = .endOfFile)
    (hts : dropTrivia ts = dropTrivia (words ++ [last])) :
    ((Stmt.needOfAll ss : Int) ≤ max options.limit 0 →
        (ofTokens ts options).run.1 = ss ∧ (ofTokens ts options).run.2.faults = [] ∧
          (ofTokens ts options).stream.toList = words ++ [last] ∧
            (ofTokens ts options).run.2.current = words.length) ∧
      (max options.limit 0 < (Stmt.needOfAll ss : Int) →
        ∃ f, (ofTokens ts options).run.2.faults.head? = some f ∧
          f.error.diagnostic.code = some "P013") := by
  have hprogram := program_of_wellFormed hss hwords
  -- No slot takes trivia, so what is left after dropping them are the words themselves.
  rw [dropTrivia_program hprogram hlast] at hts
  let stream : TokenStream := ⟨words, last, hlast⟩
  have hparser : ofTokens ts options = ⟨options.limit, stream, words, []⟩ := by
    unfold ofTokens
    rw [TokenStream.ofTokens_eq options.file hts hlast]
  have hlevels : Setting.levels ⟨options.limit, last⟩ = options.limit.toNat := rfl
  rw [hparser]
  constructor
  · intro hneed
    have hlevels : Stmt.needOfAll ss ≤ Setting.levels ⟨options.limit, last⟩ := by
      rw [hlevels]
      omega
    have hparse : stream.parse options.limit = ⟨ss, [], []⟩ := by
      unfold TokenStream.parse
      rw [Rule.program_start hprogram hlevels]
      rfl
    refine ⟨congrArg Parsed.statements hparse, congrArg Parsed.faults hparse, rfl, ?_⟩
    exact congrArg (fun parsed => words.length - parsed.ahead.length) hparse
  · intro hneed
    have hlevels : Setting.levels ⟨options.limit, last⟩ < Stmt.needOfAll ss := by
      rw [hlevels]
      omega
    rw [← sentence_program hprogram] at hprogram
    obtain ⟨f, hf, hdeep⟩ := Rule.program_tooDeep
      (s := State.start ⟨options.limit, last⟩ words) hprogram hlevels rfl
    exact ⟨f, stream.head?_faults_parse_iff.2 hf, f.code_eq_tooDeep_iff.2 hdeep⟩

/-- One and the product of two and three, of which the three is in parentheses. They need a level,
and so do what is printed and the statement. -/
def printedSum : List Token :=
  let number (bits : UInt64) : Token := { Token.ofKind .number with value := .number ⟨bits⟩ }
  [.ofKind .print, .ofKind .leftParen, number 0x3ff0000000000000, .ofKind .plus,
    number 0x4000000000000000, .ofKind .multiply, .ofKind .leftParen, number 0x4008000000000000,
    .ofKind .rightParen, .ofKind .rightParen, .ofKind .semicolon]

theorem run_printedSum :
    let last := Token.ofKind .endOfFile
    let literal (bits : UInt64) : Expr := .literal (.number ⟨bits⟩)
    let product := Expr.binary (literal 0x4000000000000000) (.ofKind .multiply)
      (.grouping (literal 0x4008000000000000))
    let tree := Stmt.print (.binary (literal 0x3ff0000000000000) (.ofKind .plus) product)
    (ofTokens (printedSum ++ [last]) ⟨3, ""⟩).run.1 = [tree] ∧
      ∃ f, (ofTokens (printedSum ++ [last]) ⟨2, ""⟩).run.2.faults.head? = some f ∧
        f.error.diagnostic.code = some "P013" := by
  intro last literal product tree
  have hproduct : product.WellFormed :=
    .operation (p := 6) (by decide) (.literal _) (by decide) (.grouping (.literal _)) (by decide)
  have htree : ∀ s ∈ [tree], s.WellFormed := by
    simpa using .print
      (.operation (p := 5) (by decide) (.literal _) (by decide) hproduct (by decide))
  have hwords : Fills (Stmt.slotsOfAll [tree]) printedSum :=
    have hnumber (bits : UInt64) : (Slot.literal (.number ⟨bits⟩)).Admits
        { Token.ofKind .number with value := .number ⟨bits⟩ } := ⟨.inr (.inl rfl), rfl⟩
    .cons rfl <| .cons rfl <| .cons (hnumber _) <| .cons rfl <| .cons (hnumber _) <| .cons rfl <|
      .cons rfl <| .cons (hnumber _) <| .cons rfl <| .cons rfl <| .cons rfl .nil
  have hneed : Stmt.needOfAll [tree] = 3 := rfl
  have hthree := run_of_fills (printedSum ++ [last]) ⟨3, ""⟩ htree hwords rfl rfl
  have htwo := run_of_fills (printedSum ++ [last]) ⟨2, ""⟩ htree hwords rfl rfl
  rw [hneed] at hthree htwo
  exact ⟨(hthree.1 (by decide)).1, htwo.2 (by decide)⟩

/-- The tokens before the first one that is refused begin a program, at least of the grammar in
which a value may go to anything. With that token they begin none of the grammar as it is written;
where it is an end of file, they are none. -/
theorem firstFault_of_run (ts : List Token) (options : ParseOptions) (f : SyntaxFault)
    (hf : (ofTokens ts options).run.2.faults.head? = some f)
    (hdeep : f.error.diagnostic.code ≠ some "P013") :
    ∃ e, (ofTokens ts options).stream.toList[e]? = some f.token ∧
      (∀ t ∈ (ofTokens ts options).stream.toList.take e, t.kind ≠ .endOfFile) ∧
      (∃ us ss, Grammar.loose.Program ((ofTokens ts options).stream.toList.take e ++ us) ss) ∧
      (f.token.kind ≠ .endOfFile → ∀ us ss,
        ¬Grammar.written.Program ((ofTokens ts options).stream.toList.take (e + 1) ++ us) ss) ∧
      (f.token.kind = .endOfFile → ∀ ss,
        ¬Grammar.written.Program ((ofTokens ts options).stream.toList.take e) ss) ∧
      (f.error.diagnostic.code = some "P006" → f.token.kind = .equals) := by
  have hdeep : ¬f.IsTooDeep := fun h => hdeep (f.code_eq_tooDeep_iff.2 h)
  obtain ⟨e, htoken, hbefore, hbegins, hwrong, hend, hequals⟩ :=
    (ofTokens ts options).stream.firstFault_parse hf hdeep
  exact ⟨e, htoken, hbefore, hbegins, hwrong, hend, fun h => hequals (f.cause_of_code h)⟩

/-- A value that is assigned to a number. -/
def assignedNumber : List Token :=
  [.number, .equals, .identifier, .semicolon, .endOfFile].map Token.ofKind

theorem firstFault_assignedNumber :
    ∃ e, (ofTokens assignedNumber {}).stream.toList[e]? = some (.ofKind .equals) ∧
      ∃ us ss,
        Grammar.loose.Program ((ofTokens assignedNumber {}).stream.toList.take e ++ us) ss := by
  have hf : (ofTokens assignedNumber {}).run.2.faults.head? =
      some ⟨.assignmentTarget, .ofKind .equals⟩ := by decide +kernel
  obtain ⟨e, htoken, -, hbegins, -⟩ := firstFault_of_run assignedNumber {} _ hf (by decide)
  exact ⟨e, htoken, hbegins⟩

end Parser

end ScrapeScript
