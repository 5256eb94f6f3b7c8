import ScrapeScript.Proofs.Parser.Returns
import ScrapeScript.Proofs.Tree.WellFormed

namespace ScrapeScript

/-- A well-formed expression that binds as tightly as a level and nests less than a bound. -/
structure Expr.Fits (level bound : Nat) (e : Expr) : Prop where
  wellFormed : e.WellFormed
  level_le : level ≤ e.level
  need_lt : e.need < bound

theorem Expr.Fits.mono {p q n : Nat} {e : Expr} (h : e.Fits q n) (hpq : p ≤ q) : e.Fits p n :=
  ⟨h.wellFormed, Nat.le_trans hpq h.level_le, h.need_lt⟩

theorem Expr.needOfArguments_le {as : List Expr} {n : Nat} (h : ∀ a ∈ as, a.need < n) :
    Expr.needOfArguments as ≤ n := by
  induction as with
  | nil => exact Nat.zero_le n
  | cons a as ih =>
    have ha := h a List.mem_cons_self
    have has := ih fun b hb => h b (List.mem_cons_of_mem a hb)
    exact Nat.max_le.2 ⟨ha, has⟩

namespace Rule

variable {g : Setting} {n : Nat} {expression operand : Rule g Expr}

/-- A rule for expressions that returns only what fits. -/
def Yields (r : Rule g Expr) (level bound : Nat) : Prop :=
  ∀ s, Returns r s fun e _ => e.Fits level bound

theorem primary_yields (he : Yields expression 0 n) : Yields (primary expression) 8 (n + 1) := by
  intro s
  refine .accept rfl (fun _ => .fail) fun t u ht _ => ?_
  dsimp only
  split
  · rename_i hk
    exact .pure ⟨.variable hk, Nat.le_refl _, Nat.succ_pos n⟩
  · refine (he _).bind fun e _ he => .bind .demand fun _ _ _ => .pure ?_
    exact ⟨.grouping he.wellFormed, Nat.le_refl _, Nat.succ_lt_succ he.need_lt⟩
  · rename_i hk
    refine .bind .demand fun _ _ _ => (he _).bind fun e _ he => ?_
    refine .bind .demand fun paren _ hp => .pure ?_
    refine ⟨.selection hk hp he.wellFormed, Nat.le_refl _, ?_⟩
    have := he.need_lt
    simp only [Expr.need, Expr.needOfArguments]
    omega
  · exact .pure ⟨.literal _, Nat.le_refl _, Nat.succ_pos n⟩

theorem arguments_returns (he : Yields expression 0 n) (s : State g) :
    Returns (arguments expression) s fun as _ => ∀ a ∈ as, a.Fits 0 n := by
  refine .peek rfl fun b => ?_
  split
  · exact .pure (by simp)
  · refine (he _).bind fun a _ ha => ?_
    have hnext (s : State g) : Returns (nextArgument expression) s
        fun o _ => ∀ a ∈ o, a.Fits 0 n := by
      refine .accept rfl (fun _ => .pure (by simp)) fun t u _ _ => .map ?_
      exact (he _).mono fun e _ he => by simpa using he
    refine (Returns.many hnext).bind fun as _ has => .pure ?_
    simpa using ⟨ha, has⟩

theorem finishCall_returns (he : Yields expression 0 n) {f : Expr} (hf : f.Fits 8 (n + 1))
    (s : State g) : Returns (finishCall expression f) s fun e _ => e.Fits 8 (n + 1) := by
  refine (arguments_returns he _).bind fun as _ has => .bind .demand fun paren _ hp => .pure ?_
  have hneed := Expr.needOfArguments_le fun a ha => (has a ha).need_lt
  exact ⟨.call hf.wellFormed hf.level_le hp fun a ha => (has a ha).wellFormed, Nat.le_refl _,
    Nat.max_lt.2 ⟨hf.need_lt, Nat.lt_succ_of_le hneed⟩⟩

theorem suffix_returns (he : Yields expression 0 n) {f : Expr} (hf : f.Fits 8 (n + 1))
    (s : State g) :
    Returns (suffix expression f) s fun o _ => ∀ e ∈ o, e.Fits 8 (n + 1) := by
  refine .accept rfl (fun _ => .pure (by simp)) fun t u _ _ => ?_
  dsimp only
  split
  · exact .map ((finishCall_returns he hf _).mono fun e _ he => by simpa using he)
  · refine .accept rfl (fun _ => .fail) fun name u hname _ => .pure ?_
    rintro e ⟨⟩
    exact ⟨.property hf.wellFormed hf.level_le (mem_propertyNames.2 hname), Nat.le_refl _,
      hf.need_lt⟩

theorem callLevel_yields (he : Yields expression 0 n) :
    Yields (callLevel expression) 8 (n + 1) := by
  intro s
  refine (primary_yields he s).bind fun e _ h => ?_
  exact .iterate (fun f s hf => suffix_returns he hf s) h

theorem unary_yields (he : Yields expression 0 n) (ho : Yields operand 7 n) :
    Yields (unary expression operand) 7 (n + 1) := by
  intro s
  refine .accept rfl (fun _ => ?_) fun op _ hop _ => .map ?_
  · exact (callLevel_yields he _).mono fun e _ h => h.mono (by omega)
  · refine (ho _).mono fun e _ h => ⟨.unary ?_ h.wellFormed h.level_le, Nat.le_refl _, ?_⟩
    · cases hk : op.kind <;> simp [hk, TokenKind.isPrefixOperator] at hop <;> simp
    · exact Nat.succ_lt_succ h.need_lt

theorem chain_yields {p : Nat} (ho : Yields operand (p + 1) n) : Yields (chain p operand) p n := by
  intro s
  -- All that was read so far is the left operand of the next operator, and fits its level.
  refine (ho s).bind fun l _ hl => .iterate (fun l s hl => ?_) (hl.mono (Nat.le_succ p))
  refine .accept (by simp [TokenKind.precedence?]) (fun _ => .pure (by simp)) fun op _ hop _ =>
    .map ?_
  have hop : op.kind.precedence? = some p := by simpa using hop
  refine (ho _).mono fun r _ hr => ?_
  rintro e ⟨⟩
  have hne : op.kind ≠ .equals := by rintro h; simp [h, TokenKind.precedence?] at hop
  refine ⟨.operation (mem_binaryOperators.2 hop) hl.wellFormed hl.level_le hr.wellFormed
    hr.level_le, ?_, ?_⟩
  · simp [Expr.level_binary, hop]
  · simp only [Expr.need, if_neg hne]
    exact Nat.max_lt.2 ⟨hl.need_lt, hr.need_lt⟩

theorem binary_yields (ho : Yields operand 7 n) : Yields (binary operand) 1 n :=
  chain_yields <| chain_yields <| chain_yields <| chain_yields <| chain_yields <| chain_yields ho

theorem assignment_yields (he : Yields expression 0 n) (ho : Yields operand 7 n) :
    Yields (assignment expression operand) 0 (n + 1) := by
  intro s
  refine (binary_yields (unary_yields he ho) s).bind fun l _ hl => ?_
  refine .accept rfl (fun _ => .pure (hl.mono (Nat.zero_le 1))) fun op _ hop _ => ?_
  have hop : op.kind = .equals := by simpa using hop
  refine (he _).bind fun r _ hr => ?_
  split
  · rename_i t
    have ht : t.kind = .identifier := by cases hl.wellFormed with | _ h => exact h
    refine .pure ⟨.assignment hop ht hr.wellFormed, Nat.zero_le _, ?_⟩
    have := hr.need_lt
    simp only [Expr.need, if_pos hop]
    omega
  · exact .throw

theorem upTo_yields (n : Nat) :
    Yields (expressionUpTo n : Rule g Expr) 0 n ∧ Yields (operandUpTo n : Rule g Expr) 7 n := by
  induction n with
  | zero => exact ⟨fun s => .fail, fun s => .fail⟩
  | succ n ih =>
    exact ⟨fun s => .within (assignment_yields ih.1 ih.2),
      fun s => .within (unary_yields ih.1 ih.2)⟩

end Rule

/-- A well-formed statement that nests no more than a bound. -/
structure Stmt.Fits (bound : Nat) (s : Stmt) : Prop where
  wellFormed : s.WellFormed
  need_le : s.need ≤ bound

/-- A statement that is no declaration, and that has taken every alternative it can take. -/
structure Stmt.FitsBefore (bound : Nat) (s : Stmt) (k : TokenKind) : Prop extends
    Stmt.Fits bound s where
  not_declaration : ¬s.IsDeclaration
  closed : s.EndsOpen → k ≠ .elseWord

theorem Stmt.needOfAll_le {ss : List Stmt} {n : Nat} (h : ∀ s ∈ ss, s.need ≤ n) :
    Stmt.needOfAll ss ≤ n := by
  induction ss with
  | nil => exact Nat.zero_le n
  | cons s ss ih =>
    have hs := h s List.mem_cons_self
    have hss := ih fun t ht => h t (List.mem_cons_of_mem s ht)
    exact Nat.max_le.2 ⟨hs, hss⟩

namespace Rule

variable {g : Setting} {n : Nat} {expression : Rule g Expr} {statement : Rule g Stmt}

theorem variableDeclaration_returns (he : Yields expression 0 n) (s : State g) :
    Returns (variableDeclaration expression) s fun s _ => s.Fits n := by
  have hinit (s : State g) : Returns (initializer expression) s fun o _ => ∀ e ∈ o, e.Fits 0 n := by
    refine .accept rfl (fun _ => .pure (by simp)) fun t u _ _ => .map ?_
    exact (he _).mono fun e _ he => by simpa using he
  refine .bind .demand fun name _ hname => (hinit _).bind fun o _ ho => .bind .demand fun _ _ _ =>
    .pure ⟨.declare hname fun e h => (ho e h).wellFormed, ?_⟩
  cases o with
  | none => exact Nat.zero_le n
  | some e => exact (ho e rfl).need_lt

theorem expressionStatement_returns (he : Yields expression 0 n) (s : State g) :
    Returns (expressionStatement expression) s (Stmt.FitsBefore (n + 1)) := by
  refine (he _).bind fun e _ he => .bind .demand fun _ _ _ => .pure ?_
  refine ⟨⟨.expression he.wellFormed, ?_⟩, by simp [Stmt.IsDeclaration], nofun⟩
  rw [Stmt.need]
  exact Nat.succ_le_succ he.need_lt

theorem conditional_returns (he : Yields expression 0 n)
    (hs : ∀ s, Returns statement s (Stmt.FitsBefore n)) (s : State g) :
    Returns (conditional expression statement) s (Stmt.FitsBefore (n + 1)) := by
  refine .bind .demand fun _ _ _ => (he _).bind fun c _ hc => .bind .demand fun _ _ _ => ?_
  refine (hs _).bind fun s _ h => .accept rfl (fun hk => .pure ?_) fun other _ hother hk => .map ?_
  · refine ⟨⟨.ifThen hc.wellFormed h.wellFormed h.not_declaration, ?_⟩,
      by simp [Stmt.IsDeclaration], fun _ => by simpa using hk⟩
    have hc := hc.need_lt
    have hs := h.need_le
    rw [Stmt.need]
    omega
  · -- The branch cannot end open: it would have taken the alternative that is next.
    have hopen : ¬s.EndsOpen := fun ho => h.closed ho (by simpa [hk] using hother)
    refine (hs _).mono fun t k h' => ⟨⟨.ifElse hc.wellFormed h.wellFormed h.not_declaration hopen
      h'.wellFormed h'.not_declaration, ?_⟩, by simp [Stmt.IsDeclaration], h'.closed⟩
    have hc := hc.need_lt
    have hs := h.need_le
    have ht := h'.need_le
    rw [Stmt.need]
    omega

theorem loop_returns (he : Yields expression 0 n)
    (hs : ∀ s, Returns statement s (Stmt.FitsBefore n)) (s : State g) :
    Returns (loop expression statement) s (Stmt.FitsBefore (n + 1)) := by
  refine .bind .demand fun _ _ _ => .bind .demand fun item _ hi => .bind .demand fun _ _ _ => ?_
  refine (he _).bind fun e _ he => .bind .demand fun _ _ _ => .map ?_
  refine (hs _).mono fun s k h =>
    ⟨⟨.loop hi he.wellFormed h.wellFormed h.not_declaration, ?_⟩,
      by simp [Stmt.IsDeclaration], h.closed⟩
  have he := he.need_lt
  have hs := h.need_le
  rw [Stmt.need]
  omega

/-- What is the same in a request for a page and in a line of output. -/
theorem command_returns {o c e : Expectation} {make : Expr → Stmt}
    (hmake : ∀ x : Expr, x.Fits 0 n → ∀ k, Stmt.FitsBefore (n + 1) (make x) k)
    (he : Yields expression 0 n) (s : State g) :
    Returns
      (do
        let _ ← demand o
        let x ← expression
        let _ ← demand c
        let _ ← demand e
        return make x) s (Stmt.FitsBefore (n + 1)) := by
  refine .bind .demand fun _ _ _ => (he _).bind fun x _ hx => ?_
  refine .bind .demand fun _ _ _ => .bind .demand fun _ _ _ => .pure ?_
  exact hmake x hx _

theorem fetch_returns (he : Yields expression 0 n) (s : State g) :
    Returns (fetch expression) s (Stmt.FitsBefore (n + 1)) := by
  refine command_returns (fun x hx k => ?_) he s
  refine ⟨⟨.fetch hx.wellFormed, ?_⟩, by simp [Stmt.IsDeclaration], nofun⟩
  rw [Stmt.need]
  exact Nat.succ_le_succ hx.need_lt

theorem save_returns (he : Yields expression 0 n) (s : State g) :
    Returns (save expression) s (Stmt.FitsBefore (n + 1)) := by
  refine .bind .demand fun _ _ _ => (he _).bind fun d _ hd => .bind .demand fun _ _ _ => ?_
  refine (he _).bind fun e _ he => .bind .demand fun _ _ _ => .bind .demand fun _ _ _ => .pure ?_
  refine ⟨⟨.save hd.wellFormed he.wellFormed, ?_⟩, by simp [Stmt.IsDeclaration], nofun⟩
  have hd := hd.need_lt
  have he := he.need_lt
  rw [Stmt.need]
  omega

theorem print_returns (he : Yields expression 0 n) (s : State g) :
    Returns (print expression) s (Stmt.FitsBefore (n + 1)) := by
  refine command_returns (fun x hx k => ?_) he s
  refine ⟨⟨.print hx.wellFormed, ?_⟩, by simp [Stmt.IsDeclaration], nofun⟩
  rw [Stmt.need]
  exact Nat.succ_le_succ hx.need_lt

/-- Whatever was passed over, what is left of a sequence of declarations fits. -/
theorem declarationsUntil_returns {p : TokenKind → Bool} (he : Yields expression 0 n)
    (hs : ∀ s, Returns statement s (Stmt.FitsBefore n)) (s : State g) :
    Returns (declarationsUntil p expression statement) s fun ss _ => ∀ s ∈ ss, s.Fits n := by
  have hd (s : State g) : Returns (declaration expression statement) s
      fun o _ => ∀ s ∈ o, s.Fits n := by
    refine .recovering (.accept rfl (fun _ => ?_) fun t u _ _ => variableDeclaration_returns he _)
    exact (hs _).mono fun s k h => h.toFits
  have hnext (s : State g) : Returns (declarationUnless p expression statement) s
      fun o _ => ∀ o' ∈ o, ∀ s ∈ o', s.Fits n := by
    refine .peek rfl fun b => ?_
    split
    · exact .pure (by simp)
    · exact .map ((hd _).mono fun o _ ho => by simpa using ho)
  -- What was given up is left out of what was found.
  refine (Returns.many hnext).bind fun found _ hfound => .pure fun s hs => ?_
  exact hfound (some s) (by simpa using hs) s rfl

theorem block_returns (he : Yields expression 0 n)
    (hs : ∀ s, Returns statement s (Stmt.FitsBefore n)) (s : State g) :
    Returns (block expression statement) s (Stmt.FitsBefore (n + 1)) := by
  refine (declarationsUntil_returns he hs s).bind fun ss _ hss => ?_
  refine .bind .demand fun _ _ _ => .pure ?_
  refine ⟨⟨.block fun s hs => (hss s hs).wellFormed, ?_⟩, by simp [Stmt.IsDeclaration], nofun⟩
  rw [Stmt.need]
  exact Nat.succ_le_succ (Stmt.needOfAll_le fun s hs => (hss s hs).need_le)

theorem form_returns (he : Yields expression 0 n)
    (hs : ∀ s, Returns statement s (Stmt.FitsBefore n)) (s : State g) :
    Returns (form expression statement) s (Stmt.FitsBefore (n + 1)) := by
  refine .accept rfl (fun _ => expressionStatement_returns he _) fun t u _ _ => ?_
  dsimp only
  split
  · exact conditional_returns he hs _
  · exact loop_returns he hs _
  · exact block_returns he hs _
  · exact fetch_returns he _
  · exact save_returns he _
  · exact print_returns he _

theorem statementUpTo_returns (n : Nat) (s : State g) :
    Returns (statementUpTo n) s (Stmt.FitsBefore n) := by
  induction n generalizing s with
  | zero => exact .fail
  | succ n ih => exact .within fun s => form_returns (upTo_yields n).1 ih s

/-- At the top the levels are all there are. -/
theorem program_returns (s : State g) :
    Returns program s fun ss _ => ∀ s ∈ ss, s.Fits g.levels := by
  -- The levels that are left where an expression or a statement begins are no more than all.
  refine declarationsUntil_returns (fun s e t h => ?_) (fun s st t h => ?_) s
  · have he := (upTo_yields (g.levels - s.depth)).1 s e t h
    exact ⟨he.wellFormed, he.level_le, Nat.lt_of_lt_of_le he.need_lt (Nat.sub_le _ _)⟩
  · have hst := statementUpTo_returns (g.levels - s.depth) s st t h
    exact { hst with need_le := Nat.le_trans hst.need_le (Nat.sub_le _ _) }

end Rule

/-- Whatever is wrong with the tokens, no statement is returned that is not well-formed. -/
theorem TokenStream.parse_wellFormed (stream : TokenStream) (limit : Int) :
    ∀ s ∈ (stream.parse limit).statements, s.WellFormed ∧ s.need ≤ limit.toNat := by
  unfold parse
  split
  · rename_i ss t h
    intro s hs
    have hfits := Rule.program_returns _ _ _ h s hs
    exact ⟨hfits.wellFormed, hfits.need_le⟩
  · simp

/-- Every statement a run returns is well-formed, with faults or without. -/
theorem Parser.wellFormed_of_mem_run (ts : List Token) (options : ParseOptions) {s : Stmt}
    (hs : s ∈ (ofTokens ts options).run.1) : s.WellFormed :=
  ((ofTokens ts options).stream.parse_wellFormed options.limit s hs).1

/-- What is left of a statement without a beginning, and a statement after it. -/
def passedOver : List Token :=
  [.equals, .semicolon, .identifier, .semicolon, .endOfFile].map Token.ofKind

theorem Parser.wellFormed_passedOver :
    (ofTokens passedOver {}).run.2.faults.length = 1 ∧
      ∃ s ∈ (ofTokens passedOver {}).run.1, s.WellFormed := by
  have hfaults : (ofTokens passedOver {}).run.2.faults.length = 1 := by decide +kernel
  have hlength : 0 < (ofTokens passedOver {}).run.1.length := by decide +kernel
  have hmem := List.get_mem (ofTokens passedOver {}).run.1 ⟨0, hlength⟩
  exact ⟨hfaults, _, hmem, wellFormed_of_mem_run passedOver {} hmem⟩

end ScrapeScript
