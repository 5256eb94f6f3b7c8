import ScrapeScript.Proofs.Parser.Progress
import ScrapeScript.Proofs.Parser.ReturnedTrees

namespace ScrapeScript

/-- The tokens before the first end of file. -/
def sentence (ts : List Token) : List Token := ts.takeWhile (·.kind != .endOfFile)

theorem sentence_append {ts : List Token} (h : ∀ t ∈ ts, t.kind ≠ .endOfFile) (rest : List Token) :
    sentence (ts ++ rest) = ts ++ sentence rest :=
  List.takeWhile_append_of_pos fun t ht => by simpa using h t ht

theorem sentence_eq_self {ts : List Token} (h : ∀ t ∈ ts, t.kind ≠ .endOfFile) :
    sentence ts = ts := by
  have happend := sentence_append h []
  have hnil : sentence [] = [] := rfl
  rwa [List.append_nil, hnil, List.append_nil] at happend

theorem nextKind_sentence (ts : List Token) : nextKind (sentence ts) = nextKind ts := by
  cases ts with
  | nil => rfl
  | cons t ts =>
    by_cases ht : t.kind = .endOfFile
    · simp [sentence, ht]
    · simp [sentence, ht]

theorem sentence_eq_nil {ts : List Token} (h : nextKind ts = .endOfFile) : sentence ts = [] := by
  cases ts with
  | nil => rfl
  | cons t ts =>
    have ht : t.kind = .endOfFile := h
    simp [sentence, ht]

namespace Setting

/-- A setting with room for so many levels, and for no fewer than there were. -/
def deepened (g : Setting) (n : Nat) : Setting := ⟨max g.limit n, g.final⟩

theorem levels_le_deepened (g : Setting) (n : Nat) : g.levels ≤ (g.deepened n).levels := by
  simp only [levels, deepened]
  omega

theorem le_levels_deepened (g : Setting) (n : Nat) : n ≤ (g.deepened n).levels := by
  simp only [levels, deepened]
  omega

end Setting

namespace Rule

variable {g : Setting} {s t : State g} {ts : List Token} {ss ss' : List Stmt} {f : SyntaxFault}

theorem program_start (h : Grammar.nearest.Program ts ss) (hneed : Stmt.needOfAll ss ≤ g.levels) :
    program (State.start g ts) = .ok ss (State.start g []) :=
  program_made h hneed (State.start g ts) [] rfl (List.append_nil ts).symm rfl

/-- Two programs of the same tokens are the same if alternatives go to the nearest condition. -/
theorem program_unique (h : Grammar.nearest.Program ts ss) (h' : Grammar.nearest.Program ts ss') :
    ss = ss' := by
  -- Both are what is made in a setting that has the levels for both.
  have hlevels := Setting.le_levels_deepened ⟨0, Token.endOfFile ⟨"", 1, 1, 0⟩⟩
    (max (Stmt.needOfAll ss) (Stmt.needOfAll ss'))
  have hrun := program_start h (Nat.le_trans (Nat.le_max_left _ _) hlevels)
  rw [program_start h' (Nat.le_trans (Nat.le_max_right _ _) hlevels)] at hrun
  cases hrun
  rfl

theorem program_reads_deepened {target : Expr → Prop} (hvariable : ∀ t, target (.variable t)) :
    ReadsClauses target .declarations (program : Rule g (List Stmt))
      (fun n => (program : Rule (g.deepened n) (List Stmt))) :=
  program_reads hvariable g.levels_le_deepened

/-- Where no fault is found, a program is read, and all that is before an end of file. -/
theorem program_clean (hrun : program s = .ok ss t) (hfaults : t.faults = s.faults)
    (hdepth : s.depth = 0) :
    s.ahead = sentence s.ahead ++ t.ahead ∧ Grammar.nearest.Program (sentence s.ahead) ss := by
  obtain ⟨ss', t', hends, -, hstop⟩ := program_ends s
  rw [hrun] at hends
  cases hends
  have hreads : ReadsClauses Expr.IsVariable .declarations (program : Rule g (List Stmt)) _ :=
    program_reads_deepened fun t => ⟨t, rfl⟩
  obtain ⟨-, ts, hts, hwritten, hmakes⟩ := hreads.clean hrun hfaults
  have hsentence : sentence s.ahead = ts := by
    rw [hts, sentence_append fun t ht => (hwritten.kinds t ht).1, sentence_eq_nil hstop,
      List.append_nil]
  rw [hsentence]
  refine ⟨hts, ?_⟩
  -- There is a tree of these tokens, and in enough levels it is the one that is made.
  obtain ⟨ss', hss'⟩ := hwritten.exists_nearest
  have hmade := hmakes (Stmt.needOfAll ss') (State.start _ ts) [] hdepth.symm
    (List.append_nil ts).symm hstop.symm
  rw [program_start hss' (g.le_levels_deepened _)] at hmade
  cases hmade
  exact hss'

/-- The tokens before a first fault begin a program, at least of the grammar in which a value may go
to anything, and with the token of the fault they begin none of the grammar as it is written. -/
theorem program_fault (hf : FirstFault program s f) (hdeep : ¬f.IsTooDeep) (hdepth : s.depth = 0) :
    ∃ ts rest, FaultAfter s f ts rest ∧ (∃ us ss, Grammar.loose.Program (ts ++ us) ss) ∧
      ∀ v ss, nextKind v = nextKind rest → ¬Grammar.written.Program (ts ++ v) ss := by
  have hreads : ReadsClauses (fun _ => True) .declarations (program : Rule g (List Stmt)) _ :=
    program_reads_deepened fun _ => trivial
  obtain ⟨ts, rest, hafter, hcomplete, hrefuses⟩ := hreads.fault hf hdeep
  refine ⟨ts, rest, hafter, hcomplete fun _ => trivial, fun v ss hv hss => ?_⟩
  obtain ⟨ss', hss'⟩ := hss.exists_nearest
  have hfaulty := hrefuses (Stmt.needOfAll ss') (State.start _ (ts ++ v)) v hdepth.symm rfl hv
  unfold Faulty at hfaulty
  rw [program_start hss' (g.le_levels_deepened _)] at hfaulty
  exact hfaulty rfl

theorem program_keeps : Keeps (program : Rule g (List Stmt)) := by
  have hreads : ReadsClauses (fun _ => True) .declarations (program : Rule g (List Stmt)) _ :=
    program_reads_deepened fun _ => trivial
  exact hreads.keeps

/-- A program that is read with a fault that is not one of nesting is no program. -/
theorem not_program_of_fault (hf : FirstFault program s f) (hdeep : ¬f.IsTooDeep)
    (hdepth : s.depth = 0) : ¬Grammar.written.Program (sentence s.ahead) ss := by
  obtain ⟨ts, rest, hafter, ⟨us, ss', hloose⟩, hnone⟩ := program_fault hf hdeep hdepth
  have hts (t : Token) (ht : t ∈ ts) : t.kind ≠ .endOfFile :=
    (hloose.kinds t (List.mem_append_left us ht)).1
  rw [hafter.ahead, sentence_append hts]
  exact hnone _ ss (nextKind_sentence rest)

/-- Where there are too few levels for a program, that is the first fault. -/
theorem program_tooDeep (h : Grammar.nearest.Program (sentence s.ahead) ss)
    (hneed : g.levels < Stmt.needOfAll ss) (hdepth : s.depth = 0) :
    ∃ f, FirstFault program s f ∧ f.IsTooDeep := by
  by_cases hfaulty : Faulty program s
  · obtain ⟨f, hf⟩ := program_keeps.exists_firstFault hfaulty
    by_cases hdeep : f.IsTooDeep
    · exact ⟨f, hf, hdeep⟩
    · exact absurd h.written_of_nearest (not_program_of_fault hf hdeep hdepth)
  · -- What is made without a fault is this program, and fits into the levels there are.
    obtain ⟨ss', t, hrun, hfaults⟩ := program_keeps.exists_ok hfaulty
    obtain rfl := program_unique h (program_clean hrun hfaults hdepth).2
    have hfits := Stmt.needOfAll_le fun s hs => (program_returns _ _ _ hrun s hs).need_le
    omega

end Rule

end ScrapeScript
