import ScrapeScript.Parser.Basic
import ScrapeScript.Proofs.Parser.Progress

namespace ScrapeScript

namespace TokenStream

variable {stream : TokenStream} {ts us : List Token} {t : Token}

/-- The index at which the tokens stand that are left of a stream. -/
def indexOf (stream : TokenStream) (ts : List Token) : Nat := stream.ahead.length - ts.length

theorem indexOf_lt_size (stream : TokenStream) (ts : List Token) :
    stream.indexOf ts < stream.size :=
  Nat.lt_succ_of_le (Nat.sub_le _ _)

theorem indexOf_le (h : us.length ≤ ts.length) : stream.indexOf ts ≤ stream.indexOf us :=
  Nat.sub_le_sub_left h _

theorem indexOf_lt (hts : ts <:+ stream.ahead) (h : us.length < ts.length) :
    stream.indexOf ts < stream.indexOf us :=
  Nat.sub_lt_sub_left (Nat.lt_of_lt_of_le h hts.length_le) h

theorem indexOf_tail (hts : t :: ts <:+ stream.ahead) :
    stream.indexOf ts = stream.indexOf (t :: ts) + 1 := by
  have hlength := hts.length_le
  rw [List.length_cons] at hlength
  unfold indexOf
  rw [List.length_cons]
  omega

theorem getElem?_indexOf (hts : ts <:+ stream.ahead) :
    stream.toList[stream.indexOf ts]? = some (ts.headD stream.final) := by
  obtain ⟨before, hbefore⟩ := hts
  have hindex : stream.indexOf ts = before.length := by
    unfold indexOf
    rw [← hbefore, List.length_append]
    exact Nat.add_sub_cancel _ _
  rw [hindex, toList, ← hbefore, List.append_assoc, List.getElem?_append_right (Nat.le_refl _),
    Nat.sub_self]
  cases ts <;> rfl

/-- A state of a run over a stream: what is ahead is left of the stream. -/
def Holds {g : Setting} (stream : TokenStream) (s : State g) : Prop := s.ahead <:+ stream.ahead

/-- What holds at any state of a run. All its tokens are read at indices of the stream, a routine
never goes back or keeps a level, recovery stays within the stream, a declaration gets on, and
loops over declarations end. -/
structure Steady {limit : Int} (stream : TokenStream) (s : State ⟨limit, stream.final⟩) :
    Prop where
  next : stream.toList[stream.indexOf s.ahead]? = some s.next
  previous (p : TokenKind → Bool) (u : Token) (t : State ⟨limit, stream.final⟩) :
    Rule.accept p s = .ok (some u) t → stream.Holds t ∧
      stream.indexOf t.ahead = stream.indexOf s.ahead + 1 ∧
      stream.toList[stream.indexOf t.ahead - 1]? = some u
  routine {α : Type} (r : Rule.Routine α) :
    stream.Holds (Rule.stateOf (r.rule .ofGrammar s)) ∧
      stream.indexOf s.ahead ≤ stream.indexOf (Rule.stateOf (r.rule .ofGrammar s)).ahead ∧
      (Rule.stateOf (r.rule .ofGrammar s)).depth = s.depth
  resume : stream.indexOf (Recovery.resume s.ahead) =
      Recovery.resumeAt stream.toList (stream.indexOf s.ahead) ∧
    Recovery.resumeAt stream.toList (stream.indexOf s.ahead) < stream.size
  declaration : s.next.kind ≠ .endOfFile →
    ∃ o t, Rule.declaration Rule.expression Rule.statement s = .ok o t ∧ stream.Holds t ∧
      stream.indexOf s.ahead < stream.indexOf t.ahead ∧ stream.indexOf t.ahead < stream.size
  loop (p : TokenKind → Bool) : p .endOfFile = true → ∃ found t,
    (∀ n, s.ahead.length ≤ n →
      Rule.manyUpTo (Rule.declarationUnless p Rule.expression Rule.statement) n s = .ok found t) ∧
    stream.Holds t ∧ p t.next.kind = true

variable {limit : Int} {s t : State ⟨limit, stream.final⟩}

theorem Holds.next (h : stream.Holds s) : stream.toList[stream.indexOf s.ahead]? = some s.next :=
  getElem?_indexOf h

theorem kind_next (stream : TokenStream) (s : State ⟨limit, stream.final⟩) :
    s.next.kind = nextKind s.ahead := by
  unfold State.next
  cases s.ahead with
  | nil => exact stream.final_kind
  | cons t rest => rfl

theorem Holds.of_onward (h : stream.Holds s) (hst : Rule.Onward s t) : stream.Holds t :=
  hst.suffix.trans h

theorem Holds.previous (h : stream.Holds s) {p : TokenKind → Bool} {u : Token}
    (hread : Rule.accept p s = .ok (some u) t) : stream.Holds t ∧
      stream.indexOf t.ahead = stream.indexOf s.ahead + 1 ∧
      stream.toList[stream.indexOf t.ahead - 1]? = some u := by
  have hs : s.ahead = u :: t.ahead := by
    unfold Rule.accept at hread
    split at hread
    · cases hread
    · rename_i hahead
      split at hread <;> cases hread
      exact hahead
  unfold Holds at h
  rw [hs] at h
  have hstep := indexOf_tail h
  refine ⟨(List.suffix_cons u t.ahead).trans h, hs ▸ hstep, ?_⟩
  rw [hstep, Nat.add_sub_cancel]
  exact getElem?_indexOf h

theorem Holds.resume (h : stream.Holds s) : stream.indexOf (Recovery.resume s.ahead) =
      Recovery.resumeAt stream.toList (stream.indexOf s.ahead) ∧
    Recovery.resumeAt stream.toList (stream.indexOf s.ahead) < stream.size := by
  have heq : stream.indexOf (Recovery.resume s.ahead) =
      Recovery.resumeAt stream.toList (stream.indexOf s.ahead) := by
    have hdrop : stream.ahead.drop (stream.indexOf s.ahead) = s.ahead :=
      (List.suffix_iff_eq_drop.1 h).symm
    unfold Recovery.resumeAt
    rw [length_toList, toList, List.dropLast_concat, hdrop]
    split
    · rfl
    · rename_i hend
      have hnil : s.ahead = [] := by
        refine List.eq_nil_of_length_eq_zero ?_
        have hlength := h.length_le
        unfold size indexOf at hend
        omega
      rw [hnil]
      rfl
  exact ⟨heq, heq ▸ stream.indexOf_lt_size _⟩

theorem Holds.declaration (h : stream.Holds s) (hs : s.next.kind ≠ .endOfFile) :
    ∃ o t, Rule.declaration Rule.expression Rule.statement s = .ok o t ∧ stream.Holds t ∧
      stream.indexOf s.ahead < stream.indexOf t.ahead ∧ stream.indexOf t.ahead < stream.size := by
  rw [kind_next] at hs
  obtain ⟨o, t, ht, hlt⟩ := Rule.declaration_advances (ne_nil_of_nextKind hs)
  exact ⟨o, t, ht, h.of_onward (Rule.Routine.declaration.onward_of_ok ht), indexOf_lt h hlt,
    stream.indexOf_lt_size _⟩

theorem Holds.loop (h : stream.Holds s) {p : TokenKind → Bool} (hp : p .endOfFile = true) :
    ∃ found t, (∀ n, s.ahead.length ≤ n →
      Rule.manyUpTo (Rule.declarationUnless p Rule.expression Rule.statement) n s = .ok found t) ∧
    stream.Holds t ∧ p t.next.kind = true := by
  obtain ⟨found, t, hfound, honward, hend⟩ := Rule.declarations_end hp s
  exact ⟨found, t, hfound, h.of_onward honward, by rwa [kind_next]⟩

theorem Holds.steady (h : stream.Holds s) : stream.Steady s where
  next := h.next
  previous _ _ _ := h.previous
  routine r :=
    have honward := r.onward s
    ⟨h.of_onward honward, indexOf_le honward.length_le, honward.depth_eq⟩
  resume := h.resume
  declaration := h.declaration
  loop _ := h.loop

end TokenStream

namespace Parser

/-- Every run of a parser, whatever it holds from an earlier one, is steady from its start, ends
without an error that leaves it, at an end of file and outside of all levels. -/
theorem run_ends (parser : Parser) :
    (∀ s : State ⟨parser.limit, parser.stream.final⟩, parser.stream.Holds s →
      parser.stream.Steady s) ∧
    ∃ t : State ⟨parser.limit, parser.stream.final⟩,
      Rule.program (.start _ parser.stream.ahead) = .ok parser.run.1 t ∧
        t.ahead = parser.run.2.ahead ∧ t.faults = parser.run.2.faults ∧ t.depth = 0 ∧
        parser.stream.toList[parser.run.2.current]? = some t.next ∧ t.next.kind = .endOfFile := by
  refine ⟨fun s h => h.steady, ?_⟩
  obtain ⟨t, hrun, hfaults, hahead, honward, hend⟩ := parser.stream.parse_ends parser.limit
  have hholds : parser.stream.Holds t := honward.suffix
  have hcurrent : parser.run.2.current = parser.stream.indexOf t.ahead :=
    congrArg parser.stream.indexOf hahead.symm
  refine ⟨t, hrun, hahead, hfaults, honward.depth_eq, ?_, ?_⟩
  · rw [hcurrent]
    exact hholds.next
  · rw [TokenStream.kind_next]
    exact hend

/-- An end of file in the middle, and no levels at all. -/
theorem steady_behindEnd :
    let parser := ofTokens ([.endOfFile, .semicolon, .identifier].map Token.ofKind) ⟨-1, ""⟩
    let s : State ⟨parser.limit, parser.stream.final⟩ := .start _ (parser.stream.ahead.drop 2)
    parser.stream.Steady s ∧ s.next.kind = .identifier := by
  intro parser s
  have hholds : parser.stream.Holds s := List.drop_suffix 2 parser.stream.ahead
  exact ⟨(run_ends parser).1 s hholds, rfl⟩

end Parser

end ScrapeScript
