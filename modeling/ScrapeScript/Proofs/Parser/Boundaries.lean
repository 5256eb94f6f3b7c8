import Mathlib.Order.Bounds.Defs
import ScrapeScript.Parser.Recovery
import ScrapeScript.Proofs.Grammar.Phrase

namespace ScrapeScript

namespace Recovery

/-- The token right before a place. Nothing stands before the first place. -/
def before? (ts : List Token) : Nat → Option Token
  | 0 => none
  | i + 1 => ts[i]?

/-- The words with which a statement can begin and an expression cannot. -/
def statementWords : List TokenKind := [.varWord, .forWord, .ifWord, .fetch, .save, .print]

/-- A place between tokens at which reading may go on: behind a semicolon, or before a word that
opens a statement. -/
def IsBoundary (ts : List Token) (i : Nat) : Prop :=
  (∃ t ∈ before? ts i, t.kind = .semicolon) ∨ ∃ t ∈ ts[i]?, t.kind ∈ statementWords

/-- The first boundary from a place on, or the last place. Tokens are read by their indices, and
nothing is found if an index is outside the list. -/
def seekFrom? (ts : List Token) (i : Nat) : Option Nat :=
  if i + 1 < ts.length then
    match before? ts i, ts[i]? with
    | some previous, some t =>
      if previous.kind = .semicolon || t.kind.startsStatement then some i
      else seekFrom? ts (i + 1)
    | _, _ => none
  else
    some i
termination_by ts.length - i

/-- The place at which reading goes on after a fault, searched for by indices. One token is passed
over in any case, unless the last one is reached. -/
def resumeFrom? (ts : List Token) (p : Nat) : Option Nat :=
  seekFrom? ts (if p + 1 < ts.length then p + 1 else p)

variable {ts rest : List Token} {previous t : Token} {i r p : Nat}

theorem mem_statementWords {k : TokenKind} : k ∈ statementWords ↔ k.startsStatement = true := by
  cases k <;> decide

theorem isBoundary_iff (hprevious : before? ts i = some previous) (ht : ts[i]? = some t) :
    IsBoundary ts i ↔ previous.kind = .semicolon ∨ t.kind.startsStatement = true := by
  simp [IsBoundary, hprevious, ht, mem_statementWords]

/-- What the search finds is a boundary or the last place, and no place passed over is either. -/
theorem of_seekFrom? (h : seekFrom? ts i = some r) :
    i ≤ r ∧ (r + 1 < ts.length → IsBoundary ts r) ∧
      ∀ j, i ≤ j → j < r → j + 1 < ts.length ∧ ¬IsBoundary ts j := by
  fun_induction seekFrom? ts i with
  | case1 i hi previous t ht hprevious hfound =>
    cases h
    have hboundary := (isBoundary_iff hprevious ht).2 (by simpa using hfound)
    exact ⟨Nat.le_refl _, fun _ => hboundary, fun j hij hjr => absurd hjr (Nat.not_lt.2 hij)⟩
  | case2 i hi previous t ht hprevious hpassed ih =>
    have hhere : ¬IsBoundary ts i := by
      rw [isBoundary_iff hprevious ht]
      simpa using hpassed
    obtain ⟨hle, hstop, hbefore⟩ := ih h
    refine ⟨Nat.le_of_succ_le hle, hstop, fun j hij hjr => ?_⟩
    obtain rfl | hij := Nat.eq_or_lt_of_le hij
    · exact ⟨hi, hhere⟩
    · exact hbefore j hij hjr
  | case3 => cases h
  | case4 i hi =>
    cases h
    exact ⟨Nat.le_refl _, fun hr => absurd hr hi,
      fun j hij hjr => absurd hjr (Nat.not_lt.2 hij)⟩

/-- The last token is never passed over, so what is passed over leaves it out. -/
theorem of_drop_dropLast (h : ts.dropLast.drop i = t :: rest) :
    ts[i]? = some t ∧ ts.dropLast.drop (i + 1) = rest ∧ ts.length = i + 1 + (rest.length + 1) := by
  have hlength : ts.length - 1 - i = rest.length + 1 := by simpa using congrArg List.length h
  have hhead : ts.dropLast[i]? = some t := by rw [← List.head?_drop, h, List.head?_cons]
  rw [List.getElem?_dropLast, if_pos (by omega)] at hhead
  refine ⟨hhead, ?_, by omega⟩
  rw [← List.tail_drop, h, List.tail_cons]

/-- The search by indices goes as far as passing over the tokens one by one does. -/
theorem seekFrom?_eq (hprevious : before? ts i = some previous)
    (hrest : ts.dropLast.drop i = rest) (hi : i < ts.length) :
    seekFrom? ts i = some (ts.length - 1 - (seek previous rest).length) := by
  induction rest generalizing i previous with
  | nil =>
    have hend : ts.length - 1 ≤ i := by simpa using hrest
    rw [seekFrom?, if_neg (by omega), seek, List.length_nil]
    congr 1
    omega
  | cons t rest ih =>
    obtain ⟨ht, htail, hlength⟩ := of_drop_dropLast hrest
    rw [seekFrom?, if_pos (by omega)]
    simp only [hprevious, ht, seek]
    split
    · rw [List.length_cons]
      congr 1
      omega
    · exact ih ht htail (by omega)

theorem resumeFrom?_eq (ts : List Token) (p : Nat) : resumeFrom? ts p = some (resumeAt ts p) := by
  unfold resumeFrom? resumeAt
  split
  · rename_i hp
    cases hahead : ts.dropLast.drop p with
    | nil =>
      have hend : ts.length - 1 ≤ p := by simpa using hahead
      omega
    | cons t rest =>
      obtain ⟨ht, htail, -⟩ := of_drop_dropLast hahead
      exact seekFrom?_eq ht htail hp
  · rename_i hp
    rw [seekFrom?, if_neg hp]

/-- After a fault reading goes on at the first boundary behind the token at fault, or at the last
token if there is none. It stays where it is if no token is left to pass over. Searched for by
indices, the same place is found: none of them is outside the list. -/
theorem resumeAt_isLeast (ts : List Token) (p : Nat) :
    (ts.length ≤ p + 1 → resumeAt ts p = p) ∧
      (p + 1 < ts.length →
        IsLeast {r | p < r ∧ r < ts.length ∧ (r + 1 = ts.length ∨ IsBoundary ts r)}
          (resumeAt ts p)) ∧
      resumeFrom? ts p = some (resumeAt ts p) := by
  refine ⟨fun hp => ?_, fun hp => ?_, resumeFrom?_eq ts p⟩
  · unfold resumeAt
    rw [if_neg (by omega)]
  · have hfound := resumeFrom?_eq ts p
    rw [resumeFrom?, if_pos hp] at hfound
    obtain ⟨hlt, hstop, hbefore⟩ := of_seekFrom? hfound
    have hlast : resumeAt ts p < ts.length := by
      rw [resumeAt, if_pos hp]
      omega
    refine ⟨⟨hlt, hlast, ?_⟩, fun r ⟨hpr, hr, hboundary⟩ => Nat.le_of_not_lt fun hrp => ?_⟩
    · rcases Nat.lt_or_ge (resumeAt ts p + 1) ts.length with hinside | hend
      · exact .inr (hstop hinside)
      · exact .inl (by omega)
    · obtain ⟨hinside, hnot⟩ := hbefore r hpr hrp
      exact hboundary.elim (by omega) hnot

/-- A semicolon that is itself at fault, a word further on that opens a statement, and the end. -/
theorem resumeAt_isLeast_stops :
    let ts := [.identifier, .semicolon, .number, .dot, .print, .endOfFile].map Token.ofKind
    IsLeast {r | 1 < r ∧ r < ts.length ∧ (r + 1 = ts.length ∨ IsBoundary ts r)} 2 ∧
      IsLeast {r | 2 < r ∧ r < ts.length ∧ (r + 1 = ts.length ∨ IsBoundary ts r)} 4 ∧
      IsLeast {r | 4 < r ∧ r < ts.length ∧ (r + 1 = ts.length ∨ IsBoundary ts r)} 5 ∧
      resumeAt ts 5 = 5 := by
  intro ts
  have hsemicolon : resumeAt ts 1 = 2 := by decide
  have hword : resumeAt ts 2 = 4 := by decide
  have hend : resumeAt ts 4 = 5 := by decide
  refine ⟨?_, ?_, ?_, (resumeAt_isLeast ts 5).1 (by decide)⟩
  · exact hsemicolon ▸ (resumeAt_isLeast ts 1).2.1 (by decide)
  · exact hword ▸ (resumeAt_isLeast ts 2).2.1 (by decide)
  · exact hend ▸ (resumeAt_isLeast ts 4).2.1 (by decide)

end Recovery

end ScrapeScript
