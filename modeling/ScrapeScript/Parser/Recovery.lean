import ScrapeScript.Token.Basic

namespace ScrapeScript

namespace Recovery

/-- Passes over tokens up to the first boundary: a place after a semicolon or before a word that
opens a statement. -/
def seek (previous : Token) : List Token → List Token
  | [] => []
  | t :: rest =>
    if previous.kind = .semicolon || t.kind.startsStatement then t :: rest else seek t rest

/-- What is left to read after a fault: one token is always dropped, then those up to a boundary. -/
def resume : List Token → List Token
  | [] => []
  | t :: rest => seek t rest

/-- The index at which parsing goes on after a fault at index `p`, never past the last token. -/
def resumeAt (ts : List Token) (p : Nat) : Nat :=
  if p + 1 < ts.length then ts.length - 1 - (resume (ts.dropLast.drop p)).length else p

theorem seek_suffix (previous : Token) (ts : List Token) : seek previous ts <:+ ts := by
  induction ts generalizing previous with
  | nil => exact List.suffix_refl []
  | cons t rest ih =>
    unfold seek
    split
    · exact List.suffix_refl _
    · exact (ih t).trans (List.suffix_cons t rest)

theorem resume_suffix (ts : List Token) : resume ts <:+ ts := by
  cases ts with
  | nil => exact List.suffix_refl []
  | cons t rest => exact (seek_suffix t rest).trans (List.suffix_cons t rest)

theorem resume_length_lt {ts : List Token} (h : ts ≠ []) : (resume ts).length < ts.length := by
  cases ts with
  | nil => exact absurd rfl h
  | cons t rest => exact Nat.lt_succ_of_le (seek_suffix t rest).length_le

end Recovery

end ScrapeScript
