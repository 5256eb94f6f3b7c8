import ScrapeScript.Proofs.Lexer.Munched

namespace ScrapeScript

/-- Nothing is missing at the end of what was found. -/
def Find.isClosed : Find → Bool
  | .token _ | .unknown => true
  | .openComment | .openString => false

/-- A piece with more text after it. -/
def Piece.followedBy (p : Piece) (ds : List Char) : Piece := ⟨p.find, p.lexeme, p.rest ++ ds⟩

section Stops

variable {p : Char → Bool} {b : Char} (cs ds : List Char)

theorem takeWhile_append_stop (h : p b = false) : (cs ++ b :: ds).takeWhile p = cs.takeWhile p := by
  induction cs with
  | nil => simp [h]
  | cons c cs ih => simp [List.takeWhile_cons, ih]

theorem dropWhile_append_stop (h : p b = false) :
    (cs ++ b :: ds).dropWhile p = cs.dropWhile p ++ b :: ds := by
  induction cs with
  | nil => simp [h]
  | cons c cs ih =>
    rw [List.cons_append, List.dropWhile_cons, List.dropWhile_cons, ih]
    split <;> rfl

theorem run_followedBy (k : TokenKind) (h : p b = false) :
    Piece.run k p (cs ++ b :: ds) = (Piece.run k p cs).followedBy (b :: ds) := by
  simp only [Piece.run, Piece.followedBy, takeWhile_append_stop cs ds h,
    dropWhile_append_stop cs ds h]

end Stops

section Closed

variable {cs inner rest : List Char}

theorem closeComment?_followedBy (h : closeComment? cs = some (inner, rest)) (ds : List Char) :
    closeComment? (cs ++ ds) = some (inner, rest ++ ds) := by
  obtain ⟨body, rest', heq, hbody⟩ | ⟨heq, -⟩ := closeComment?_spec cs
  · obtain ⟨rfl, rfl⟩ : body ++ ['*', '/'] = inner ∧ rest' = rest := by simpa [h] using heq.symm
    rw [← closeComment?_append h]
    simpa using closeComment?_append_end hbody (rest' ++ ds)
  · rw [h] at heq
    cases heq

theorem closeString?_followedBy (h : closeString? cs = some (inner, rest)) (ds : List Char) :
    closeString? (cs ++ ds) = some (inner, rest ++ ds) := by
  obtain ⟨body, rfl, hbody⟩ := closeString?_eq_some h
  rw [← closeString?_append h]
  simpa using closeString?_append_quote hbody (rest ++ ds)

theorem munchString_followedBy (hclosed : (munchString cs).find.isClosed = true)
    (ds : List Char) : munchString (cs ++ ds) = (munchString cs).followedBy ds := by
  unfold munchString at hclosed ⊢
  cases hclose : closeString? cs with
  | none =>
    rw [hclose] at hclosed
    cases hclosed
  | some found =>
    rw [closeString?_followedBy hclose]
    rfl

end Closed

/-- A word, a number or an operator does not go on with a blank. -/
theorem isBlank_stops {b : Char} (h : isBlank b = true) :
    isDigit b = false ∧ isWordChar b = false ∧ b ≠ '.' ∧ b ≠ '/' ∧ b ≠ '*' ∧
      ∀ p ∈ Vocabulary.pairs, b ≠ p.second := by
  obtain rfl | rfl | rfl | rfl := isBlank_cases h <;> decide

section Blanks

variable {b c : Char} (hb : isBlank b = true) (cs ds : List Char)

include hb

theorem munchNumber_followedBy :
    munchNumber (cs ++ b :: ds) = (munchNumber cs).followedBy (b :: ds) := by
  obtain ⟨hdigit, -, hpoint, -⟩ := isBlank_stops hb
  unfold munchNumber
  rw [takeWhile_append_stop cs ds hdigit, dropWhile_append_stop cs ds hdigit]
  generalize cs.dropWhile isDigit = rest
  -- A point belongs to the number only if a digit is next, which a blank is not.
  match rest with
  | [] => simp [Piece.followedBy, hpoint]
  | [e] => by_cases he : e = '.' <;> simp [Piece.followedBy, he, hdigit]
  | e :: d :: rest =>
    by_cases he : e = '.'
    · subst he
      by_cases hd : isDigit d = true
      · simp [Piece.followedBy, hd, takeWhile_append_stop rest ds hdigit,
          dropWhile_append_stop rest ds hdigit]
      · simp [Piece.followedBy, hd]
    · simp [Piece.followedBy, he]

theorem munchWord_followedBy :
    munchWord c (cs ++ b :: ds) = (munchWord c cs).followedBy (b :: ds) := by
  obtain ⟨-, hword, -⟩ := isBlank_stops hb
  simp only [munchWord, Piece.followedBy, takeWhile_append_stop cs ds hword,
    dropWhile_append_stop cs ds hword]

theorem munchSlash_followedBy (hclosed : (munchSlash cs).find.isClosed = true)
    (hcomment : (munchSlash cs).find = .token .comment → b = '\n') :
    munchSlash (cs ++ b :: ds) = (munchSlash cs).followedBy (b :: ds) := by
  obtain ⟨-, -, -, hslash, hstar, -⟩ := isBlank_stops hb
  cases cs with
  | nil => simp [munchSlash, Piece.followedBy, hslash, hstar]
  | cons d cs =>
    by_cases hd : d = '/'
    · subst hd
      obtain rfl := hcomment rfl
      exact run_followedBy ('/' :: cs) ds .comment rfl
    by_cases hd' : d = '*'
    · subst hd'
      simp only [munchSlash, List.cons_append] at hclosed ⊢
      cases hclose : closeComment? cs with
      | none =>
        rw [hclose] at hclosed
        cases hclosed
      | some found =>
        rw [closeComment?_followedBy hclose]
        rfl
    · simp [munchSlash, Piece.followedBy, hd, hd']

theorem munchSymbol_followedBy :
    munchSymbol c (cs ++ b :: ds) = (munchSymbol c cs).followedBy (b :: ds) := by
  obtain ⟨-, -, -, -, -, hpairs⟩ := isBlank_stops hb
  unfold munchSymbol
  split
  · rfl
  · rename_i pair _ hpair
    have hsecond := hpairs pair (List.mem_of_find?_eq_some hpair)
    cases cs with
    | nil => simp [Piece.followedBy, hsecond]
    | cons d cs =>
      by_cases hd : d = pair.second <;> simp [Piece.followedBy, hd]
  · rfl

theorem munchAfter_followedBy (hc : isBlank c = false)
    (hclosed : (munchAfter c cs).find.isClosed = true)
    (hcomment : (munchAfter c cs).find = .token .comment → b = '\n') :
    munchAfter c (cs ++ b :: ds) = (munchAfter c cs).followedBy (b :: ds) := by
  by_cases hslash : c = '/'
  · subst hslash
    exact munchSlash_followedBy hb cs ds hclosed hcomment
  by_cases hquote : c = '"'
  · subst hquote
    exact munchString_followedBy hclosed (b :: ds)
  have hdigit := (isBlank_stops hb).1
  -- A point at the end of a text has no digit behind it, nor has one before a blank.
  have hhead : ((cs ++ b :: ds).head?.map isDigit).getD false =
      (cs.head?.map isDigit).getD false := by
    cases cs with
    | nil => exact hdigit
    | cons => rfl
  unfold munchAfter
  simp only [hc, hslash, hquote, hhead, Bool.false_eq_true, if_false]
  split
  · exact munchNumber_followedBy hb cs ds
  split
  · exact munchWord_followedBy hb cs ds
  split
  · exact run_followedBy cs ds .number hdigit
  · exact munchSymbol_followedBy hb cs ds

theorem munch_followedBy (hc : isBlank c = false) (hclosed : (munch c cs).find.isClosed = true)
    (hcomment : (munch c cs).find = .token .comment → b = '\n') :
    munch c (cs ++ b :: ds) = (munch c cs).followedBy (b :: ds) :=
  congrArg (Piece.withChar c) (munchAfter_followedBy hb cs ds hc hclosed hcomment)

end Blanks

end ScrapeScript
