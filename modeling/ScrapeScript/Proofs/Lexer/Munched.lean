import ScrapeScript.Proofs.Lexer.Patterns

namespace ScrapeScript

section Characters

variable {c : Char}

theorem isDigit_iff : isDigit c = true ↔ 48 ≤ c.toNat ∧ c.toNat ≤ 57 := by
  simp only [isDigit, Bool.and_eq_true, decide_eq_true_eq]
  exact Iff.rfl

theorem isWordStart_iff : isWordStart c = true ↔
    (97 ≤ c.toNat ∧ c.toNat ≤ 122 ∨ 65 ≤ c.toNat ∧ c.toNat ≤ 90) ∨ c = '_' := by
  simp only [isWordStart, Bool.or_eq_true, Bool.and_eq_true, decide_eq_true_eq, beq_iff_eq]
  exact Iff.rfl

theorem isBlank_cases (h : isBlank c = true) : c = ' ' ∨ c = '\t' ∨ c = '\r' ∨ c = '\n' := by
  simpa [isBlank, or_assoc] using h

theorem not_isBlank_of_isDigit (h : isDigit c = true) : isBlank c = false := by
  rw [← Bool.not_eq_true]
  intro hc
  obtain rfl | rfl | rfl | rfl := isBlank_cases hc <;> cases h

theorem not_isBlank_of_isWordStart (h : isWordStart c = true) : isBlank c = false := by
  rw [← Bool.not_eq_true]
  intro hc
  obtain rfl | rfl | rfl | rfl := isBlank_cases hc <;> cases h

theorem not_isDigit_of_isWordStart (h : isWordStart c = true) : isDigit c = false := by
  rw [← Bool.not_eq_true, isDigit_iff]
  rw [isWordStart_iff] at h
  obtain h | rfl := h
  · omega
  · decide

end Characters

section Dispatch

variable {c : Char} (cs : List Char)

theorem munchAfter_blank (h : isBlank c = true) :
    munchAfter c cs = .run .whitespace isBlank cs :=
  if_pos h

theorem munchAfter_digit (h : isDigit c = true) : munchAfter c cs = munchNumber cs := by
  simp [munchAfter, not_isBlank_of_isDigit h, h]

theorem munchAfter_wordStart (h : isWordStart c = true) : munchAfter c cs = munchWord c cs := by
  simp [munchAfter, not_isBlank_of_isWordStart h, not_isDigit_of_isWordStart h, h]

theorem munchAfter_point : munchAfter '.' cs =
    if (cs.head?.map isDigit).getD false then .run .number isDigit cs
    else ⟨.token .dot, [], cs⟩ := rfl

theorem munchAfter_slash : munchAfter '/' cs = munchSlash cs := rfl

theorem munchAfter_quote : munchAfter '"' cs = munchString cs := rfl

theorem munchAfter_pair {p : Vocabulary.Pair} (h : p ∈ Vocabulary.pairs) : munchAfter p.first cs =
    if cs.head? = some p.second then ⟨.token p.both, [p.second], cs.drop 1⟩
    else ⟨(p.alone.map Find.token).getD .unknown, [], cs⟩ := by
  simp only [Vocabulary.pairs, List.mem_cons, List.not_mem_nil, or_false] at h
  obtain rfl | rfl | rfl | rfl | rfl | rfl := h <;> rfl

theorem munchAfter_single {k : TokenKind} (h : (c, k) ∈ Vocabulary.singles) (hc : c ≠ '.') :
    munchAfter c cs = ⟨.token k, [], cs⟩ := by
  simp only [Vocabulary.singles, List.mem_cons, List.not_mem_nil, or_false, Prod.mk.injEq] at h
  rcases h with h | h | h | h | h | h | h | h | h | h | h | h | h <;> obtain ⟨rfl, rfl⟩ := h
  case inr.inr.inr.inr.inr.inr.inr.inl => exact absurd rfl hc
  all_goals rfl

end Dispatch

section Lengths

variable {α : Type} {p : α → Bool} {l r : List α}

/-- A run takes all that is of its class at the front. -/
theorem length_le_takeWhile (h : ∀ a ∈ l, p a = true) :
    l.length ≤ ((l ++ r).takeWhile p).length := by
  rw [List.takeWhile_append_of_pos h, List.length_append]
  exact Nat.le_add_right _ _

theorem takeWhile_eq_of_length (h : ∀ a ∈ l, p a = true)
    (hlength : l.length = ((l ++ r).takeWhile p).length) : (l ++ r).takeWhile p = l := by
  rw [List.takeWhile_append_of_pos h, List.length_append] at *
  have hnil : r.takeWhile p = [] := List.eq_nil_of_length_eq_zero (by omega)
  rw [hnil, List.append_nil]

end Lengths

/-- The kind of a find whose text is that of a token. -/
def Find.spelled? : Find → Option TokenKind
  | token kind => some kind
  | openComment => some .comment
  | openString | unknown => none

/-- A piece that is a token and no shorter than another one, nor of another kind if it is as
long. -/
def Piece.Covers (p : Piece) (k : TokenKind) (l : List Char) : Prop :=
  ∃ j, p.find.spelled? = some j ∧ l.length ≤ p.lexeme.length ∧
    (l.length = p.lexeme.length → j = k)

namespace Piece

variable {p : Piece} {k : TokenKind} {l : List Char}

theorem covers_of_le (hfind : p.find.spelled? = some k) (hl : l.length ≤ p.lexeme.length) :
    p.Covers k l :=
  ⟨k, hfind, hl, fun _ => rfl⟩

theorem covers_of_lt {j : TokenKind} (hfind : p.find.spelled? = some j)
    (hl : l.length < p.lexeme.length) : p.Covers k l :=
  ⟨j, hfind, Nat.le_of_lt hl, fun h => absurd h (Nat.ne_of_lt hl)⟩

theorem Covers.withChar (h : p.Covers k l) (c : Char) : (p.withChar c).Covers k (c :: l) := by
  obtain ⟨j, hfind, hl, hj⟩ := h
  exact ⟨j, hfind, Nat.succ_le_succ hl, fun h => hj (Nat.succ.inj h)⟩

theorem run_covers {q : Char → Bool} {r : List Char} (h : ∀ c ∈ l, q c = true) :
    (Piece.run k q (l ++ r)).Covers k l :=
  covers_of_le rfl (length_le_takeWhile h)

end Piece

namespace Vocabulary

theorem wordKind_of_mem {w : String} {k : TokenKind} (h : (w, k) ∈ reserved) : wordKind w = k := by
  simp only [reserved, List.mem_cons, List.not_mem_nil, or_false, Prod.mk.injEq] at h
  rcases h with h | h | h | h | h | h | h | h | h | h | h | h | h | h | h <;>
    obtain ⟨rfl, rfl⟩ := h <;> rfl

theorem wordKind_of_not_mem {w : String} (h : ∀ k, (w, k) ∉ reserved) :
    wordKind w = .identifier := by
  unfold wordKind
  cases hw : keywords.lookup w with
  | none => rfl
  | some k =>
    obtain ⟨us, vs, heq, -⟩ := List.lookup_eq_some_iff.1 hw
    exact absurd (mem_reserved.2 (by rw [heq]; simp)) (h k)

theorem wordKind_cases (w : String) :
    (w, wordKind w) ∈ reserved ∨ (∀ k, (w, k) ∉ reserved) ∧ wordKind w = .identifier := by
  by_cases h : ∃ k, (w, k) ∈ reserved
  · obtain ⟨k, hk⟩ := h
    exact .inl (wordKind_of_mem hk ▸ hk)
  · have h : ∀ k, (w, k) ∉ reserved := fun k hk => h ⟨k, hk⟩
    exact .inr ⟨h, wordKind_of_not_mem h⟩

end Vocabulary

section Covered

variable {c : Char} {cs l rest : List Char} {k : TokenKind}

theorem munchNumber_token (cs : List Char) :
    ∃ tail, (munchNumber cs).find = .token .number ∧
      (munchNumber cs).lexeme = cs.takeWhile isDigit ++ tail := by
  unfold munchNumber
  dsimp only
  split
  · split
    · exact ⟨_, rfl, rfl⟩
    · exact ⟨[], rfl, (List.append_nil _).symm⟩
  · exact ⟨[], rfl, (List.append_nil _).symm⟩

theorem munchNumber_covers (hl : ∀ d ∈ l, isDigit d = true) :
    (munchNumber (l ++ rest)).Covers .number l := by
  obtain ⟨tail, hfind, hlexeme⟩ := munchNumber_token (l ++ rest)
  refine Piece.covers_of_le (by rw [hfind]; rfl) ?_
  have hlength := length_le_takeWhile (r := rest) hl
  rw [hlexeme, List.length_append]
  omega

theorem munchNumber_point {d : Char} {es : List Char} (hl : ∀ d ∈ l, isDigit d = true)
    (hd : isDigit d = true) : munchNumber (l ++ '.' :: d :: es) =
      ⟨.token .number, l ++ '.' :: d :: es.takeWhile isDigit, es.dropWhile isDigit⟩ := by
  obtain ⟨htake, hdrop⟩ := span_isDigit_point (d :: es) hl
  simp [munchNumber, htake, hdrop, hd]

theorem munchWord_covers (hl : ∀ d ∈ l, isWordChar d = true)
    (hk : Vocabulary.wordKind (String.ofList (c :: l)) = k) :
    (munchWord c (l ++ rest)).Covers k l := by
  refine ⟨_, rfl, length_le_takeWhile hl, fun hlength => ?_⟩
  rw [takeWhile_eq_of_length hl hlength]
  exact hk

theorem munchSlash_covers_slash (cs : List Char) : (munchSlash cs).Covers .divide [] := by
  unfold munchSlash
  split
  · exact Piece.covers_of_lt rfl (Nat.succ_pos _)
  · split
    · exact Piece.covers_of_lt rfl (Nat.succ_pos _)
    · exact Piece.covers_of_lt rfl (Nat.succ_pos _)
  · exact Piece.covers_of_le rfl (Nat.le_refl _)

/-- A point with a digit after it is the beginning of a number, which is longer. -/
theorem munchAfter_point_covers_dot (cs : List Char) : (munchAfter '.' cs).Covers .dot [] := by
  rw [munchAfter_point]
  split
  · rename_i hd
    cases cs with
    | nil => cases hd
    | cons d cs =>
      have hd : isDigit d = true := hd
      exact Piece.covers_of_lt rfl (by simp [Piece.run, hd])
  · exact Piece.covers_of_le rfl (Nat.le_refl _)

theorem munch_covers_sign (h : (l, k) ∈ signs) (htext : l ++ rest = c :: cs) :
    ((munchAfter c cs).withChar c).Covers k l := by
  obtain ⟨p, hp, ⟨rfl, rfl⟩ | ⟨rfl, hk⟩⟩ | ⟨⟨d, k⟩, hsingle, rfl, rfl⟩ | ⟨rfl, rfl⟩ := mem_signs.1 h
  · rw [List.cons_append, List.cons.injEq] at htext
    obtain ⟨rfl, rfl⟩ := htext
    refine Piece.Covers.withChar ?_ p.first
    rw [munchAfter_pair _ hp, if_pos (by simp)]
    exact Piece.covers_of_le rfl (Nat.le_refl _)
  · cases htext
    refine Piece.Covers.withChar ?_ p.first
    rw [munchAfter_pair _ hp, hk]
    split
    · exact Piece.covers_of_lt rfl (Nat.succ_pos _)
    · exact Piece.covers_of_le rfl (Nat.le_refl _)
  · cases htext
    refine Piece.Covers.withChar ?_ d
    by_cases hpoint : d = '.'
    · subst hpoint
      obtain rfl : k = .dot := by simpa [Vocabulary.singles] using hsingle
      exact munchAfter_point_covers_dot _
    · rw [munchAfter_single _ hsingle hpoint]
      exact Piece.covers_of_le rfl (Nat.le_refl _)
  · cases htext
    exact (munchSlash_covers_slash _).withChar '/'

/-- Whatever pattern a text begins with, what is taken of it is no shorter. -/
theorem Spells.covers (h : Spells k l rest) (htext : l ++ rest = c :: cs) :
    (munch c cs).Covers k l := by
  unfold munch
  cases h with
  | whitespace rest hne hblank =>
    simp only [blank_iff] at hblank
    obtain ⟨d, l, rfl⟩ := List.exists_cons_of_ne_nil hne
    obtain ⟨hd, hl⟩ := List.forall_mem_cons.1 hblank
    cases htext
    rw [munchAfter_blank _ hd]
    exact (Piece.run_covers hl).withChar c
  | lineComment hbody hrest =>
    cases htext
    refine Piece.Covers.withChar ?_ '/'
    exact Piece.run_covers (l := '/' :: _) fun d hd => by
      rcases List.mem_cons.1 hd with rfl | hd
      · rfl
      · exact bne_iff_ne.2 fun h => hbody (h ▸ hd)
  | @blockComment body rest hbody =>
    have htext : '/' :: '*' :: (body ++ '*' :: '/' :: rest) = c :: cs := by simpa using htext
    cases htext
    refine Piece.Covers.withChar ?_ '/'
    rw [munchAfter_slash, munchSlash, closeComment?_append_end hbody]
    exact Piece.covers_of_le rfl (Nat.le_refl _)
  | @openComment body hbody =>
    have htext : '/' :: '*' :: body = c :: cs := by simpa using htext
    cases htext
    refine Piece.Covers.withChar ?_ '/'
    rw [munchAfter_slash, munchSlash, closeComment?_eq_none hbody]
    exact Piece.covers_of_le rfl (Nat.le_refl _)
  | @string body rest hbody =>
    have htext : '"' :: (body ++ '"' :: rest) = c :: cs := by simpa using htext
    cases htext
    refine Piece.Covers.withChar ?_ '"'
    rw [munchAfter_quote, munchString, closeString?_append_quote hbody]
    exact Piece.covers_of_le rfl (Nat.le_refl _)
  | number rest hne hdigits =>
    simp only [Decimal.digit_iff] at hdigits
    obtain ⟨d, l, rfl⟩ := List.exists_cons_of_ne_nil hne
    obtain ⟨hd, hl⟩ := List.forall_mem_cons.1 hdigits
    cases htext
    rw [munchAfter_digit _ hd]
    exact (munchNumber_covers hl).withChar c
  | decimal rest hne hdigits hne' hdigits' =>
    simp only [Decimal.digit_iff] at hdigits hdigits'
    obtain ⟨d, l, rfl⟩ := List.exists_cons_of_ne_nil hne
    obtain ⟨e, es, rfl⟩ := List.exists_cons_of_ne_nil hne'
    obtain ⟨hd, hl⟩ := List.forall_mem_cons.1 hdigits
    obtain ⟨he, hes⟩ := List.forall_mem_cons.1 hdigits'
    have htext : d :: (l ++ '.' :: e :: (es ++ rest)) = c :: cs := by simpa using htext
    cases htext
    rw [List.cons_append, munchAfter_digit _ hd, munchNumber_point hl he]
    refine Piece.Covers.withChar (Piece.covers_of_le rfl ?_) c
    have hlength := length_le_takeWhile (r := rest) hes
    simp only [List.length_append, List.length_cons]
    omega
  | fraction rest hne hdigits =>
    simp only [Decimal.digit_iff] at hdigits
    obtain ⟨e, es, rfl⟩ := List.exists_cons_of_ne_nil hne
    have he := (List.forall_mem_cons.1 hdigits).1
    rw [List.cons_append, List.cons.injEq] at htext
    obtain ⟨rfl, rfl⟩ := htext
    refine Piece.Covers.withChar ?_ '.'
    rw [munchAfter_point, if_pos (by simpa using he)]
    exact Piece.run_covers hdigits
  | keyword rest hc hl hk =>
    simp only [wordPart_iff] at hl
    cases htext
    rw [munchAfter_wordStart _ (wordStart_iff.1 hc)]
    exact (munchWord_covers hl (Vocabulary.wordKind_of_mem hk)).withChar _
  | name rest hc hl hk =>
    simp only [wordPart_iff] at hl
    cases htext
    rw [munchAfter_wordStart _ (wordStart_iff.1 hc)]
    exact (munchWord_covers hl (Vocabulary.wordKind_of_not_mem hk)).withChar _
  | sign rest hk => exact munch_covers_sign hk htext

end Covered

section Fits

variable {c : Char} {cs : List Char}

/-- What is found after a first character is what is spelled there. Only a quotation mark opens a
string, and what is unknown is the character alone. -/
def Piece.Fits (c : Char) (p : Piece) : Prop :=
  match p.find with
  | .token k => Spells k (c :: p.lexeme) p.rest
  | .openComment => Spells .comment (c :: p.lexeme) p.rest
  | .openString => c = '"' ∧ p.rest = []
  | .unknown => c ≠ '"' ∧ p.lexeme = []

theorem all_of_mem_takeWhile {p : Char → Bool} : ∀ c ∈ cs.takeWhile p, p c = true :=
  List.all_eq_true.1 List.all_takeWhile

/-- A run is of the class that its characters are told by. -/
theorem forall_mem_run {P : Char → Prop} {p : Char → Bool} (hp : ∀ {c}, P c ↔ p c = true)
    (hc : p c = true) : ∀ d ∈ c :: cs.takeWhile p, P d :=
  List.forall_mem_cons.2 ⟨hp.2 hc, fun d hd => hp.2 (all_of_mem_takeWhile d hd)⟩

theorem munchNumber_fits (hc : isDigit c = true) : (munchNumber cs).Fits c := by
  have hwhole : ∀ d ∈ c :: cs.takeWhile isDigit, Decimal.Digit d :=
    forall_mem_run Decimal.digit_iff hc
  unfold munchNumber
  dsimp only
  split
  · split
    · rename_i hd
      exact .decimal _ (List.cons_ne_nil c _) hwhole (List.cons_ne_nil _ _)
        (forall_mem_run Decimal.digit_iff hd)
    · exact .number _ (List.cons_ne_nil c _) hwhole
  · exact .number _ (List.cons_ne_nil c _) hwhole

theorem munchWord_fits (hc : isWordStart c = true) : (munchWord c cs).Fits c := by
  show Spells (Vocabulary.wordKind (String.ofList (c :: cs.takeWhile isWordChar))) _ _
  have hpart : ∀ d ∈ cs.takeWhile isWordChar, WordPart d :=
    fun d hd => wordPart_iff.2 (all_of_mem_takeWhile d hd)
  obtain hw | ⟨hw, hname⟩ :=
    Vocabulary.wordKind_cases (String.ofList (c :: cs.takeWhile isWordChar))
  · exact .keyword _ (wordStart_iff.2 hc) hpart hw
  · rw [hname]
    exact .name _ (wordStart_iff.2 hc) hpart hw

theorem munchSlash_fits : (munchSlash cs).Fits '/' := by
  unfold munchSlash
  split
  · rename_i cs
    show Spells .comment ('/' :: ('/' :: cs).takeWhile (· != '\n'))
      (('/' :: cs).dropWhile (· != '\n'))
    rw [List.takeWhile_cons_of_pos rfl, List.dropWhile_cons_of_pos rfl]
    refine .lineComment (fun h => ?_) fun d hd => ?_
    · exact absurd (all_of_mem_takeWhile _ h) nofun
    · have hstop := List.head?_dropWhile_not (· != '\n') cs
      rw [Option.mem_def.1 hd] at hstop
      simpa using hstop
  · rename_i cs
    obtain ⟨body, rest, hclose, hbody⟩ | ⟨hclose, hbody⟩ := closeComment?_spec cs
    · rw [hclose]
      exact .blockComment rest hbody
    · rw [hclose]
      exact .openComment hbody
  · exact .sign _ (mem_signs.2 (.inr (.inr ⟨rfl, rfl⟩)))

theorem munchString_fits : (munchString cs).Fits '"' := by
  unfold munchString
  split
  · rename_i hclose
    obtain ⟨body, rfl, hbody⟩ := closeString?_eq_some hclose
    exact .string _ hbody
  · exact ⟨rfl, rfl⟩

theorem munchSymbol_fits (hc : c ≠ '"') : (munchSymbol c cs).Fits c := by
  unfold munchSymbol
  split
  · rename_i hsingle
    obtain ⟨us, vs, heq, -⟩ := List.lookup_eq_some_iff.1 hsingle
    exact .sign cs (mem_signs.2 (.inr (.inl ⟨(c, _), by rw [heq]; simp, rfl, rfl⟩)))
  · rename_i pair _ hpair
    obtain rfl : pair.first = c := by simpa using List.find?_some hpair
    have hmem := List.mem_of_find?_eq_some hpair
    split
    · exact .sign _ (mem_signs.2 (.inl ⟨pair, hmem, .inl ⟨rfl, rfl⟩⟩))
    · cases halone : pair.alone with
      | none => exact ⟨hc, rfl⟩
      | some kind => exact .sign cs (mem_signs.2 (.inl ⟨pair, hmem, .inr ⟨rfl, halone⟩⟩))
  · exact ⟨hc, rfl⟩

theorem munchAfter_fits (c : Char) (cs : List Char) : (munchAfter c cs).Fits c := by
  unfold munchAfter
  split
  · rename_i hc
    exact .whitespace _ (List.cons_ne_nil c _) (forall_mem_run blank_iff hc)
  split
  · rename_i hc
    exact munchNumber_fits hc
  split
  · rename_i hc
    exact munchWord_fits hc
  split
  · rename_i hpoint
    rw [Bool.and_eq_true, decide_eq_true_eq] at hpoint
    obtain ⟨rfl, hd⟩ := hpoint
    cases cs with
    | nil => cases hd
    | cons d cs =>
      have hd : isDigit d = true := hd
      exact .fraction _ (by simp [Piece.run, hd])
        fun e he => Decimal.digit_iff.2 (all_of_mem_takeWhile e he)
  split
  · rename_i hc
    exact hc ▸ munchSlash_fits
  split
  · rename_i hc
    exact hc ▸ munchString_fits
  · rename_i hc
    exact munchSymbol_fits hc

end Fits

end ScrapeScript
