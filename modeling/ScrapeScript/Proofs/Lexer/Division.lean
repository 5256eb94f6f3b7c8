import ScrapeScript.Lexer.Basic
import ScrapeScript.Proofs.Lexer.Munched
import ScrapeScript.Proofs.Number.Nearest

namespace ScrapeScript

/-- A token without its place. -/
structure Word where
  kind : TokenKind
  lexeme : List Char
  value : Value
deriving DecidableEq

def Token.word (t : Token) : Word := ⟨t.kind, t.lexeme.toList, t.value⟩

def Word.endOfFile : Word := ⟨.endOfFile, [], .null⟩

/-- What a text of some kind stands for. -/
inductive Means : TokenKind → List Char → Value → Prop
  | number {cs : List Char} {q : ℚ} {x : Binary64} : Decimal.Writes cs q → x.Nearest q →
    Means .number cs (.number x)
  | string (cs : List Char) : Means .string ('"' :: (cs ++ ['"'])) (.string (String.ofList cs))
  | boolean (cs : List Char) : Means .boolean cs (.bool (String.ofList cs == "true"))
  | identifier (cs : List Char) : Means .identifier cs (.string (String.ofList cs))
  | nothing {k : TokenKind} (cs : List Char) : k ≠ .number → k ≠ .string → k ≠ .boolean →
    k ≠ .identifier → Means k cs .null

/-- The longest text at the front that spells a token. -/
structure Longest (k : TokenKind) (l rest : List Char) : Prop where
  spells : Spells k l rest
  length_le {j : TokenKind} {m r : List Char} : Spells j m r → m ++ r = l ++ rest →
    m.length ≤ l.length

/-- A text that begins with no token. -/
def Unspelled (cs : List Char) : Prop := ∀ k l r, Spells k l r → l ++ r ≠ cs

/-- A text taken apart, each time at the end of its longest token. A string that is not closed drops
the rest, and any other character that begins no token is an unknown one. -/
inductive Divides : List Char → List Word → Prop
  | nothing : Divides [] []
  | token {w : Word} {rest : List Char} {ws : List Word} : Longest w.kind w.lexeme rest →
    Means w.kind w.lexeme w.value → Divides rest ws → Divides (w.lexeme ++ rest) (w :: ws)
  | openString {rest : List Char} : Unspelled ('"' :: rest) → Divides ('"' :: rest) []
  | unknown {c : Char} {rest : List Char} {ws : List Word} : c ≠ '"' → Unspelled (c :: rest) →
    Divides rest ws → Divides (c :: rest) (⟨.unknown, [c], .null⟩ :: ws)

section Values

variable {k : TokenKind} {l rest : List Char} {v : Value}

theorem valueOf_string (cs : List Char) :
    TokenKind.string.valueOf ('"' :: (cs ++ ['"'])) = .string (String.ofList cs) := by
  simp [TokenKind.valueOf]

theorem Means.eq_valueOf (h : Means k l v) : v = k.valueOf l := by
  cases h with
  | number hwrites hnearest => exact congrArg Value.number (hnearest.unique hwrites.nearest)
  | string cs => exact (valueOf_string cs).symm
  | boolean | identifier => rfl
  | nothing _ hnumber hstring hboolean hidentifier =>
    unfold TokenKind.valueOf
    split <;> first | contradiction | rfl

theorem means_of_writes {q : ℚ} (h : Decimal.Writes l q) :
    Means .number l (TokenKind.number.valueOf l) :=
  .number h h.nearest

theorem means_of_ne (hnumber : k ≠ .number) (hstring : k ≠ .string) : Means k l (k.valueOf l) := by
  unfold TokenKind.valueOf
  split
  · exact absurd rfl hstring
  · exact absurd rfl hnumber
  · exact .boolean l
  · exact .identifier l
  · exact .nothing l hnumber hstring ‹_› ‹_›

theorem means_of_isListed (hk : k.isListed = true) : Means k l (k.valueOf l) :=
  means_of_ne (TokenKind.ne_of_class hk rfl) (TokenKind.ne_of_class hk rfl)

theorem Spells.means (h : Spells k l rest) : Means k l (k.valueOf l) := by
  cases h with
  | number _ _ hds => exact means_of_writes (.whole (Decimal.numeral_natOfDigits hds))
  | decimal _ _ hds _ hes =>
    exact means_of_writes (.point (Decimal.numeral_natOfDigits hds)
      (Decimal.numeral_natOfDigits hes))
  | fraction _ _ hes => exact means_of_writes (.point .nil (Decimal.numeral_natOfDigits hes))
  | string _ _ => exact valueOf_string _ ▸ .string _
  | keyword _ _ _ hk => exact means_of_isListed (isListed_of_mem_reserved hk)
  | sign _ hk => exact means_of_isListed (isListed_of_mem_signs hk)
  | whitespace | lineComment | blockComment | openComment | name =>
    exact means_of_ne nofun nofun

end Values

section Pieces

variable {c : Char} {cs l rest : List Char} {k : TokenKind}

theorem munch_spells (h : (munch c cs).find.spelled? = some k) :
    Spells k (munch c cs).lexeme (munch c cs).rest := by
  have hfits := munchAfter_fits c cs
  unfold Piece.Fits at hfits
  unfold munch Piece.withChar at h ⊢
  split at hfits <;> rename_i hfind <;> rw [hfind] at h <;> cases h <;> exact hfits

theorem munch_longest (h : (munch c cs).find.spelled? = some k) :
    Longest k (munch c cs).lexeme (munch c cs).rest where
  spells := munch_spells h
  length_le hspells htext := by
    obtain ⟨-, -, hle, -⟩ := hspells.covers (htext.trans (munch_append c cs))
    exact hle

theorem unspelled_of_munch (h : (munch c cs).find.spelled? = none) : Unspelled (c :: cs) := by
  intro k l r hspells htext
  obtain ⟨j, hfind, -⟩ := hspells.covers htext
  rw [h] at hfind
  cases hfind

/-- A longest token at the front is what is taken. -/
theorem Longest.eq_munch (h : Longest k l rest) (htext : l ++ rest = c :: cs) :
    l = (munch c cs).lexeme ∧ rest = (munch c cs).rest ∧
      (munch c cs).find.spelled? = some k := by
  have happend := munch_append c cs
  obtain ⟨j, hfind, hle, hkind⟩ := h.spells.covers htext
  have hge := h.length_le (munch_spells hfind) (happend.trans htext.symm)
  have hlength := Nat.le_antisymm hle hge
  obtain ⟨hl, hrest⟩ := List.append_inj (htext.trans happend.symm) hlength
  exact ⟨hl, hrest, hkind hlength ▸ hfind⟩

/-- What spells no token is a string that is not closed, or one unknown character. -/
theorem munch_of_unspelled (h : Unspelled (c :: cs)) :
    (c = '"' ∧ (munch c cs).find = .openString ∧ (munch c cs).rest = []) ∨
      (c ≠ '"' ∧ (munch c cs).find = .unknown ∧ (munch c cs).lexeme = [c] ∧
        (munch c cs).rest = cs) := by
  have hspelled : (munch c cs).find.spelled? = none := by
    cases hfind : (munch c cs).find.spelled? with
    | none => rfl
    | some k => exact absurd (munch_append c cs) (h k _ _ (munch_spells hfind))
  have hfits := munchAfter_fits c cs
  have happend := munchAfter_append c cs
  unfold Piece.Fits at hfits
  unfold munch Piece.withChar at hspelled ⊢
  cases hfind : (munchAfter c cs).find with
  | token | openComment =>
    rw [hfind] at hspelled
    cases hspelled
  | openString =>
    rw [hfind] at hfits
    exact .inl ⟨hfits.1, rfl, hfits.2⟩
  | unknown =>
    rw [hfind] at hfits
    obtain ⟨hc, hlexeme⟩ := hfits
    rw [hlexeme] at happend ⊢
    exact .inr ⟨hc, rfl, rfl, happend⟩

end Pieces

section Runs

variable {cs : List Char} {ws : List Word}

theorem Find.kind?_of_spelled? {f : Find} {k : TokenKind} (h : f.spelled? = some k) :
    f.kind? = some k := by
  cases f <;> simp_all [Find.spelled?, Find.kind?]

theorem word_ofLexeme (k : TokenKind) (l : List Char) (location : Location) :
    (Token.ofLexeme k l location).word = ⟨k, l, k.valueOf l⟩ := by
  simp [Token.word, Token.ofLexeme]

theorem scan_nil (file : String) (p : Position) :
    scan file p [] = ⟨[.endOfFile (p.inFile file)], [], p⟩ := by
  rw [scan]

theorem scan_cons (file : String) (p : Position) (c : Char) (cs : List Char) :
    scan file p (c :: cs) =
      let rest := scan file (p.after (munch c cs).lexeme) (munch c cs).rest
      ⟨(munch c cs).tokens (p.inFile file) ++ rest.tokens,
        (munch c cs).faults (p.inFile file) ++ rest.faults, rest.stop⟩ := by
  rw [scan]

theorem Divides.words_scan (h : Divides cs ws) (file : String) (p : Position) :
    (scan file p cs).tokens.map Token.word = ws ++ [.endOfFile] := by
  induction h generalizing p with
  | nothing =>
    rw [scan_nil]
    rfl
  | @token w rest ws hlongest hmeans _ ih =>
    obtain ⟨c, cs, htext⟩ := List.exists_cons_of_ne_nil
      (List.append_ne_nil_of_left_ne_nil hlongest.spells.ne_nil rest)
    obtain ⟨hlexeme, hrest, hfind⟩ := hlongest.eq_munch htext
    rw [htext, scan_cons]
    dsimp only
    rw [← hrest, List.map_append, ih, Piece.tokens, Find.kind?_of_spelled? hfind, ← hlexeme]
    simp [word_ofLexeme, ← hmeans.eq_valueOf]
  | @openString rest hunspelled =>
    obtain ⟨-, hfind, hrest⟩ | ⟨hquote, -⟩ := munch_of_unspelled hunspelled
    · rw [scan_cons, Piece.tokens, hfind, hrest, scan_nil]
      rfl
    · exact absurd rfl hquote
  | @unknown c rest ws hc hunspelled _ ih =>
    obtain ⟨hquote, -⟩ | ⟨-, hfind, hlexeme, hrest⟩ := munch_of_unspelled hunspelled
    · exact absurd hquote hc
    · rw [scan_cons]
      dsimp only
      rw [hrest, List.map_append, ih, Piece.tokens, hfind, hlexeme]
      simp [Find.kind?, word_ofLexeme, TokenKind.valueOf]

/-- Any text can be taken apart. -/
theorem exists_divides (cs : List Char) : ∃ ws, Divides cs ws := by
  induction cs using munch_induction with
  | nil => exact ⟨[], .nothing⟩
  | cons c cs ih =>
    obtain ⟨ws, hws⟩ := ih
    cases hfind : (munch c cs).find.spelled? with
    | some k =>
      have hlongest := munch_longest hfind
      let w : Word := ⟨k, (munch c cs).lexeme, k.valueOf (munch c cs).lexeme⟩
      refine ⟨w :: ws, ?_⟩
      rw [← munch_append c cs]
      exact .token (w := w) hlongest hlongest.spells.means hws
    | none =>
      have hunspelled := unspelled_of_munch hfind
      obtain ⟨rfl, -⟩ | ⟨hc, -, -, hrest⟩ := munch_of_unspelled hunspelled
      · exact ⟨[], .openString hunspelled⟩
      · exact ⟨_, .unknown hc hunspelled (hrest ▸ hws)⟩

end Runs

/-- A run of the lexer takes its text apart in the one way there is, and the end of the file is the
last token. -/
theorem Lexer.divides_iff (lexer : Lexer) (ws : List Word) :
    Divides lexer.source.toList ws ↔ lexer.run.tokens.map Token.word = ws ++ [.endOfFile] := by
  have hscan {ws : List Word} (h : Divides lexer.source.toList ws) :
      lexer.run.tokens.map Token.word = ws ++ [.endOfFile] :=
    h.words_scan lexer.file Position.start
  refine ⟨hscan, fun h => ?_⟩
  obtain ⟨ws', hws'⟩ := exists_divides lexer.source.toList
  rw [hscan hws'] at h
  exact List.append_cancel_right h ▸ hws'

/-- A number with a point in it, and after it a point that is a token by itself. -/
theorem Lexer.divides_point :
    let lexer : Lexer := { source := "12.5." }
    let x : Binary64 := ⟨0x4029000000000000⟩
    let words : List Word := [⟨.number, ['1', '2', '.', '5'], .number x⟩, ⟨.dot, ['.'], .null⟩]
    Decimal.Writes ['1', '2', '.', '5'] (25 / 2) ∧ x.ratio = 25 / 2 ∧
      lexer.run.tokens.map Token.word = words ++ [.endOfFile] ∧
      Divides lexer.source.toList words := by
  intro lexer x words
  have hwrites : Decimal.Writes ['1', '2', '.', '5'] (25 / 2) := by
    have hwhole : Decimal.Numeral ['1', '2'] 12 :=
      .cons (v := 1) (by decide) (.cons (v := 2) (by decide) .nil)
    have hpart : Decimal.Numeral ['5'] 5 := .cons (v := 5) (by decide) .nil
    have hvalue : ((12 : Nat) + (5 : Nat) / 10 ^ ['5'].length : ℚ) = 25 / 2 := by norm_num
    exact hvalue ▸ .point hwhole hpart
  have hratio : x.ratio = 25 / 2 := by
    have hunits : x.units * 2 = 25 * Binary64.unitsPerOne := by decide +kernel
    have hone : (Binary64.unitsPerOne : ℚ) ≠ 0 := Nat.cast_ne_zero.2 (twoTo_pos 1074).ne'
    rw [Binary64.ratio, div_eq_div_iff hone two_ne_zero]
    exact_mod_cast hunits
  have hrun : lexer.run.tokens.map Token.word = words ++ [.endOfFile] := by decide +kernel
  exact ⟨hwrites, hratio, hrun, (divides_iff lexer words).2 hrun⟩

end ScrapeScript
