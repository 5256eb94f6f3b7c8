import ScrapeScript.Proofs.Lexer.Warnings
import ScrapeScript.Proofs.Parser.Correctness
import ScrapeScript.Script.Basic

namespace ScrapeScript

/-- The lexer knows more kinds of tokens than the grammar has a place for. -/
theorem TokenKind.ne_of_isTerminal {k : TokenKind} (h : k.isTerminal = true) :
    k ≠ .unknown ∧ k ≠ .leftBracket ∧ k ≠ .rightBracket ∧ k ≠ .dollar :=
  ⟨ne_of_class h rfl, ne_of_class h rfl, ne_of_class h rfl, ne_of_class h rfl⟩

namespace Script

variable {script : Script} {options : ParseOptions}

/-- Trivia and the end of the file aside, all tokens of a script reach the parser. -/
theorem exists_words (script : Script) : ∃ ts last, script.lexed.tokens = ts ++ [last] ∧
    script.tokens = dropTrivia ts ++ [last] ∧ last.kind = .endOfFile ∧
    ∀ t ∈ ts, t.kind ≠ .endOfFile := by
  obtain ⟨ts, hi, hpartition⟩ := scan_partition script.file .start script.source.toList
  obtain ⟨last, htokens, hlast, -⟩ := hpartition.tokens
  refine ⟨ts, last, htokens, ?_, hlast, fun t ht => (hpartition.kinds t ht).1⟩
  rw [← dropTrivia_concat hlast, ← htokens]
  rfl

/-- Where no fault is found, the grammar has a place for each token but the end of the file. -/
theorem terminals_of_ok {words : List Token} {last : Token} (h : (script.read options).ok = true)
    (htokens : script.tokens = words ++ [last]) (hwords : ∀ t ∈ words, t.kind ≠ .endOfFile)
    (hlast : last.kind = .endOfFile) : ∀ t ∈ words, t.kind.isTerminal = true := by
  have hclean := (TokenStream.ofTokens options.file script.tokens).parse_clean
    (List.isEmpty_iff.1 h)
  have hkept : dropTrivia script.tokens = script.tokens := by simp [tokens, dropTrivia]
  have hend : sentence [last] = [] := sentence_eq_nil hlast
  rw [TokenStream.sentence_ahead, hkept, htokens, sentence_append hwords, hend,
    List.append_nil] at hclean
  exact hclean.2.terminals

/-- A script that is read without faults has no token that the grammar has no place for, and at
most one warning: of a string or of a comment that nothing closes. -/
theorem warnings_of_ok (script : Script) (options : ParseOptions)
    (h : (script.read options).ok = true) :
    (∀ t ∈ script.tokens, t.kind ≠ .unknown ∧ t.kind ≠ .leftBracket ∧ t.kind ≠ .rightBracket ∧
      t.kind ≠ .dollar) ∧
    (script.read options).warnings.length ≤ 1 ∧
    ∀ f ∈ (script.read options).warnings, f.warning.diagnostic.code ≠ some "L001" ∧
      (f.warning.diagnostic.code = some "L002" ∨ f.warning.diagnostic.code = some "L003") := by
  obtain ⟨ts, last, hlexed, htokens, hlast, hts⟩ := script.exists_words
  have hwords : ∀ t ∈ dropTrivia ts, t.kind ≠ .endOfFile :=
    fun t ht => hts t (List.mem_filter.1 ht).1
  have hterminals := terminals_of_ok h htokens hwords hlast
  obtain ⟨ts', last', missing, hlexed', hfaults, hmissing⟩ :=
    scan_warnings script.file .start script.source.toList
  obtain ⟨rfl, -⟩ := List.append_inj' (hlexed.symm.trans hlexed') rfl
  have hunknown : unknownFaults ts = [] := by
    refine List.map_eq_nil_iff.2 (List.filter_eq_nil_iff.2 fun t ht hk => ?_)
    -- An unknown token is no trivia, so it is among those that reach the parser.
    have hk : t.kind = .unknown := beq_iff_eq.1 hk
    have hword : t ∈ dropTrivia ts := List.mem_filter.2 ⟨ht, by rw [Token.isTrivia, hk]; rfl⟩
    exact (TokenKind.ne_of_isTerminal (hterminals t hword)).1 hk
  have hwarnings : (script.read options).warnings = missing.toList := by
    rw [hunknown] at hfaults
    exact hfaults
  rw [hwarnings, htokens]
  refine ⟨List.forall_mem_append.2 ⟨fun t ht => TokenKind.ne_of_isTerminal (hterminals t ht), ?_⟩,
    Option.length_toList_le, fun f hf => ?_⟩
  · rw [List.forall_mem_singleton, hlast]
    decide
  · have hf := Option.mem_toList.1 hf
    exact ⟨hmissing.code_ne f hf, hmissing.code_eq f hf⟩

/-- A quotation mark behind all statements, which nothing closes. -/
theorem warnings_quotedEnd :
    let script : Script := ⟨"print(x); \"", "a"⟩
    (script.read).ok = true ∧ (script.read).warnings.length = 1 ∧
      (∀ t ∈ script.tokens, t.kind ≠ .unknown ∧ t.kind ≠ .leftBracket ∧ t.kind ≠ .rightBracket ∧
        t.kind ≠ .dollar) ∧
      ∀ f ∈ (script.read).warnings, f.warning.diagnostic.code ≠ some "L001" ∧
        (f.warning.diagnostic.code = some "L002" ∨ f.warning.diagnostic.code = some "L003") := by
  intro script
  have hok : (script.read).ok = true := by decide +kernel
  obtain ⟨htokens, -, hcodes⟩ := warnings_of_ok script {} hok
  exact ⟨hok, by decide +kernel, htokens, hcodes⟩

end Script

end ScrapeScript
