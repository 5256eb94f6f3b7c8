import ScrapeScript.Proofs.Parser.Correctness
import ScrapeScript.Proofs.Parser.RoutinesCarried

namespace ScrapeScript

/-- What is parsed without meeting the limit is parsed in the same way under a higher one. -/
theorem TokenStream.parse_of_le (stream : TokenStream) {limit limit' : Int} (h : limit ≤ limit')
    (hdeep : ∀ f ∈ (stream.parse limit).faults, ¬f.IsTooDeep) :
    stream.parse limit' = stream.parse limit := by
  have hstmt : (Recast.deeper stream.final h).stmt = id := funext Stmt.mapLeaves_id
  have hfault : (Recast.deeper stream.final h).fault = id := rfl
  have hrecast := parse_recast (Recast.deeper stream.final h) (List.map_id _).symm (.inr hdeep)
  rw [hrecast, hstmt, hfault, List.map_id, List.map_id]
  exact congrArg _ (List.map_id _)

namespace Parser

/-- A higher limit makes no difference to a run in which nothing is nested too deep, whatever other
faults it finds. -/
theorem run_of_le_limit (ts : List Token) (file : String) {limit limit' : Int}
    (h : limit ≤ limit')
    (hdeep : ∀ f ∈ (ofTokens ts ⟨limit, file⟩).run.2.faults,
      f.error.diagnostic.code ≠ some "P013") :
    (ofTokens ts ⟨limit', file⟩).run.1 = (ofTokens ts ⟨limit, file⟩).run.1 ∧
      (ofTokens ts ⟨limit', file⟩).run.2.faults = (ofTokens ts ⟨limit, file⟩).run.2.faults ∧
      (ofTokens ts ⟨limit', file⟩).run.2.current = (ofTokens ts ⟨limit, file⟩).run.2.current := by
  let stream := TokenStream.ofTokens file ts
  have hparse : stream.parse limit' = stream.parse limit :=
    stream.parse_of_le h fun f hf htoo => hdeep f hf (f.code_eq_tooDeep_iff.2 htoo)
  refine ⟨congrArg Parsed.statements hparse, congrArg Parsed.faults hparse, ?_⟩
  exact congrArg (fun parsed => stream.ahead.length - parsed.ahead.length) hparse

/-- A block with a value that has no target, then one that is not closed. -/
def spoiltBlocks : List Token :=
  [.leftBrace, .number, .equals, .identifier, .semicolon, .rightBrace, .leftBrace, .identifier,
    .endOfFile].map Token.ofKind

theorem run_spoiltBlocks_deeper :
    (ofTokens spoiltBlocks ⟨4, ""⟩).run.2.faults.length = 3 ∧
      (ofTokens spoiltBlocks ⟨50, ""⟩).run.2.faults =
        (ofTokens spoiltBlocks ⟨4, ""⟩).run.2.faults := by
  have hfaults : (ofTokens spoiltBlocks ⟨4, ""⟩).run.2.faults.length = 3 := by decide +kernel
  exact ⟨hfaults, (run_of_le_limit spoiltBlocks "" (by decide) (by decide +kernel)).2.1⟩

end Parser

end ScrapeScript
