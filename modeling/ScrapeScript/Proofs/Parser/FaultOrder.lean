import ScrapeScript.Proofs.Parser.Correctness
import ScrapeScript.Proofs.Parser.Cursor
import ScrapeScript.Proofs.Parser.RoutinesCarried

namespace ScrapeScript

theorem SyntaxFault.error_place (f : SyntaxFault) :
    f.error.token = some f.token ∧ f.error.diagnostic.location = f.token.location := by
  obtain ⟨cause, t⟩ := f
  cases cause <;> exact ⟨rfl, rfl⟩

/-- Indices of a stream in their order. Only the last of all may come more than once. -/
def TokenStream.InOrder (stream : TokenStream) (is : List Nat) : Prop :=
  is.Pairwise fun i j => i < j ∨ i + 1 = stream.size ∧ j = i

namespace Located

variable {final : Token} {us vs : List Token} {fs : List SyntaxFault}

theorem sign (h : Located final us fs vs) {f : SyntaxFault} (hf : f ∈ fs)
    (hcause : f.cause = .assignmentTarget) : f.token.kind = .equals := by
  induction h with
  | nothing => cases hf
  | next _ hat _ ih =>
    obtain rfl | hf := List.mem_cons.1 hf
    · exact hat.sign hcause
    · exact ih hf

/-- Faults that are located in a stream have indices there, none of them before the first place. -/
theorem exists_indices {stream : TokenStream} (h : Located stream.final us fs vs)
    (hus : us <:+ stream.ahead) :
    ∃ is : List Nat, is.map (stream.toList[·]?) = fs.map (fun f => some f.token) ∧
      stream.InOrder is ∧ ∀ i ∈ is, stream.indexOf us ≤ i ∧ i < stream.size := by
  generalize hfinal : stream.final = final at h
  induction h with
  | nothing => exact ⟨[], rfl, .nil, nofun⟩
  | @next us ts _ _ fs hts hat _ ih =>
    have htail : ts.tail <:+ ts := List.tail_suffix ts
    have hstream : ts <:+ stream.ahead := hts.trans hus
    obtain ⟨is, htokens, horder, hbounds⟩ := ih (htail.trans hstream)
    have hfirst : stream.indexOf us ≤ stream.indexOf ts := TokenStream.indexOf_le hts.length_le
    refine ⟨stream.indexOf ts :: is, ?_, .cons (fun i hi => ?_) horder, ?_⟩
    · rw [List.map_cons, List.map_cons, TokenStream.getElem?_indexOf hstream, htokens, hat.token,
        hfinal]
    · obtain ⟨hle, hlt⟩ := hbounds i hi
      -- Behind the final token there is no other place, so that its index comes again.
      cases ts with
      | nil =>
        have hlast : stream.indexOf [] + 1 = stream.size := rfl
        have hle : stream.indexOf [] ≤ i := hle
        exact .inr ⟨hlast, by omega⟩
      | cons t rest =>
        have hstep := TokenStream.indexOf_tail hstream
        rw [List.tail_cons] at hle
        exact .inl (by omega)
    · refine List.forall_mem_cons.2 ⟨⟨hfirst, stream.indexOf_lt_size ts⟩, fun i hi => ?_⟩
      obtain ⟨hle, hlt⟩ := hbounds i hi
      have hnext : stream.indexOf ts ≤ stream.indexOf ts.tail :=
        TokenStream.indexOf_le htail.length_le
      exact ⟨by omega, hlt⟩

end Located

theorem TokenStream.parse_located (stream : TokenStream) (limit : Int) :
    ∃ vs, Located stream.final stream.ahead (stream.parse limit).faults vs := by
  have horderly := (Rule.program_carries (c := .refl ⟨limit, stream.final⟩)).orderly
  obtain ⟨fs, hfs, hlocated⟩ := horderly.located (.start _ stream.ahead)
  rw [faults_parse, hfs]
  exact ⟨_, hlocated⟩

/-- Each fault is reported at the token that is refused. These tokens stand in the stream in the
order of the faults, and no two at one place, unless it is the end. -/
theorem Parser.faults_in_order (ts : List Token) (options : ParseOptions) :
    (∀ f ∈ (ofTokens ts options).run.2.faults,
      f.error.token = some f.token ∧ f.error.diagnostic.location = f.token.location ∧
        (f.error.diagnostic.code = some "P006" → f.token.kind = .equals)) ∧
      ∃ is : List Nat,
        is.map ((ofTokens ts options).stream.toList[·]?) =
          (ofTokens ts options).run.2.faults.map (fun f => some f.token) ∧
        (ofTokens ts options).stream.InOrder is := by
  obtain ⟨vs, hlocated⟩ := (ofTokens ts options).stream.parse_located options.limit
  constructor
  · intro f hf
    obtain ⟨htoken, hlocation⟩ := f.error_place
    exact ⟨htoken, hlocation, fun hcode => hlocated.sign hf (f.cause_of_code hcode)⟩
  · obtain ⟨is, htokens, horder, -⟩ := hlocated.exists_indices (List.suffix_refl _)
    exact ⟨is, htokens, horder⟩

end ScrapeScript
