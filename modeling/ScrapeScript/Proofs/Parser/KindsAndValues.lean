import ScrapeScript.Proofs.Parser.Markers
import ScrapeScript.Proofs.Tree.Shapes

namespace ScrapeScript

/-- Two tokens of one kind, whose values are related. -/
structure Token.Alike (r : Value → Value → Prop) (t u : Token) : Prop where
  kind : t.kind = u.kind
  value : r t.value u.value

namespace TokenStream

variable {r : Value → Value → Prop} {stream stream' : TokenStream}

theorem getElem?_toList {i : Nat} (h : i < stream.ahead.length) :
    stream.toList[i]? = some stream.ahead[i] :=
  (List.getElem?_append_left h).trans (List.getElem?_eq_getElem h)

/-- The value of a marker is replaced by related values in streams that are alike. -/
theorem value_meant_markers (h : List.Forall₂ (Token.Alike r) stream.ahead stream'.ahead)
    {t : Token} (ht : t ∈ stream.markers.ahead) :
    r (t.value.meant stream.toList) (t.value.meant stream'.toList) := by
  obtain ⟨i, hi, rfl⟩ := List.mem_mapIdx.1 ht
  rw [List.length_map] at hi
  have hi' : i < stream'.ahead.length := h.length_eq ▸ hi
  unfold Value.meant
  rw [Token.index_marker, getElem?_toList hi, getElem?_toList hi']
  exact (h.get hi hi').value

/-- Whether the end of the tokens is an end of file, their kinds tell. -/
theorem ahead_eq_take (file : String) (ts : List Token) :
    (ofTokens file ts).ahead = (dropTrivia ts).take
      (if ((dropTrivia ts).map (·.kind)).getLast? = some .endOfFile
        then ((dropTrivia ts).map (·.kind)).length - 1
        else ((dropTrivia ts).map (·.kind)).length) := by
  unfold ofTokens
  dsimp only
  rw [List.getLast?_map, List.length_map]
  split
  · rename_i h
    simp [List.getLast?_eq_none_iff.1 h]
  · rename_i last h
    rw [h]
    by_cases hlast : last.kind = .endOfFile
    · simp [hlast, List.dropLast_eq_take]
    · simp [hlast]

theorem map_kind_of_alike {ts us : List Token} (h : List.Forall₂ (Token.Alike r) ts us) :
    ts.map (·.kind) = us.map (·.kind) := by
  rw [← List.forall₂_eq_eq_eq, List.forall₂_map_left_iff, List.forall₂_map_right_iff]
  exact h.imp fun _ _ h => h.kind

theorem ahead_alike {ts us : List Token} (file file' : String)
    (h : List.Forall₂ (Token.Alike r) (dropTrivia ts) (dropTrivia us)) :
    List.Forall₂ (Token.Alike r) (ofTokens file ts).ahead (ofTokens file' us).ahead := by
  rw [ahead_eq_take, ahead_eq_take, map_kind_of_alike h]
  exact List.forall₂_take _ h

end TokenStream

namespace Parser

/-- Two parsers that stop at the same index and make statements of the same shape, with tokens from
the same indices and related values. Their faults are reported with the same codes and messages, for
tokens at the same indices. -/
structure RunsAlike (r : Value → Value → Prop) (p q : Parser) : Prop where
  current : p.run.2.current = q.run.2.current
  shapes : p.run.1.map Stmt.shape = q.run.1.map Stmt.shape
  tokens : ∃ is : List Nat, is.Pairwise (· < ·) ∧
    is.map (p.stream.toList[·]?) = (Stmt.tokensOfAll p.run.1).map some ∧
    is.map (q.stream.toList[·]?) = (Stmt.tokensOfAll q.run.1).map some
  values : List.Forall₂ r (Stmt.valuesOfAll p.run.1) (Stmt.valuesOfAll q.run.1)
  faultTokens : ∃ is : List Nat, p.stream.InOrder is ∧
    is.map (p.stream.toList[·]?) = p.run.2.faults.map (·.error.token) ∧
    is.map (q.stream.toList[·]?) = q.run.2.faults.map (·.error.token)
  faultTexts :
    p.run.2.faults.map (fun f => (f.error.diagnostic.code, f.error.diagnostic.message)) =
      q.run.2.faults.map fun f => (f.error.diagnostic.code, f.error.diagnostic.message)

/-- With equal values, the statements of the first become those of the second when its tokens are
replaced. -/
theorem RunsAlike.replaced {p q : Parser} (h : RunsAlike (· = ·) p q) {ss : List Stmt}
    (hshape : ss.map Stmt.shape = p.run.1.map Stmt.shape)
    (hvalues : Stmt.valuesOfAll ss = Stmt.valuesOfAll p.run.1)
    (htokens : Stmt.tokensOfAll ss = Stmt.tokensOfAll q.run.1) : ss = q.run.1 := by
  have hequal : Stmt.valuesOfAll p.run.1 = Stmt.valuesOfAll q.run.1 :=
    List.forall₂_eq_eq_eq ▸ h.values
  exact Stmt.eq_of_leaves (hshape.trans h.shapes) htokens (hvalues.trans hequal)

/-- Parsing looks at no more than the kinds of the tokens that matter. What relates their values
relates the literals. -/
theorem run_alike {r : Value → Value → Prop} (ts us : List Token) (limit : Int)
    (file file' : String) (h : List.Forall₂ (Token.Alike r) (dropTrivia ts) (dropTrivia us)) :
    RunsAlike r (ofTokens ts ⟨limit, file⟩) (ofTokens us ⟨limit, file'⟩) := by
  let stream := TokenStream.ofTokens file ts
  let stream' := TokenStream.ofTokens file' us
  have halike : List.Forall₂ (Token.Alike r) stream.ahead stream'.ahead :=
    TokenStream.ahead_alike file file' h
  -- One stream of markers stands for both.
  have hmarkers : stream'.markers = stream.markers :=
    (TokenStream.markers_congr (TokenStream.map_kind_of_alike halike)).symm
  constructor
  case current =>
    show stream.ahead.length - (stream.parse limit).ahead.length =
      stream'.ahead.length - (stream'.parse limit).ahead.length
    rw [halike.length_eq, TokenStream.length_restored rfl, TokenStream.length_restored hmarkers]
  case shapes =>
    exact (TokenStream.shapes_restored rfl).trans (TokenStream.shapes_restored hmarkers).symm
  case tokens =>
    obtain ⟨is, hordered, htokens⟩ := stream.markers.exists_keptIndices limit
    exact ⟨is, hordered, TokenStream.tokens_restored rfl htokens,
      TokenStream.tokens_restored hmarkers htokens⟩
  case values =>
    show List.Forall₂ r (Stmt.valuesOfAll (stream.parse limit).statements)
      (Stmt.valuesOfAll (stream'.parse limit).statements)
    rw [TokenStream.values_restored rfl, TokenStream.values_restored hmarkers,
      List.forall₂_map_left_iff, List.forall₂_map_right_iff, List.forall₂_same]
    intro v hv
    obtain ⟨t, ht, rfl⟩ := (stream.markers.parse_picked limit).exists_value hv
    exact TokenStream.value_meant_markers halike ht
  case faultTokens =>
    obtain ⟨is, hordered, htokens⟩ := stream.markers.exists_faultIndices limit
    unfold TokenStream.InOrder at hordered
    rw [stream.size_markers] at hordered
    exact ⟨is, hordered, TokenStream.faultTokens_restored rfl htokens,
      TokenStream.faultTokens_restored hmarkers htokens⟩
  case faultTexts =>
    exact (TokenStream.faultTexts_restored rfl).trans
      (TokenStream.faultTexts_restored hmarkers).symm

/-- A call of a function that is not closed, then a declaration. -/
def openCall (name : String) (l : Location) : List Token :=
  [⟨.identifier, name, .null, l⟩, .ofKind .leftParen, .ofKind .number, .ofKind .semicolon,
    .ofKind .varWord, ⟨.identifier, name, .null, l⟩, .ofKind .semicolon, .endOfFile l]

theorem openCalls_alike :
    (ofTokens (openCall "f" ⟨"a", 1, 1, 0⟩) ⟨9, "a"⟩).run.2.faults.length = 1 ∧
      RunsAlike (· = ·) (ofTokens (openCall "f" ⟨"a", 1, 1, 0⟩) ⟨9, "a"⟩)
        (ofTokens (.ofKind .comment :: openCall "g" ⟨"b", 2, 3, 7⟩) ⟨9, "b"⟩) := by
  have hfaults : (ofTokens (openCall "f" ⟨"a", 1, 1, 0⟩) ⟨9, "a"⟩).run.2.faults.length = 1 := by
    decide +kernel
  refine ⟨hfaults, run_alike _ _ 9 "a" "b" ?_⟩
  have hname : Token.Alike (· = ·) ⟨.identifier, "f", .null, ⟨"a", 1, 1, 0⟩⟩
      ⟨.identifier, "g", .null, ⟨"b", 2, 3, 7⟩⟩ := ⟨rfl, rfl⟩
  have hend : Token.Alike (· = ·) (.endOfFile ⟨"a", 1, 1, 0⟩) (.endOfFile ⟨"b", 2, 3, 7⟩) :=
    ⟨rfl, rfl⟩
  have hself (t : Token) : Token.Alike (· = ·) t t := ⟨rfl, rfl⟩
  exact .cons hname <| .cons (hself _) <| .cons (hself _) <| .cons (hself _) <| .cons (hself _) <|
    .cons hname <| .cons (hself _) <| .cons hend .nil

end Parser

end ScrapeScript
