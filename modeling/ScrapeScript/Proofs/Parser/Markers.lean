import ScrapeScript.Proofs.Parser.FaultOrder
import ScrapeScript.Proofs.Parser.KeptTokens

namespace ScrapeScript

namespace Picked

variable {slots : List Slot} {ts : List Token}

theorem tokens_sublist (h : Picked slots ts) : (slots.filterMap Slot.token?).Sublist ts := by
  induction h with
  | nil => exact List.nil_sublist _
  | @cons a u slots ts hu _ ih =>
    cases a with
    | kept t =>
      obtain rfl : u = t := hu
      exact ih.cons_cons u
    | _ => exact ih.cons u
  | cons_right _ ih => exact ih.cons _

theorem exists_admitted (h : Picked slots ts) {a : Slot} (ha : a ∈ slots) :
    ∃ t ∈ ts, a.Admits t := by
  induction h with
  | nil => cases ha
  | @cons _ u _ _ hu _ ih =>
    obtain rfl | ha := List.mem_cons.1 ha
    · exact ⟨u, List.mem_cons_self, hu⟩
    · obtain ⟨t, ht, hat⟩ := ih ha
      exact ⟨t, List.mem_cons_of_mem u ht, hat⟩
  | cons_right _ ih =>
    obtain ⟨t, ht, hat⟩ := ih ha
    exact ⟨t, List.mem_cons_of_mem _ ht, hat⟩

theorem exists_value (h : Picked slots ts) {v : Value} (hv : v ∈ slots.filterMap Slot.value?) :
    ∃ t ∈ ts, t.value = v := by
  obtain ⟨a, ha, hav⟩ := List.mem_filterMap.1 hv
  obtain ⟨t, ht, hat⟩ := h.exists_admitted ha
  cases a with
  | literal w =>
    obtain rfl : w = v := Option.some.inj hav
    exact ⟨t, ht, hat.2⟩
  | _ => cases hav

end Picked

namespace TokenStream

theorem exists_keptIndices (stream : TokenStream) (limit : Int) :
    ∃ is : List Nat, is.Pairwise (· < ·) ∧
      is.map (stream.toList[·]?) = (Stmt.tokensOfAll (stream.parse limit).statements).map some :=
  exists_indices_of_sublist
    ((stream.parse_picked limit).tokens_sublist.trans (List.sublist_append_left _ _))

theorem exists_faultIndices (stream : TokenStream) (limit : Int) :
    ∃ is : List Nat, stream.InOrder is ∧
      is.map (stream.toList[·]?) = ((stream.parse limit).faults.map (·.token)).map some := by
  obtain ⟨vs, hlocated⟩ := stream.parse_located limit
  obtain ⟨is, htokens, horder, -⟩ := hlocated.exists_indices (List.suffix_refl _)
  exact ⟨is, horder, by rw [htokens, List.map_map]; rfl⟩

end TokenStream

/-- A value that stands for an index. -/
def Value.ofIndex (i : Nat) : Value := .string (String.ofList (List.replicate i ' '))

def Value.index : Value → Nat
  | .string s => s.length
  | _ => 0

theorem Value.index_ofIndex (i : Nat) : (Value.ofIndex i).index = i := by
  simp [ofIndex, index]

/-- The value at the index that a value stands for. -/
def Value.meant (ts : List Token) (v : Value) : Value :=
  match ts[v.index]? with
  | some u => u.value
  | none => v

namespace Token

/-- A token that stands for the one at an index. -/
def marker (k : TokenKind) (i : Nat) : Token := { Token.ofKind k with value := .ofIndex i }

theorem index_marker (k : TokenKind) (i : Nat) : (marker k i).value.index = i :=
  Value.index_ofIndex i

/-- The token at the index that a marker stands for. -/
def meant (ts : List Token) (t : Token) : Token :=
  match ts[t.value.index]? with
  | some u => { u with kind := t.kind }
  | none => t

theorem value_meant (ts : List Token) (t : Token) : (t.meant ts).value = t.value.meant ts := by
  unfold meant Value.meant
  cases ts[t.value.index]? <;> rfl

theorem kind_meant (ts : List Token) (t : Token) : (t.meant ts).kind = t.kind := by
  unfold meant
  cases ts[t.value.index]? <;> rfl

theorem meant_marker {ts : List Token} {t : Token} {i : Nat} (h : ts[i]? = some t) :
    (marker t.kind i).meant ts = t := by
  unfold meant
  rw [index_marker, h]
  rfl

end Token

namespace SyntaxFault

def meant (ts : List Token) (f : SyntaxFault) : SyntaxFault := ⟨f.cause, f.token.meant ts⟩

/-- What is reported depends on no more of a token than its kind. -/
theorem error_meant (ts : List Token) (f : SyntaxFault) :
    (f.meant ts).error.diagnostic.code = f.error.diagnostic.code ∧
      (f.meant ts).error.diagnostic.message = f.error.diagnostic.message := by
  obtain ⟨cause, t⟩ := f
  cases cause <;> refine ⟨rfl, ?_⟩ <;>
    simp [meant, error, SyntaxError.unexpected, SyntaxError.unexpectedMessage,
      SyntaxError.notExpression, SyntaxError.notAssignable, SyntaxError.tooDeep,
      SyntaxError.atToken, SyntaxError.make, Token.kind_meant]

end SyntaxFault

namespace TokenStream

variable {stream stream' : TokenStream}

/-- A stream with a marker for each of its tokens. -/
def markers (stream : TokenStream) : TokenStream :=
  ⟨(stream.ahead.map (·.kind)).mapIdx fun i k => .marker k i,
    .marker .endOfFile (stream.ahead.map (·.kind)).length, rfl⟩

theorem markers_congr (h : stream.ahead.map (·.kind) = stream'.ahead.map (·.kind)) :
    stream.markers = stream'.markers := by
  unfold markers
  simp only [h]

theorem size_markers (stream : TokenStream) : stream.markers.size = stream.size := by
  simp [markers, size]

theorem toList_markers (stream : TokenStream) :
    stream.markers.toList = stream.toList.mapIdx fun i t => .marker t.kind i := by
  have hahead : stream.markers.ahead = stream.ahead.mapIdx fun i t => .marker t.kind i := by
    apply List.ext_getElem?
    intro i
    rw [markers, List.getElem?_mapIdx, List.getElem?_mapIdx, List.getElem?_map, Option.map_map]
    rfl
  rw [toList, toList, hahead, List.mapIdx_concat, stream.final_kind]
  simp [markers]

theorem map_meant_markers (stream : TokenStream) :
    stream.markers.toList.map (Token.meant stream.toList) = stream.toList := by
  apply List.ext_getElem?
  intro i
  rw [toList_markers, List.getElem?_map, List.getElem?_mapIdx]
  cases h : stream.toList[i]? with
  | none => rfl
  | some t => exact congrArg some (Token.meant_marker h)

theorem ahead_final_meant (stream : TokenStream) :
    stream.markers.ahead.map (Token.meant stream.toList) = stream.ahead ∧
      stream.markers.final.meant stream.toList = stream.final := by
  have hmap : (stream.markers.ahead ++ [stream.markers.final]).map (Token.meant stream.toList) =
      stream.ahead ++ [stream.final] := stream.map_meant_markers
  rw [List.map_append] at hmap
  obtain ⟨hahead, hfinal⟩ := List.append_inj' hmap rfl
  exact ⟨hahead, List.singleton_inj.1 hfinal⟩

/-- Each marker is replaced by what it stands for. -/
def restore (stream : TokenStream) (limit : Int) :
    Recast ⟨limit, stream.markers.final⟩ ⟨limit, stream.final⟩ where
  token := Token.meant stream.toList
  value := Value.meant stream.toList
  kind_eq := Token.kind_meant stream.toList
  value_eq := Token.value_meant stream.toList
  final_eq := stream.ahead_final_meant.2.symm
  limit_le := Int.le_refl limit

/-- Parsing does nothing with tokens and values but to hand them on. -/
theorem parse_markers (stream : TokenStream) (limit : Int) :
    stream.parse limit =
      ⟨(stream.markers.parse limit).statements.map
          (Stmt.mapLeaves (Token.meant stream.toList) (Value.meant stream.toList)),
        (stream.markers.parse limit).faults.map (SyntaxFault.meant stream.toList),
        (stream.markers.parse limit).ahead.map (Token.meant stream.toList)⟩ :=
  parse_recast (stream.restore limit) stream.ahead_final_meant.1.symm (.inl rfl)

section Restored

variable {m : TokenStream} {limit : Int} {is : List Nat} (hm : stream.markers = m)

include hm

theorem indices_restored {us : List Token} (h : is.map (m.toList[·]?) = us.map some) :
    is.map (stream.toList[·]?) = (us.map (Token.meant stream.toList)).map some := by
  subst hm
  calc is.map (stream.toList[·]?)
    _ = (is.map (stream.markers.toList[·]?)).map (Option.map (Token.meant stream.toList)) := by
      conv_lhs => rw [← stream.map_meant_markers]
      simp
    _ = (us.map (Token.meant stream.toList)).map some := by
      rw [h]
      simp

theorem length_restored :
    (stream.parse limit).ahead.length = (m.parse limit).ahead.length := by
  subst hm
  rw [parse_markers, List.length_map]

theorem shapes_restored : (stream.parse limit).statements.map Stmt.shape =
    (m.parse limit).statements.map Stmt.shape := by
  subst hm
  rw [parse_markers, List.map_map]
  exact List.map_congr_left fun s _ => s.shape_mapLeaves _ _

theorem tokens_restored
    (h : is.map (m.toList[·]?) = (Stmt.tokensOfAll (m.parse limit).statements).map some) :
    is.map (stream.toList[·]?) =
      (Stmt.tokensOfAll (stream.parse limit).statements).map some := by
  have hindices := indices_restored hm h
  subst hm
  rw [hindices, stream.parse_markers, Stmt.tokensOfAll_map]

theorem values_restored : Stmt.valuesOfAll (stream.parse limit).statements =
    (Stmt.valuesOfAll (m.parse limit).statements).map (Value.meant stream.toList) := by
  subst hm
  rw [stream.parse_markers, Stmt.valuesOfAll_map]

theorem faultTokens_restored
    (h : is.map (m.toList[·]?) = ((m.parse limit).faults.map (·.token)).map some) :
    is.map (stream.toList[·]?) = (stream.parse limit).faults.map (·.error.token) := by
  have hindices := indices_restored hm h
  subst hm
  rw [hindices, stream.parse_markers]
  simp only [List.map_map]
  exact List.map_congr_left fun f _ => (f.meant stream.toList).error_place.1.symm

theorem faultTexts_restored :
    (stream.parse limit).faults.map
        (fun f => (f.error.diagnostic.code, f.error.diagnostic.message)) =
      (m.parse limit).faults.map
        fun f => (f.error.diagnostic.code, f.error.diagnostic.message) := by
  subst hm
  rw [parse_markers, List.map_map]
  refine List.map_congr_left fun f _ => ?_
  obtain ⟨hcode, hmessage⟩ := f.error_meant stream.toList
  exact Prod.ext hcode hmessage

end Restored

end TokenStream

end ScrapeScript
