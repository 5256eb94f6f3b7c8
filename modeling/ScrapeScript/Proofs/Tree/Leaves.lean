import ScrapeScript.Proofs.Grammar.Spelling

namespace ScrapeScript

/-- An expression has a property if each has it whose parts have it. -/
@[elab_as_elim, induction_eliminator]
theorem Expr.induction {motive : Expr → Prop}
    (binary : ∀ l op r, motive l → motive r → motive (.binary l op r))
    (grouping : ∀ e, motive e → motive (.grouping e))
    (literal : ∀ v, motive (.literal v))
    («variable» : ∀ t, motive (.variable t))
    (unary : ∀ op e, motive e → motive (.unary op e))
    (call : ∀ e paren as, motive e → (∀ a ∈ as, motive a) → motive (.call e paren as))
    (property : ∀ e name, motive e → motive (.property e name)) (e : Expr) : motive e :=
  @Expr.rec motive (fun as => ∀ a ∈ as, motive a) binary grouping literal «variable» unary call
    property nofun (fun _ _ ha has => List.forall_mem_cons.2 ⟨ha, has⟩) e

/-- A statement has a property if each has it whose branches have it. -/
@[elab_as_elim, induction_eliminator]
theorem Stmt.induction {motive : Stmt → Prop}
    (expression : ∀ e, motive (.expression e))
    (ifThen : ∀ c s, motive s → motive (.ifThen c s))
    (ifElse : ∀ c s t, motive s → motive t → motive (.ifElse c s t))
    (loop : ∀ item e s, motive s → motive (.loop item e s))
    (block : ∀ ss, (∀ s ∈ ss, motive s) → motive (.block ss))
    (declare : ∀ name o, motive (.declare name o))
    (fetch : ∀ e, motive (.fetch e))
    (save : ∀ d e, motive (.save d e))
    (print : ∀ e, motive (.print e)) (s : Stmt) : motive s :=
  @Stmt.rec motive (fun ss => ∀ s ∈ ss, motive s) expression ifThen ifElse loop block declare
    fetch save print nofun (fun _ _ hs hss => List.forall_mem_cons.2 ⟨hs, hss⟩) s

mutual

/-- An expression with other tokens and values in place of those that it keeps. -/
def Expr.mapLeaves (f : Token → Token) (v : Value → Value) : Expr → Expr
  | .binary l op r => .binary (l.mapLeaves f v) (f op) (r.mapLeaves f v)
  | .grouping e => .grouping (e.mapLeaves f v)
  | .literal x => .literal (v x)
  | .variable t => .variable (f t)
  | .unary op e => .unary (f op) (e.mapLeaves f v)
  | .call e paren as => .call (e.mapLeaves f v) (f paren) (Expr.mapLeavesOfAll f v as)
  | .property e name => .property (e.mapLeaves f v) (f name)

def Expr.mapLeavesOfAll (f : Token → Token) (v : Value → Value) : List Expr → List Expr
  | [] => []
  | a :: as => a.mapLeaves f v :: Expr.mapLeavesOfAll f v as

end

mutual

/-- A statement with other tokens and values in place of those that it keeps. -/
def Stmt.mapLeaves (f : Token → Token) (v : Value → Value) : Stmt → Stmt
  | .expression e => .expression (e.mapLeaves f v)
  | .ifThen c s => .ifThen (c.mapLeaves f v) (s.mapLeaves f v)
  | .ifElse c s t => .ifElse (c.mapLeaves f v) (s.mapLeaves f v) (t.mapLeaves f v)
  | .loop item e s => .loop (f item) (e.mapLeaves f v) (s.mapLeaves f v)
  | .block ss => .block (Stmt.mapLeavesOfAll f v ss)
  | .declare name o => .declare (f name) (o.map (Expr.mapLeaves f v))
  | .fetch e => .fetch (e.mapLeaves f v)
  | .save d e => .save (d.mapLeaves f v) (e.mapLeaves f v)
  | .print e => .print (e.mapLeaves f v)

def Stmt.mapLeavesOfAll (f : Token → Token) (v : Value → Value) : List Stmt → List Stmt
  | [] => []
  | s :: ss => s.mapLeaves f v :: Stmt.mapLeavesOfAll f v ss

end

namespace Slot

/-- What a slot says with another token or value in place of the one that is kept. -/
def mapLeaf (f : Token → Token) (v : Value → Value) : Slot → Slot
  | kept t => kept (f t)
  | literal x => literal (v x)
  | kind k => kind k

/-- The token that a tree keeps for this slot. -/
def token? : Slot → Option Token
  | kept t => some t
  | _ => none

/-- The value that a tree keeps for this slot. -/
def value? : Slot → Option Value
  | literal v => some v
  | _ => none

end Slot

/-- The tokens that statements keep, in the order of the text. -/
def Stmt.tokensOfAll (ss : List Stmt) : List Token := (Stmt.slotsOfAll ss).filterMap Slot.token?

/-- The values of the literals in statements, in the order of the text. -/
def Stmt.valuesOfAll (ss : List Stmt) : List Value := (Stmt.slotsOfAll ss).filterMap Slot.value?

/-- A slot without its token or value. -/
def Slot.shape : Slot → Slot := Slot.mapLeaf (fun _ => .ofKind .unknown) fun _ => .null

/-- An expression without its tokens and values. -/
def Expr.shape : Expr → Expr := Expr.mapLeaves (fun _ => .ofKind .unknown) fun _ => .null

/-- A statement without its tokens and values. -/
def Stmt.shape : Stmt → Stmt := Stmt.mapLeaves (fun _ => .ofKind .unknown) fun _ => .null

variable (f f' : Token → Token) (v v' : Value → Value)

namespace Expr

@[simp] theorem mapLeavesOfAll_eq_map (as : List Expr) :
    mapLeavesOfAll f v as = as.map (mapLeaves f v) := by
  induction as with
  | nil => rfl
  | cons a as ih => rw [mapLeavesOfAll, ih, List.map_cons]

@[simp] theorem mapLeaves_id (e : Expr) : e.mapLeaves id id = e := by
  induction e with
  | call e paren as ihe ihas =>
    have has : as.map (mapLeaves id id) = as := (List.map_congr_left ihas).trans (List.map_id' as)
    simp [mapLeaves, ihe, has]
  | _ => simp [mapLeaves, *]

theorem mapLeaves_mapLeaves (e : Expr) :
    (e.mapLeaves f v).mapLeaves f' v' = e.mapLeaves (f' ∘ f) (v' ∘ v) := by
  induction e with
  | call e paren as ihe ihas => simpa [mapLeaves, ihe] using ihas
  | _ => simp [mapLeaves, *]

theorem slotsOfMore_map {as : List Expr}
    (h : ∀ a ∈ as, (a.mapLeaves f v).slots = a.slots.map (Slot.mapLeaf f v)) :
    slotsOfMore (as.map (mapLeaves f v)) = (slotsOfMore as).map (Slot.mapLeaf f v) := by
  induction as with
  | nil => rfl
  | cons a as ih =>
    obtain ⟨ha, has⟩ := List.forall_mem_cons.1 h
    simp [slotsOfMore, ha, ih has, Slot.mapLeaf]

theorem slots_mapLeaves (e : Expr) :
    (e.mapLeaves f v).slots = e.slots.map (Slot.mapLeaf f v) := by
  induction e with
  | call e paren as ihe ihas =>
    have has : slotsOfArguments (as.map (mapLeaves f v)) =
        (slotsOfArguments as).map (Slot.mapLeaf f v) := by
      cases as with
      | nil => rfl
      | cons a as =>
        obtain ⟨ha, has⟩ := List.forall_mem_cons.1 ihas
        simp [slotsOfArguments, ha, slotsOfMore_map f v has]
    simp [mapLeaves, slots, ihe, has, Slot.mapLeaf]
  | _ => simp [mapLeaves, slots, Slot.mapLeaf, *]

end Expr

namespace Stmt

@[simp] theorem mapLeavesOfAll_eq_map (ss : List Stmt) :
    mapLeavesOfAll f v ss = ss.map (mapLeaves f v) := by
  induction ss with
  | nil => rfl
  | cons s ss ih => rw [mapLeavesOfAll, ih, List.map_cons]

@[simp] theorem mapLeaves_id (s : Stmt) : s.mapLeaves id id = s := by
  induction s with
  | block ss ih =>
    have hss : ss.map (mapLeaves id id) = ss := (List.map_congr_left ih).trans (List.map_id' ss)
    simp [mapLeaves, hss]
  | declare name o => cases o <;> simp [mapLeaves]
  | _ => simp [mapLeaves, *]

theorem mapLeaves_mapLeaves (s : Stmt) :
    (s.mapLeaves f v).mapLeaves f' v' = s.mapLeaves (f' ∘ f) (v' ∘ v) := by
  induction s with
  | block ss ih => simpa [mapLeaves] using ih
  | declare name o => cases o <;> simp [mapLeaves, Expr.mapLeaves_mapLeaves]
  | _ => simp [mapLeaves, Expr.mapLeaves_mapLeaves, *]

theorem shape_mapLeaves (s : Stmt) : (s.mapLeaves f v).shape = s.shape :=
  s.mapLeaves_mapLeaves f _ v _

theorem slotsOfAll_map {ss : List Stmt}
    (h : ∀ s ∈ ss, (s.mapLeaves f v).slots = s.slots.map (Slot.mapLeaf f v)) :
    slotsOfAll (ss.map (mapLeaves f v)) = (slotsOfAll ss).map (Slot.mapLeaf f v) := by
  induction ss with
  | nil => rfl
  | cons s ss ih =>
    obtain ⟨hs, hss⟩ := List.forall_mem_cons.1 h
    simp [slotsOfAll, hs, ih hss]

theorem slots_mapLeaves (s : Stmt) :
    (s.mapLeaves f v).slots = s.slots.map (Slot.mapLeaf f v) := by
  induction s with
  | block ss ih => simp [mapLeaves, slots, slotsOfAll_map f v ih, Slot.mapLeaf]
  | declare name o =>
    cases o <;> simp [mapLeaves, slots, Expr.slots_mapLeaves, Slot.mapLeaf]
  | _ => simp [mapLeaves, slots, Expr.slots_mapLeaves, Slot.mapLeaf, *]

theorem filterMap_slotsOfAll_map {α : Type} {p : Slot → Option α} {k : α → α}
    (h : ∀ a, p (a.mapLeaf f v) = (p a).map k) (ss : List Stmt) :
    (slotsOfAll (ss.map (mapLeaves f v))).filterMap p = ((slotsOfAll ss).filterMap p).map k := by
  rw [slotsOfAll_map f v fun s _ => s.slots_mapLeaves f v, List.filterMap_map, List.map_filterMap]
  exact congrArg (List.filterMap · (slotsOfAll ss)) (funext h)

theorem tokensOfAll_map (ss : List Stmt) :
    tokensOfAll (ss.map (mapLeaves f v)) = (tokensOfAll ss).map f :=
  filterMap_slotsOfAll_map f v (fun a => by cases a <;> rfl) ss

theorem valuesOfAll_map (ss : List Stmt) :
    valuesOfAll (ss.map (mapLeaves f v)) = (valuesOfAll ss).map v :=
  filterMap_slotsOfAll_map f v (fun a => by cases a <;> rfl) ss

end Stmt

end ScrapeScript
