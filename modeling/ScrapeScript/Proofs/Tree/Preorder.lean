import ScrapeScript.Tree.Node

namespace ScrapeScript

section Parts

variable {α : Type} {parts : α → List α} {size : α → Nat}

/-- A thing, then all that is in its parts, one part after the other. Parts are smaller than what
they are parts of. -/
def preorderOf (h : ∀ a, ∀ b ∈ parts a, size b < size a) (a : α) : List α :=
  a :: (parts a).attach.flatMap fun b => preorderOf h b.1
termination_by size a
decreasing_by exact h a b.1 b.2

theorem preorderOf_eq (h : ∀ a, ∀ b ∈ parts a, size b < size a) (a : α) :
    preorderOf h a = a :: (parts a).flatMap (preorderOf h) := by
  rw [preorderOf, List.flatMap_subtype (g := preorderOf h) (by simp), List.unattach_attach]

/-- A thing has a property if each has it whose parts have it. -/
theorem induction_parts {motive : α → Prop} (h : ∀ a, ∀ b ∈ parts a, size b < size a)
    (whole : ∀ a, (∀ b ∈ parts a, motive b) → motive a) (a : α) : motive a :=
  whole a fun b _ => induction_parts h whole b
termination_by size a
decreasing_by exact h a b ‹_›

end Parts

namespace Node

theorem count_le_countAll {m : Node} {ns : List Node} (h : m ∈ ns) : m.count ≤ countAll ns := by
  induction ns with
  | nil => cases h
  | cons n ns ih =>
    rw [countAll]
    obtain rfl | h := List.mem_cons.1 h
    · exact Nat.le_add_right _ _
    · exact Nat.le_add_left_of_le (ih h)

theorem count_lt_of_mem_children {m n : Node} (h : m ∈ n.children) : m.count < n.count := by
  rw [count_eq n]
  exact Nat.lt_succ_of_le (count_le_countAll h)

/-- A node has a property if each has it whose children have it. -/
@[elab_as_elim]
theorem induction {motive : Node → Prop}
    (node : ∀ n, (∀ m ∈ n.children, motive m) → motive n) (n : Node) : motive n :=
  induction_parts (fun _ _ => count_lt_of_mem_children) node n

/-- A node, then all that is in its children, one child after the other. -/
def preorder : Node → List Node := preorderOf fun _ _ => count_lt_of_mem_children

theorem preorder_eq (n : Node) : n.preorder = n :: n.children.flatMap preorder :=
  preorderOf_eq _ n

/-- Pending siblings are visited one after the other, each with all that is below it. -/
theorem walkAll_eq (ns : List Node) : walkAll ns = ns.flatMap preorder := by
  fun_induction walkAll ns with
  | case1 => rfl
  | case2 n pending ih => rw [ih, List.flatMap_append, List.flatMap_cons, n.preorder_eq]; rfl

theorem walk_eq (n : Node) : n.walk = n.preorder := by
  rw [walk, walkAll_eq, List.flatMap_singleton]

/-- A walk under way: the nodes that are pending, the next one last, and those visited so far. -/
structure Tour where
  stack : List Node
  visited : List Node

namespace Tour

/-- The next node is visited, and its children are pending in its place. -/
def turn (w : Tour) : Option Tour :=
  w.stack.getLast?.map fun n => ⟨w.stack.dropLast ++ n.children.reverse, w.visited ++ [n]⟩

def turns : Nat → Tour → Option Tour
  | 0, w => some w
  | k + 1, w => w.turn.bind (turns k)

theorem turn_concat (stack visited : List Node) (n : Node) :
    turn ⟨stack ++ [n], visited⟩ = some ⟨stack ++ n.children.reverse, visited ++ [n]⟩ := by
  simp [turn]

/-- There are as many turns as nodes below those that are pending. -/
theorem turns_countAll (pending visited : List Node) :
    turns (countAll pending) ⟨pending.reverse, visited⟩ =
      some ⟨[], visited ++ walkAll pending⟩ := by
  fun_induction walkAll pending generalizing visited with
  | case1 => rw [countAll, turns, List.reverse_nil, List.append_nil]
  | case2 n pending ih =>
    have hcount : countAll (n :: pending) = countAll (n.children ++ pending) + 1 := by
      rw [countAll, countAll_append, count_eq]
      omega
    rw [hcount, List.reverse_cons, turns, turn_concat, Option.bind_some, ← List.reverse_append,
      ih, List.append_assoc, List.singleton_append]

end Tour

/-- Below a node all is found in one of its children, by the path that leads on from there. -/
def at? : Node → List Nat → Option Node
  | n, [] => some n
  | n, i :: path => n.children[i]?.bind (·.at? path)

/-- The paths to all places of a tree, each before those that go on from it. -/
def paths (n : Node) : List (List Nat) :=
  [] :: (n.children.attach.mapIdx fun i m => (paths m.1).map (i :: ·)).flatten
termination_by n.count
decreasing_by exact count_lt_of_mem_children m.2

theorem paths_eq (n : Node) :
    n.paths = [] :: (n.children.mapIdx fun i m => m.paths.map (i :: ·)).flatten := by
  rw [paths]
  congr 2
  refine List.ext_getElem (by simp) fun i _ _ => ?_
  simp

theorem mem_paths_cons {n : Node} {i : Nat} {path : List Nat} :
    i :: path ∈ n.paths ↔ ∃ m, n.children[i]? = some m ∧ path ∈ m.paths := by
  rw [paths_eq]
  simp only [List.mem_cons, reduceCtorEq, false_or, List.mem_flatten, List.mem_mapIdx]
  constructor
  · rintro ⟨_, ⟨j, hj, rfl⟩, h⟩
    obtain ⟨path', hpath, heq⟩ := List.mem_map.1 h
    obtain ⟨rfl, rfl⟩ := List.cons.inj heq
    exact ⟨_, List.getElem?_eq_getElem hj, hpath⟩
  · rintro ⟨m, hm, hpath⟩
    obtain ⟨hi, rfl⟩ := List.getElem?_eq_some_iff.1 hm
    exact ⟨_, ⟨i, hi, rfl⟩, List.mem_map_of_mem hpath⟩

theorem mem_paths {n : Node} {path : List Nat} : path ∈ n.paths ↔ (n.at? path).isSome := by
  induction path generalizing n with
  | nil =>
    rw [paths_eq]
    simp [at?]
  | cons i path ih =>
    rw [mem_paths_cons, at?]
    cases n.children[i]? with
    | none => simp
    | some m => simp [ih]

theorem paths_increasing (n : Node) : n.paths.Pairwise (· < ·) := by
  induction n using induction with
  | node n ih =>
    rw [paths_eq, List.pairwise_cons, List.pairwise_flatten]
    refine ⟨fun path hpath => ?_, fun ps hps => ?_, ?_⟩
    · obtain ⟨ps, hps, hpath⟩ := List.mem_flatten.1 hpath
      obtain ⟨i, _, rfl⟩ := List.mem_mapIdx.1 hps
      obtain ⟨_, -, rfl⟩ := List.mem_map.1 hpath
      exact List.nil_lt_cons _ _
    · obtain ⟨i, hi, rfl⟩ := List.mem_mapIdx.1 hps
      rw [List.pairwise_map]
      exact (ih _ (List.getElem_mem hi)).imp fun h => List.cons_lt_cons_iff.2 (.inr ⟨rfl, h⟩)
    · rw [List.pairwise_iff_getElem]
      intro i j _ _ hij p hp q hq
      rw [List.getElem_mapIdx] at hp hq
      obtain ⟨_, -, rfl⟩ := List.mem_map.1 hp
      obtain ⟨_, -, rfl⟩ := List.mem_map.1 hq
      exact List.cons_lt_cons_iff.2 (.inl hij)

theorem map_paths (n : Node) : n.paths.map n.at? = n.preorder.map some := by
  induction n using induction with
  | node n ih =>
    have hchildren : (n.children.mapIdx fun i m => m.paths.map (i :: ·)).map (List.map n.at?) =
        n.children.map fun m => m.preorder.map some := by
      refine List.ext_getElem (by simp) fun i _ hi => ?_
      rw [List.length_map] at hi
      rw [List.getElem_map, List.getElem_mapIdx, List.getElem_map, ← ih _ (List.getElem_mem hi),
        List.map_map]
      refine List.map_congr_left fun path _ => ?_
      rw [Function.comp_apply, at?, List.getElem?_eq_getElem hi, Option.bind_some]
    rw [paths_eq, preorder_eq, List.map_cons, List.map_flatten, hchildren, List.map_cons,
      List.map_flatMap, List.flatMap_def]
    rfl

end Node

end ScrapeScript
