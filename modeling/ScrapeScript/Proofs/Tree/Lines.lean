import ScrapeScript.Proofs.Tree.Bodies
import ScrapeScript.Proofs.Tree.Preorder

namespace ScrapeScript

namespace Outline

/-- The number of spaces that a line begins with. -/
def indentation (line : String) : Nat := (line.toList.takeWhile (· = ' ')).length

theorem indentation_of_toList {k : Nat} {c : Char} {line : String} {rest : List Char}
    (h : line.toList = List.replicate k ' ' ++ c :: rest) (hc : c ≠ ' ') :
    indentation line = k := by
  rw [indentation, h, List.takeWhile_append_of_pos (by simp),
    List.takeWhile_cons_of_neg (by simpa), List.append_nil, List.length_replicate]

theorem toList_header (level : Nat) (title : String) :
    (header level title).toList =
      List.replicate (2 * level) ' ' ++ '└' :: '─' :: ' ' :: title.toList := by
  simp [header, indent]

theorem toList_branch (level : Nat) (last : Bool) (caption : String) :
    (branch level last caption).toList = List.replicate (2 * level + 3) ' ' ++
      (if last then '└' else '├') :: '─' :: ' ' :: caption.toList := by
  rw [← List.replicate_append_replicate]
  cases last <;> simp [branch, indent, List.replicate]

theorem indentation_header (level : Nat) (title : String) :
    indentation (header level title) = 2 * level :=
  indentation_of_toList (toList_header level title) (by decide)

theorem indentation_branch (level : Nat) (last : Bool) (caption : String) :
    indentation (branch level last caption) = 2 * level + 3 :=
  indentation_of_toList (toList_branch level last caption) (by cases last <;> decide)

theorem header_inj {level : Nat} {title title' : String} :
    header level title = header level title' ↔ title = title' := by
  rw [header, header, String.append_right_inj]

theorem branch_inj {level : Nat} {last last' : Bool} {caption caption' : String} :
    branch level last caption = branch level last' caption' ↔
      last = last' ∧ caption = caption' := by
  rw [← String.toList_inj, toList_branch, toList_branch, List.append_cancel_left_eq]
  cases last <;> cases last' <;> simp [String.toList_inj]

end Outline

/-- The lines of a text, of which the empty one has none. -/
def textLines (text : String) : List String :=
  if text = "" then [] else (text.toList.splitOn '\n').map String.ofList

/-- A line is not empty and does not go on after a newline. -/
def IsLine (s : String) : Prop := s ≠ "" ∧ '\n' ∉ s.toList

namespace Outline

theorem isLine_header (level : Nat) {title : String} (h : '\n' ∉ title.toList) :
    IsLine (header level title) := by
  rw [IsLine, Ne, ← String.toList_inj, toList_header]
  simp [h]

theorem isLine_branch (level : Nat) (last : Bool) {caption : String} (h : '\n' ∉ caption.toList) :
    IsLine (branch level last caption) := by
  rw [IsLine, Ne, ← String.toList_inj, toList_branch]
  cases last <;> simp [h]

end Outline

theorem textLines_intercalate {lines : List String} (h : ∀ l ∈ lines, IsLine l) :
    textLines ("\n".intercalate lines) = lines := by
  cases lines with
  | nil => rfl
  | cons l ls =>
    have htext : "\n".intercalate (l :: ls) ≠ "" := by
      have hl := (h l List.mem_cons_self).1
      rw [Ne, ← String.toList_inj, String.toList_intercalate]
      cases ls <;> simp [hl]
    have hlines : ∀ cs ∈ (l :: ls).map String.toList, '\n' ∉ cs :=
      List.forall_mem_map.2 fun l hl => (h l hl).2
    have hsplit := List.splitOn_intercalate '\n' hlines (by simp)
    rw [textLines, if_neg htext, String.toList_intercalate]
    exact (congrArg (List.map String.ofList) hsplit).trans (by simp)

theorem newline_notMem_toDigits (n : Nat) : '\n' ∉ Nat.toDigits 10 n := fun h =>
  absurd (Nat.isDigit_of_mem_toDigits (by decide) (by decide) h) (by decide)

namespace NumberLayout

theorem newline_notMem_positional {ds : List Char} (h : '\n' ∉ ds) (point : Int) :
    '\n' ∉ positional ds point := by
  have htake : '\n' ∉ ds.take point.toNat := fun hc => h (List.mem_of_mem_take hc)
  have hdrop : '\n' ∉ ds.drop point.toNat := fun hc => h (List.mem_of_mem_drop hc)
  rw [positional]
  split
  · simp [h]
  · split <;> simp [h, htake, hdrop]

theorem newline_notMem_scientific (layout : NumberLayout) {ds : List Char} (h : '\n' ∉ ds)
    (exponent : Int) : '\n' ∉ layout.scientific ds exponent := by
  have htake : '\n' ∉ ds.take 1 := fun hc => h (List.mem_of_mem_take hc)
  have htail : '\n' ∉ ds.tail := fun hc => h (List.mem_of_mem_tail hc)
  have hdigits := newline_notMem_toDigits exponent.natAbs
  rw [scientific, padLeft]
  split <;> split <;> simp [htake, htail, hdigits]

theorem newline_notMem_chars (layout : NumberLayout) (d : Decimal) :
    '\n' ∉ layout.chars d := by
  have hdigits : '\n' ∉ dropTrailingZeros (Nat.toDigits 10 d.coefficient) := by
    rw [dropTrailingZeros, List.mem_reverse]
    exact fun hc => newline_notMem_toDigits d.coefficient
      (List.mem_reverse.1 (List.dropWhile_subset _ hc))
  rw [chars]
  split
  · exact newline_notMem_positional hdigits _
  · exact newline_notMem_scientific layout hdigits _

end NumberLayout

theorem Binary64.newline_notMem_text (x : Binary64) : '\n' ∉ x.text.toList := by
  have hchars := NumberLayout.standard.newline_notMem_chars x.shortest
  rw [Binary64.text]
  repeat' split
  all_goals simp [hchars]

theorem Value.newline_notMem_literalText {v : Value}
    (h : ∀ s, v = .string s → '\n' ∉ s.toList) : '\n' ∉ v.literalText.toList := by
  cases v with
  | null => decide
  | bool b => cases b <;> decide
  | string s => simp [literalText, h s rfl]
  | number x =>
    rw [literalText]
    split
    · rw [Int.toString_eq_repr, Int.repr_eq_if]
      split <;> simp [newline_notMem_toDigits]
    · exact x.newline_notMem_text

theorem Label.newline_notMem_word (l : Label) : '\n' ∉ l.word.toList := by
  cases l <;> simp [word]

/-- The texts of a script that are shown for a node. A call does not show its parenthesis. -/
def Label.texts : Label → List String
  | .binary t | .variable t | .unary t | .property t | .loop t | .declare t => [t.lexeme]
  | .literal (.string s) => [s]
  | _ => []

namespace Node

/-- No token or string that is shown has a newline. -/
def OneLine (n : Node) : Prop := ∀ m ∈ n.walk, ∀ t ∈ m.label.texts, '\n' ∉ t.toList

theorem oneLine_iff (n : Node) : n.OneLine ↔
    (∀ t ∈ n.label.texts, '\n' ∉ t.toList) ∧ ∀ m ∈ n.children, m.OneLine := by
  simp only [OneLine, walk_eq, preorder_eq n, List.forall_mem_cons, List.forall_mem_flatMap]

theorem newline_notMem_name {n : Node} (h : n.OneLine) {name : String}
    (hname : n.name? = some name) : '\n' ∉ name.toList := by
  obtain ⟨htexts, hchildren⟩ := n.oneLine_iff.1 h
  cases n with
  | expr e =>
    cases e with
    | literal v =>
      cases hname
      refine Value.newline_notMem_literalText ?_
      rintro s rfl
      exact htexts s List.mem_cons_self
    | call f paren as =>
      cases f with
      | «variable» t =>
        cases hname
        exact (oneLine_iff _).1 (hchildren (expr (.variable t)) List.mem_cons_self) |>.1 _
          List.mem_cons_self
      | _ => cases hname
    | grouping => cases hname
    | _ => cases hname; exact htexts _ List.mem_cons_self
  | stmt s =>
    cases s with
    | declare => cases hname; exact htexts _ List.mem_cons_self
    | _ => cases hname

theorem newline_notMem_title {n : Node} (h : n.OneLine) : '\n' ∉ n.title.toList := by
  have hword := n.label.newline_notMem_word
  cases hname : n.name? with
  | none => rwa [title_of_none hname]
  | some name => simp [title_of_name hname, hword, newline_notMem_name h hname]

theorem newline_notMem_numbered {word : String} (hword : '\n' ∉ word.toList) (number : Nat)
    (ns : List Node) : ∀ l ∈ Limb.numbered word number ns, '\n' ∉ l.caption.toList := by
  induction ns generalizing number with
  | nil => nofun
  | cons n ns ih =>
    refine List.forall_mem_cons.2 ⟨?_, ih (number + 1)⟩
    simp [hword, newline_notMem_toDigits]

theorem newline_notMem_caption {n : Node} (h : n.OneLine) {ls : List Limb}
    (hbody : n.body = .limbs ls) : ∀ l ∈ ls, '\n' ∉ l.caption.toList := by
  have hargument := newline_notMem_numbered (show '\n' ∉ "Arg".toList by decide) 1
  cases n with
  | expr e =>
    cases e with
    | grouping => cases hbody
    | call f paren as => cases f <;> cases hbody <;> simpa using hargument _
    | _ =>
      cases hbody
      simp
  | stmt s =>
    cases s with
    | expression => cases hbody
    | loop item e s =>
      cases hbody
      simpa using ((oneLine_iff _).1 h).1 item.lexeme List.mem_cons_self
    | block ss => cases hbody; exact newline_notMem_numbered (by decide) 1 _
    | declare name o => cases o <;> cases hbody <;> simp
    | _ =>
      cases hbody
      simp

theorem isLine_of_mem_outline {n : Node} (h : n.OneLine) (level : Nat) :
    ∀ line ∈ n.outline level, IsLine line := by
  induction n using induction generalizing level with
  | node n ih =>
    have hnodes {m : Node} (hm : m ∈ n.body.nodes) (level : Nat) :
        ∀ line ∈ m.outline level, IsLine line :=
      ih m (n.body_nodes_subset hm) (((oneLine_iff n).1 h).2 m (n.body_nodes_subset hm)) level
    rw [outline_eq, List.forall_mem_cons]
    refine ⟨Outline.isLine_header level (newline_notMem_title h), ?_⟩
    cases hbody : n.body with
    | inner m =>
      rw [hbody] at hnodes
      exact hnodes List.mem_cons_self (level + 1)
    | limbs ls =>
      rw [hbody] at hnodes
      refine List.forall_mem_flatMap.2 fun l hl => List.forall_mem_cons.2
        ⟨Outline.isLine_branch level _ (newline_notMem_caption h hbody l hl), ?_⟩
      cases hchild : l.child with
      | none => nofun
      | some m => exact hnodes (List.mem_filterMap.2 ⟨l, hl, hchild⟩) (level + 2)

end Node

/-- The lines of a text are those that it was made of. -/
theorem textLines_outlineText {ss : List Stmt} (h : ∀ s ∈ ss, (Node.stmt s).OneLine) :
    textLines (outlineText ss) = ss.flatMap (·.outline 0) :=
  textLines_intercalate
    (List.forall_mem_flatMap.2 fun s hs => Node.isLine_of_mem_outline (h s hs) 0)

end ScrapeScript
