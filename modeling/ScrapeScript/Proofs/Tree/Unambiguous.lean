import ScrapeScript.Proofs.Tree.Lines
import ScrapeScript.Proofs.Tree.Printing
import ScrapeScript.Proofs.Tree.Walk

namespace ScrapeScript

mutual

/-- An expression of which only the texts are known, without the parenthesis of a call. -/
def Expr.bare : Expr → Expr
  | .binary l op r => .binary l.bare (.plain op.lexeme) r.bare
  | .grouping e => .grouping e.bare
  | .literal v => .literal (.string v.literalText)
  | .variable t => .variable (.plain t.lexeme)
  | .unary op e => .unary (.plain op.lexeme) e.bare
  | .call f _ as => .call f.bare (.plain "") (Expr.bareAll as)
  | .property e name => .property e.bare (.plain name.lexeme)

def Expr.bareAll : List Expr → List Expr
  | [] => []
  | a :: as => a.bare :: Expr.bareAll as

end

mutual

/-- A statement of which only the texts are known. -/
def Stmt.bare : Stmt → Stmt
  | .expression e => .expression e.bare
  | .ifThen c s => .ifThen c.bare s.bare
  | .ifElse c s t => .ifElse c.bare s.bare t.bare
  | .loop item e s => .loop (.plain item.lexeme) e.bare s.bare
  | .block ss => .block (Stmt.bareAll ss)
  | .declare name o => .declare (.plain name.lexeme) (o.map Expr.bare)
  | .fetch e => .fetch e.bare
  | .save d e => .save d.bare e.bare
  | .print e => .print e.bare

def Stmt.bareAll : List Stmt → List Stmt
  | [] => []
  | s :: ss => s.bare :: Stmt.bareAll ss

end

theorem Expr.bareAll_eq_map (as : List Expr) : bareAll as = as.map bare := by
  induction as with
  | nil => rfl
  | cons a as ih => rw [bareAll, ih, List.map_cons]

theorem Stmt.bareAll_eq_map (ss : List Stmt) : bareAll ss = ss.map bare := by
  induction ss with
  | nil => rfl
  | cons s ss ih => rw [bareAll, ih, List.map_cons]

def Node.bare : Node → Node
  | expr e => expr e.bare
  | stmt s => stmt s.bare

/-- The same line, above a node of which only the texts are known. -/
def Limb.bare (l : Limb) : Limb := { l with child := l.child.map Node.bare }

def Body.bare : Body → Body
  | inner n => inner n.bare
  | limbs ls => limbs (ls.map Limb.bare)

theorem Limb.map_bare_numbered (word : String) (number : Nat) (ns : List Node) :
    (numbered word number ns).map bare = numbered word number (ns.map Node.bare) := by
  induction ns generalizing number with
  | nil => rfl
  | cons n ns ih => simp [numbered, bare, ih]

theorem Limb.numbered_inj {word : String} {number : Nat} {ms ns : List Node} :
    numbered word number ms = numbered word number ns ↔ ms = ns := by
  refine ⟨fun h => ?_, congrArg _⟩
  have hnodes := congrArg (List.filterMap (·.child)) h
  rwa [filterMap_child_numbered, filterMap_child_numbered] at hnodes

namespace Node

theorem map_bare_expr_inj {as as' : List Expr} :
    (as.map expr).map bare = (as'.map expr).map bare ↔
      Expr.bareAll as = Expr.bareAll as' := by
  have hmap (as : List Expr) : (as.map expr).map bare = (as.map Expr.bare).map expr := by
    simp [bare]
  rw [hmap, hmap, map_expr_inj, Expr.bareAll_eq_map, Expr.bareAll_eq_map]

theorem map_bare_stmt_inj {ss ss' : List Stmt} :
    (ss.map stmt).map bare = (ss'.map stmt).map bare ↔
      Stmt.bareAll ss = Stmt.bareAll ss' := by
  have hmap (ss : List Stmt) : (ss.map stmt).map bare = (ss.map Stmt.bare).map stmt := by
    simp [bare]
  rw [hmap, hmap, map_stmt_inj, Stmt.bareAll_eq_map, Stmt.bareAll_eq_map]

/-- A call shows what it calls in one of two ways. -/
theorem shown_call (f : Expr) (paren : Token) (as : List Expr) :
    (∃ t, f = .variable t ∧ (expr (.call f paren as)).name? = some t.lexeme ∧
      (expr (.call f paren as)).body = .limbs (Limb.numbered "Arg" 1 (as.map expr))) ∨
    ((expr (.call f paren as)).name? = none ∧ (expr (.call f paren as)).body =
      .limbs (⟨false, "Callee:", expr f⟩ :: Limb.numbered "Arg" 1 (as.map expr))) := by
  cases f with
  | «variable» t => exact .inl ⟨t, rfl, rfl, rfl⟩
  | _ => exact .inr ⟨rfl, rfl⟩

/-- What is shown for a node determines it, as far as it is shown. -/
theorem bare_eq_of_shown {m n : Node} (hword : m.label.word = n.label.word)
    (hname : m.name? = n.name?) (hbody : m.body.bare = n.body.bare) : m.bare = n.bare := by
  cases m with
  | expr e =>
    cases n with
    | stmt s => cases e <;> cases s <;> simp [label, Expr.label, Stmt.label, Label.word] at hword
    | expr e' =>
      cases e <;> cases e' <;> simp [label, Expr.label, Label.word] at hword
      case call.call f paren as f' paren' as' =>
        obtain ⟨t, rfl, hname₁, hbody₁⟩ | ⟨hname₁, hbody₁⟩ := shown_call f paren as <;>
        obtain ⟨t', rfl, hname₂, hbody₂⟩ | ⟨hname₂, hbody₂⟩ := shown_call f' paren' as'
        all_goals
          rw [hname₁, hname₂] at hname
          rw [hbody₁, hbody₂] at hbody
          simp only [Body.bare, Body.limbs.injEq, List.map_cons, List.cons.injEq,
            Limb.map_bare_numbered, Limb.numbered_inj, map_bare_expr_inj] at hbody
        · simp_all [bare, Expr.bare]
        · cases hname
        · cases hname
        · simp_all [Limb.bare, bare, Expr.bare]
      all_goals simp_all [name?, body, Body.bare, Limb.bare, bare, Expr.bare]
  | stmt s =>
    cases n with
    | expr e => cases s <;> cases e <;> simp [label, Expr.label, Stmt.label, Label.word] at hword
    | stmt s' =>
      cases s <;> cases s' <;> simp [label, Stmt.label, Label.word] at hword
      case block.block ss ss' =>
        simp only [body, Body.bare, Body.limbs.injEq, Limb.map_bare_numbered, Limb.numbered_inj,
          map_bare_stmt_inj] at hbody
        simp [bare, Stmt.bare, hbody]
      case declare.declare name o name' o' =>
        cases o <;> cases o' <;> simp_all [name?, body, Body.bare, Limb.bare, bare, Stmt.bare]
      all_goals simp_all [name?, body, Body.bare, Limb.bare, bare, Stmt.bare]

/-- The word of a header ends before its first colon, if there is one. -/
theorem shown_of_title {m n : Node} (h : m.title = n.title) :
    m.label.word = n.label.word ∧ m.name? = n.name? := by
  have hword (n : Node) : n.title.toList.takeWhile (· ≠ ':') = n.label.word.toList := by
    have hcolon : ∀ c ∈ n.label.word.toList, decide (c ≠ ':') = true := by
      cases n.label <;> simp [Label.word]
    obtain ⟨tail, htitle, htail⟩ : ∃ tail : List Char,
        n.title.toList = n.label.word.toList ++ tail ∧ tail.takeWhile (· ≠ ':') = [] := by
      cases hname : n.name? with
      | none => exact ⟨[], by rw [title_of_none hname, List.append_nil], rfl⟩
      | some name => exact ⟨':' :: ' ' :: name.toList, by simp [title_of_name hname], rfl⟩
    rw [htitle, List.takeWhile_append_of_pos hcolon, htail, List.append_nil]
  have hwords : m.label.word = n.label.word := by
    rw [← String.toList_inj, ← hword m, ← hword n, h]
  refine ⟨hwords, ?_⟩
  cases hm : m.name? with
  | none =>
    cases hn : n.name? with
    | none => rfl
    | some name =>
      rw [title_of_none hm, title_of_name hn, hwords, ← String.toList_inj] at h
      simp at h
  | some name =>
    cases hn : n.name? with
    | none =>
      rw [title_of_name hm, title_of_none hn, hwords, ← String.toList_inj] at h
      simp at h
    | some name' =>
      rw [title_of_name hm, title_of_name hn, hwords, String.append_right_inj] at h
      rw [h]

end Node

open Outline

/-- The first of the lines, if there is one, is not further in than this. -/
def StartsWithin (indent : Nat) (lines : List String) : Prop :=
  ∀ l ∈ lines.head?, indentation l ≤ indent

namespace StartsWithin

variable {indent level : Nat} {lines : List String}

theorem nil : StartsWithin indent [] := nofun

theorem mono {indent' : Nat} (h : StartsWithin indent lines) (hle : indent ≤ indent') :
    StartsWithin indent' lines := fun l hl => Nat.le_trans (h l hl) hle

theorem cons_iff {line : String} :
    StartsWithin indent (line :: lines) ↔ indentation line ≤ indent := by
  simp [StartsWithin]

theorem outline_iff {n : Node} :
    StartsWithin indent (n.outline level ++ lines) ↔ 2 * level ≤ indent := by
  rw [n.outline_eq, List.cons_append, cons_iff, indentation_header]

theorem limb_iff {l : Limb} :
    StartsWithin indent (l.lines level ++ lines) ↔ 2 * level + 3 ≤ indent := by
  rw [Limb.lines, List.cons_append, cons_iff, indentation_branch]

theorem limbs (h : StartsWithin (2 * level) lines) (ls : List Limb) :
    StartsWithin (2 * level + 3) (ls.flatMap (Limb.lines level) ++ lines) := by
  cases ls with
  | nil => exact h.mono (Nat.le_add_right _ 3)
  | cons l ls =>
    rw [List.flatMap_cons, List.append_assoc]
    exact limb_iff.2 (Nat.le_refl _)

theorem statements (ss : List Stmt) : StartsWithin 0 (ss.flatMap (·.outline 0)) := by
  cases ss with
  | nil => exact nil
  | cons s ss => exact (outline_iff (n := .stmt s)).2 (Nat.le_refl 0)

end StartsWithin

/-- Where the outline of a node ends, and which node it is, can be told from the lines alone. -/
def Node.Delimited (m : Node) (level : Nat) : Prop :=
  ∀ (n : Node) (rest rest' : List String), StartsWithin (2 * level) rest →
    StartsWithin (2 * level) rest' → m.outline level ++ rest = n.outline level ++ rest' →
    m.bare = n.bare ∧ rest = rest'

section Decoding

variable {level : Nat} {rest rest' : List String}

theorem Limb.lines_append_inj {l l' : Limb} (hchild : ∀ m ∈ l.child, m.Delimited (level + 2))
    (hrest : StartsWithin (2 * level + 3) rest) (hrest' : StartsWithin (2 * level + 3) rest')
    (h : l.lines level ++ rest = l'.lines level ++ rest') : l.bare = l'.bare ∧ rest = rest' := by
  obtain ⟨last, caption, child⟩ := l
  obtain ⟨last', caption', child'⟩ := l'
  simp only [lines, List.cons_append, List.cons.injEq, branch_inj] at h
  obtain ⟨⟨rfl, rfl⟩, h⟩ := h
  cases child with
  | none =>
    cases child' with
    | none => exact ⟨rfl, h⟩
    | some n =>
      -- The outline of a child is further in than any line that comes after this one.
      obtain rfl : rest = n.outline (level + 2) ++ rest' := h
      rw [StartsWithin.outline_iff] at hrest
      omega
  | some m =>
    cases child' with
    | none =>
      obtain rfl : m.outline (level + 2) ++ rest = rest' := h
      rw [StartsWithin.outline_iff] at hrest'
      omega
    | some n =>
      obtain ⟨hbare, hrests⟩ := hchild m rfl n rest rest' (hrest.mono (by omega))
        (hrest'.mono (by omega)) h
      exact ⟨by simp only [bare, Option.map_some, hbare], hrests⟩

theorem Limb.flatMap_lines_append_inj {ls ls' : List Limb}
    (hchildren : ∀ m ∈ ls.filterMap (·.child), m.Delimited (level + 2))
    (hrest : StartsWithin (2 * level) rest) (hrest' : StartsWithin (2 * level) rest')
    (h : ls.flatMap (lines level) ++ rest = ls'.flatMap (lines level) ++ rest') :
    ls.map bare = ls'.map bare ∧ rest = rest' := by
  induction ls generalizing ls' with
  | nil =>
    cases ls' with
    | nil => exact ⟨rfl, h⟩
    | cons l' ls' =>
      rw [List.flatMap_nil, List.nil_append, List.flatMap_cons, List.append_assoc] at h
      rw [h, StartsWithin.limb_iff] at hrest
      omega
  | cons l ls ih =>
    cases ls' with
    | nil =>
      rw [List.flatMap_nil, List.nil_append, List.flatMap_cons, List.append_assoc] at h
      rw [← h, StartsWithin.limb_iff] at hrest'
      omega
    | cons l' ls' =>
      rw [List.flatMap_cons, List.flatMap_cons, List.append_assoc, List.append_assoc] at h
      obtain ⟨hfirst, h⟩ := lines_append_inj
        (fun m hm => hchildren m (List.mem_filterMap.2 ⟨l, List.mem_cons_self, hm⟩))
        (hrest.limbs ls) (hrest'.limbs ls') h
      obtain ⟨hothers, hrests⟩ := ih
        (fun m hm => hchildren m (List.filterMap_subset _ (List.subset_cons_self l ls) hm)) h
      exact ⟨by rw [List.map_cons, List.map_cons, hfirst, hothers], hrests⟩

/-- A child without a line that announces it is neither such a line nor what comes later. -/
theorem Limb.flatMap_lines_append_ne {n : Node} {ls : List Limb}
    (hrest : StartsWithin (2 * level) rest) :
    n.outline (level + 1) ++ rest' ≠ ls.flatMap (lines level) ++ rest := by
  intro h
  cases ls with
  | nil =>
    obtain rfl : n.outline (level + 1) ++ rest' = rest := h
    rw [StartsWithin.outline_iff] at hrest
    omega
  | cons l ls =>
    rw [n.outline_eq, List.flatMap_cons, lines, List.cons_append, List.cons_append,
      List.cons_append, List.cons.injEq] at h
    have hindentation := congrArg indentation h.1
    rw [indentation_header, indentation_branch] at hindentation
    omega

theorem Body.lines_append_inj {b b' : Body} (hnodes : ∀ m ∈ b.nodes, ∀ level, m.Delimited level)
    (hrest : StartsWithin (2 * level) rest) (hrest' : StartsWithin (2 * level) rest')
    (h : b.lines level ++ rest = b'.lines level ++ rest') : b.bare = b'.bare ∧ rest = rest' := by
  cases b with
  | inner m =>
    cases b' with
    | inner n =>
      obtain ⟨hbare, hrests⟩ := hnodes m List.mem_cons_self (level + 1) n rest rest'
        (hrest.mono (by omega)) (hrest'.mono (by omega)) h
      exact ⟨congrArg inner hbare, hrests⟩
    | limbs ls' => exact absurd h (Limb.flatMap_lines_append_ne hrest')
  | limbs ls =>
    cases b' with
    | inner n => exact absurd h.symm (Limb.flatMap_lines_append_ne hrest)
    | limbs ls' =>
      obtain ⟨hbare, hrests⟩ := Limb.flatMap_lines_append_inj
        (fun m hm => hnodes m hm (level + 2)) hrest hrest' h
      exact ⟨congrArg limbs hbare, hrests⟩

end Decoding

theorem Node.delimited (m : Node) (level : Nat) : m.Delimited level := by
  induction m using induction generalizing level with
  | node m ih =>
    intro n rest rest' hrest hrest' h
    rw [outline_eq, outline_eq, List.cons_append, List.cons_append, List.cons.injEq,
      header_inj] at h
    obtain ⟨htitle, h⟩ := h
    obtain ⟨hword, hname⟩ := shown_of_title htitle
    obtain ⟨hbody, hrests⟩ := Body.lines_append_inj
      (fun m hm level => ih m (body_nodes_subset _ hm) level) hrest hrest' h
    exact ⟨bare_eq_of_shown hword hname hbody, hrests⟩

theorem Stmt.outline_ne_nil (s : Stmt) : s.outline 0 ≠ [] := fun h =>
  List.cons_ne_nil _ _ (((Node.stmt s).outline_eq 0).symm.trans h)

/-- The outlines of statements, one after the other, determine them as far as they are shown. -/
theorem Stmt.flatMap_outline_inj {ss ss' : List Stmt}
    (h : ss.flatMap (·.outline 0) = ss'.flatMap (·.outline 0)) : ss.map bare = ss'.map bare := by
  induction ss generalizing ss' with
  | nil =>
    cases ss' with
    | nil => rfl
    | cons s' ss' =>
      rw [List.flatMap_nil, List.flatMap_cons] at h
      exact absurd (List.append_eq_nil_iff.1 h.symm).1 s'.outline_ne_nil
  | cons s ss ih =>
    cases ss' with
    | nil =>
      rw [List.flatMap_nil, List.flatMap_cons] at h
      exact absurd (List.append_eq_nil_iff.1 h).1 s.outline_ne_nil
    | cons s' ss' =>
      obtain ⟨hbare, h⟩ := (Node.stmt s).delimited 0 (.stmt s') _ _ (.statements ss)
        (.statements ss') h
      rw [List.map_cons, List.map_cons, Node.stmt.inj hbare, ih h]

/-- Whatever two printers printed before: two programs of which they make the same text are the same
trees with the same texts in them. -/
theorem Printer.print_unambiguous (p p' : Printer) {ss ss' : List Stmt}
    (hlines : ∀ s ∈ ss, (Node.stmt s).OneLine) (hlines' : ∀ s ∈ ss', (Node.stmt s).OneLine)
    (h : (p.print ss).1 = (p'.print ss').1) : ss.map Stmt.bare = ss'.map Stmt.bare := by
  rw [print_eq, print_eq] at h
  have htexts := congrArg textLines h
  rw [textLines_outlineText hlines, textLines_outlineText hlines'] at htexts
  exact Stmt.flatMap_outline_inj htexts

theorem Printer.print_unambiguous_zeros :
    let zero : Value := .number .zero
    let minusZero : Value := .number ⟨0x8000000000000000⟩
    let ss : List Stmt := [.print (.call (.variable (.plain "f")) (.plain ")") [.literal zero])]
    let ss' : List Stmt :=
      [.print (.call (.variable (.plain "f")) (.ofKind .rightParen) [.literal minusZero])]
    (∀ s ∈ ss, (Node.stmt s).OneLine) ∧ (∀ s ∈ ss', (Node.stmt s).OneLine) ∧
      (print ⟨0⟩ ss).1 = (print ⟨7⟩ ss').1 ∧ ss ≠ ss' ∧ ss.map Stmt.bare = ss'.map Stmt.bare := by
  intro zero minusZero ss ss'
  have hlines : ∀ s ∈ ss, (Node.stmt s).OneLine := by
    rw [List.forall_mem_singleton]
    simp [zero, Node.OneLine, Node.walk_eq, Node.preorder_eq, Node.children, Stmt.children,
      Expr.children, Node.label, Stmt.label, Expr.label, Label.texts, Token.plain]
  have hlines' : ∀ s ∈ ss', (Node.stmt s).OneLine := by
    rw [List.forall_mem_singleton]
    simp [minusZero, Node.OneLine, Node.walk_eq, Node.preorder_eq, Node.children, Stmt.children,
      Expr.children, Node.label, Stmt.label, Expr.label, Label.texts, Token.plain]
  have htext : minusZero.literalText = zero.literalText := by decide +kernel
  have hprint : (print ⟨0⟩ ss).1 = (print ⟨7⟩ ss').1 := by
    rw [print_eq, print_eq]
    simp [outlineText, ss, ss', Stmt.outline, Expr.outline, Expr.outlineArguments, htext]
  refine ⟨hlines, hlines', hprint, ?_, print_unambiguous _ _ hlines hlines' hprint⟩
  simp [ss, ss', zero, minusZero, Token.plain, Token.ofKind, Binary64.zero]

end ScrapeScript
