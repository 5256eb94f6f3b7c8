import Mathlib.Tactic.Ring
import ScrapeScript.Number.Decimal

namespace ScrapeScript

namespace Decimal

/-- The ten digits, and what each of them counts. -/
def digits : List (Char × Nat) :=
  [('0', 0), ('1', 1), ('2', 2), ('3', 3), ('4', 4), ('5', 5), ('6', 6), ('7', 7), ('8', 8),
    ('9', 9)]

def Digit (c : Char) : Prop := ∃ v, (c, v) ∈ digits

/-- Digits and the number that they write: each counts for the power of ten that belongs to its
place, and the last one for itself. -/
inductive Numeral : List Char → Nat → Prop
  | nil : Numeral [] 0
  | cons {d : Char} {v : Nat} {ds : List Char} {n : Nat} : (d, v) ∈ digits → Numeral ds n →
    Numeral (d :: ds) (v * 10 ^ ds.length + n)

section Digits

variable {c d : Char} {v : Nat}

theorem digit_iff : Digit c ↔ isDigit c = true := by
  constructor
  · rintro ⟨v, hv⟩
    have hall : ∀ e ∈ digits, isDigit e.1 = true := by decide
    exact hall (c, v) hv
  · intro h
    -- There is no code point between the first digit and the last one but theirs.
    have hall : ∀ n < '9'.toNat + 1, '0'.toNat ≤ n → ∃ e ∈ digits, e.1 = Char.ofNat n := by decide
    have hrange : '0'.toNat ≤ c.toNat ∧ c.toNat ≤ '9'.toNat := by
      simp only [isDigit, Bool.and_eq_true, decide_eq_true_eq] at h
      exact h
    obtain ⟨e, he, hc⟩ := hall c.toNat (Nat.lt_succ_of_le hrange.2) hrange.1
    rw [Char.ofNat_toNat] at hc
    exact ⟨e.2, hc ▸ he⟩

theorem digitValue_eq (h : (d, v) ∈ digits) : digitValue d = v := by
  have hall : ∀ e ∈ digits, digitValue e.1 = e.2 := by decide
  exact hall (d, v) h

end Digits

theorem natOfDigits_append (ds es : List Char) :
    natOfDigits (ds ++ es) = natOfDigits ds * 10 ^ es.length + natOfDigits es := by
  have hfrom (n : Nat) : es.foldl (fun n c => 10 * n + digitValue c) n =
      n * 10 ^ es.length + natOfDigits es := by
    unfold natOfDigits
    induction es generalizing n with
    | nil => simp
    | cons e es ih =>
      rw [List.foldl_cons, List.foldl_cons, ih, ih (10 * 0 + digitValue e), List.length_cons,
        Nat.pow_succ]
      ring
  rw [natOfDigits, List.foldl_append]
  exact hfrom _

theorem natOfDigits_cons (d : Char) (ds : List Char) :
    natOfDigits (d :: ds) = digitValue d * 10 ^ ds.length + natOfDigits ds := by
  have hone : natOfDigits [d] = digitValue d := Nat.zero_add _
  rw [← List.singleton_append, natOfDigits_append, hone]

namespace Numeral

variable {ds : List Char} {n : Nat}

theorem isDigit_of_mem (h : Numeral ds n) : ∀ d ∈ ds, isDigit d = true := by
  induction h with
  | nil => exact List.forall_mem_nil _
  | cons hd _ ih => exact List.forall_mem_cons.2 ⟨digit_iff.1 ⟨_, hd⟩, ih⟩

theorem eq_natOfDigits (h : Numeral ds n) : n = natOfDigits ds := by
  induction h with
  | nil => rfl
  | cons hd _ ih => rw [natOfDigits_cons, digitValue_eq hd, ih]

end Numeral

/-- Digits write the number as which they are read. -/
theorem numeral_natOfDigits {ds : List Char} (h : ∀ d ∈ ds, Digit d) :
    Numeral ds (natOfDigits ds) := by
  induction ds with
  | nil => exact .nil
  | cons d ds ih =>
    obtain ⟨⟨v, hv⟩, hds⟩ := List.forall_mem_cons.1 h
    rw [natOfDigits_cons, digitValue_eq hv]
    exact .cons hv (ih hds)

end Decimal

end ScrapeScript
