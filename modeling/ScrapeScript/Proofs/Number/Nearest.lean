import Mathlib.Algebra.Order.Field.Basic
import Mathlib.Algebra.Order.Field.Rat
import Mathlib.Data.List.TakeWhile
import Mathlib.Tactic.FieldSimp
import Mathlib.Tactic.Linarith
import ScrapeScript.Proofs.Number.Grid
import ScrapeScript.Proofs.Number.Numerals

namespace ScrapeScript

namespace Binary64

section Places

variable {scaled den m n : Nat}

/-- How far a place on the grid is from a quotient, in parts of a unit. -/
def distance (scaled den n : Nat) : Nat := ((gridUnits n * den : Nat) - scaled : Int).natAbs

/-- No other place is nearer, and none is as near unless this one is even. -/
def Closest (scaled den n m : Nat) : Prop :=
  distance scaled den n < distance scaled den m ∨
    distance scaled den n = distance scaled den m ∧ n % 2 = 0

/-- The place a quotient is rounded to, as if the exponents went on for ever. -/
def roundedPlace (scaled den : Nat) : Nat :=
  let power := Nat.log2 (scaled / den) - 52
  power * twoTo 52 + roundHalfEven scaled (den * twoTo power)

/-- The power of two leaves the significand 53 bits, with the leading one among them if there is
such a power. -/
theorem significand_bounds (scaled : Nat) (hden : 0 < den) :
    let power := Nat.log2 (scaled / den) - 52
    scaled < twoTo 53 * (den * twoTo power) ∧
      (power = 0 ∨ twoTo 52 * (den * twoTo power) ≤ scaled) := by
  intro power
  have hfactor (k : Nat) : twoTo k * (den * twoTo power) = twoTo (k + power) * den := by
    rw [twoTo_add, Nat.mul_assoc, Nat.mul_comm den]
  rw [hfactor, hfactor]
  constructor
  · have hlog : scaled / den < twoTo (53 + power) :=
      Nat.lt_of_lt_of_le Nat.lt_log2_self (twoTo_le (by omega))
    exact (Nat.div_lt_iff_lt_mul hden).1 hlog
  · obtain hpower | hpower := Nat.eq_zero_or_pos power
    · exact .inl hpower
    · have hne : scaled / den ≠ 0 := by
        intro h
        have hlog : Nat.log2 0 = 0 := rfl
        simp only [power, h, hlog] at hpower
        omega
      have hlog : twoTo (52 + power) ≤ scaled / den :=
        Nat.le_trans (twoTo_le (by omega)) (Nat.log2_self_le hne)
      exact .inr ((Nat.le_div_iff_mul_le hden).1 hlog)

/-- Rounding in units does not pass a whole number of them. -/
theorem rounded_le {unit a s : Nat} (h : scaled < a * unit)
    (hs : 2 * (s * unit) ≤ 2 * scaled + unit) : s ≤ a := by
  have hlt : (2 * s) * unit < (2 * a + 1) * unit := by
    rw [Nat.mul_assoc, Nat.add_mul, Nat.mul_assoc]
    omega
  have hle := Nat.lt_of_mul_lt_mul_right hlt
  omega

theorem le_rounded {unit a s : Nat} (hunit : 0 < unit) (h : a * unit ≤ scaled)
    (hs : 2 * scaled ≤ 2 * (s * unit) + unit) : a ≤ s := by
  have hle : (2 * a) * unit ≤ (2 * s + 1) * unit := by
    rw [Nat.mul_assoc, Nat.add_mul, Nat.mul_assoc]
    omega
  have hle := Nat.le_of_mul_le_mul_right hle hunit
  omega

theorem roundedPlace_closest (hden : 0 < den) (hm : m ≠ roundedPlace scaled den) :
    Closest scaled den (roundedPlace scaled den) m := by
  obtain ⟨hupper, hlower⟩ := significand_bounds scaled hden
  unfold roundedPlace at hm ⊢
  dsimp only at hm ⊢
  generalize Nat.log2 (scaled / den) - 52 = power at *
  have hunit : 0 < den * twoTo power := Nat.mul_pos hden (twoTo_pos power)
  obtain ⟨hbelow, habove, htie⟩ := roundHalfEven_spec scaled hunit
  generalize roundHalfEven scaled (den * twoTo power) = significand at *
  have hcarry := carry_eq
  have hle : significand ≤ twoTo 53 := rounded_le hupper habove
  have hge : power = 0 ∨ twoTo 52 ≤ significand :=
    hlower.imp_right fun h => le_rounded hunit h hbelow
  have hgrid (s : Nat) : s * twoTo power * den = s * (den * twoTo power) := by
    rw [Nat.mul_assoc, Nat.mul_comm (twoTo power)]
  have hplace := gridUnits_significand hle hge
  have hparity : significand % 2 = 0 → (power * twoTo 52 + significand) % 2 = 0 := by
    intro h
    have hbase : twoTo 52 % 2 = 0 := by decide
    rw [Nat.add_mod, Nat.mul_mod, hbase, h]
    rfl
  unfold Closest distance
  rw [hplace, hgrid]
  obtain hm | hm := Nat.lt_or_gt_of_ne hm
  · -- Below, the next place is one unit away, save below a power of two, where the quotient is not.
    obtain hfirst | hfirst : (power = 0 ∨ twoTo 52 ≤ significand - 1) ∨
        significand = twoTo 52 ∧ twoTo 52 * (den * twoTo power) ≤ scaled := by omega
    · have hpos : 0 < significand := by
        obtain rfl | hfirst := hfirst
        · omega
        · exact Nat.lt_of_lt_of_le (twoTo_pos 52) (by omega)
      have hprevious : gridUnits m ≤ (significand - 1) * twoTo power := by
        rw [← gridUnits_significand (by omega) hfirst]
        exact gridUnits_strictMono.monotone (by omega)
      have hscaled := Nat.mul_le_mul_right den hprevious
      rw [hgrid, Nat.sub_mul, Nat.one_mul] at hscaled
      have hone : den * twoTo power ≤ significand * (den * twoTo power) :=
        Nat.le_mul_of_pos_left _ hpos
      omega
    · obtain ⟨rfl, hscaled⟩ := hfirst
      have hlt := Nat.mul_lt_mul_of_pos_right (gridUnits_strictMono hm) hden
      rw [hplace, hgrid] at hlt
      omega
  · have hnext : significand * twoTo power + twoTo power ≤ gridUnits m :=
      Nat.le_trans (gridUnits_step hle hge) (gridUnits_strictMono.monotone hm)
    have hscaled := Nat.mul_le_mul_right den hnext
    rw [Nat.add_mul, hgrid, Nat.mul_comm (twoTo power)] at hscaled
    omega

/-- Where the place is past infinity, infinity is nearer than all that is before it. -/
theorem min_roundedPlace_closest (hden : 0 < den) {last : Nat} (hlast : m ≤ last)
    (hm : m ≠ min (roundedPlace scaled den) last) (heven : last % 2 = 0) :
    Closest scaled den (min (roundedPlace scaled den) last) m := by
  obtain hle | hlt := le_or_gt (roundedPlace scaled den) last
  · rw [Nat.min_eq_left hle] at hm ⊢
    exact roundedPlace_closest hden hm
  · rw [Nat.min_eq_right (Nat.le_of_lt hlt)] at hm ⊢
    have hclosest : Closest scaled den (roundedPlace scaled den) last :=
      roundedPlace_closest hden (Nat.ne_of_lt hlt)
    have hbefore := Nat.mul_lt_mul_of_pos_right (gridUnits_strictMono hlt) hden
    have hbelow := Nat.mul_lt_mul_of_pos_right
      (gridUnits_strictMono (Nat.lt_of_le_of_ne hlast hm)) hden
    unfold Closest distance at *
    omega

end Places

theorem bits_ofRatio (num den : Nat) : (ofRatio num den).bits.toNat =
    min (roundedPlace (num * unitsPerOne) den) infinity.bits.toNat := by
  refine UInt64.toNat_ofNat_of_lt' (Nat.lt_of_le_of_lt (Nat.min_le_right _ _) ?_)
  decide

/-- The magnitude of a number. Infinity counts as the power of two that comes next on the grid. -/
def ratio (x : Binary64) : ℚ := x.units / unitsPerOne

/-- The number nearest to a magnitude, and the even one of two that are as near. -/
structure Nearest (q : ℚ) (x : Binary64) : Prop where
  le_infinity : x.bits ≤ infinity.bits
  nearest (y : Binary64) : y.bits ≤ infinity.bits → |x.ratio - q| ≤ |y.ratio - q|
  even (y : Binary64) : y.bits ≤ infinity.bits → y ≠ x → |y.ratio - q| = |x.ratio - q| →
    x.bits.toNat % 2 = 0

theorem abs_ratio_sub {x : Binary64} (hx : x.bits ≤ infinity.bits) (num : Nat) {den : Nat}
    (hden : 0 < den) : |x.ratio - (num / den : ℚ)| =
      distance (num * unitsPerOne) den x.bits.toNat / (unitsPerOne * den) := by
  have hden : (0 : ℚ) < den := Nat.cast_pos.2 hden
  have hone : (0 : ℚ) < unitsPerOne := Nat.cast_pos.2 (twoTo_pos 1074)
  have hsub : x.ratio - (num / den : ℚ) =
      (((gridUnits x.bits.toNat * den : Nat) - (num * unitsPerOne : Nat) : Int) : ℚ) /
        (unitsPerOne * den) := by
    rw [ratio, units_eq_gridUnits hx, div_sub_div _ _ hone.ne' hden.ne', mul_comm _ (num : ℚ)]
    push_cast
    rfl
  rw [hsub, abs_div, abs_of_pos (mul_pos hone hden), ← Int.cast_abs, Int.abs_eq_natAbs]
  rfl

theorem bits_injective {x y : Binary64} (h : x.bits.toNat = y.bits.toNat) : x = y := by
  cases x
  cases y
  exact congrArg mk (UInt64.toNat_inj.1 h)

/-- A quotient is rounded to the nearest number. -/
theorem nearest_ofRatio (num : Nat) {den : Nat} (hden : 0 < den) :
    Nearest (num / den) (ofRatio num den) := by
  have hscale : (0 : ℚ) < unitsPerOne * den :=
    mul_pos (Nat.cast_pos.2 (twoTo_pos 1074)) (Nat.cast_pos.2 hden)
  have hbits := bits_ofRatio num den
  have hx : (ofRatio num den).bits ≤ infinity.bits := by
    show (ofRatio num den).bits.toNat ≤ _
    rw [hbits]
    exact Nat.min_le_right _ _
  have hclosest (y : Binary64) (hy : y.bits ≤ infinity.bits) (hne : y ≠ ofRatio num den) :
      Closest (num * unitsPerOne) den (ofRatio num den).bits.toNat y.bits.toNat := by
    have hne : y.bits.toNat ≠ (ofRatio num den).bits.toNat := fun h => hne (bits_injective h)
    rw [hbits] at hne ⊢
    exact min_roundedPlace_closest hden hy hne (by decide)
  refine ⟨hx, fun y hy => ?_, fun y hy hne heq => ?_⟩
  · by_cases hne : y = ofRatio num den
    · rw [hne]
    rw [abs_ratio_sub hx num hden, abs_ratio_sub hy num hden, div_le_div_iff_of_pos_right hscale,
      Nat.cast_le]
    exact (hclosest y hy hne).elim Nat.le_of_lt fun h => h.1.le
  · rw [abs_ratio_sub hx num hden, abs_ratio_sub hy num hden, div_left_inj' hscale.ne',
      Nat.cast_inj] at heq
    obtain hlt | ⟨-, heven⟩ := hclosest y hy hne
    · exact absurd heq hlt.ne'
    · exact heven

theorem ratio_lt {x y : Binary64} (hy : y.bits ≤ infinity.bits)
    (h : x.bits.toNat < y.bits.toNat) : x.ratio < y.ratio := by
  have hx : x.bits ≤ infinity.bits := Nat.le_trans (Nat.le_of_lt h) hy
  unfold ratio
  rw [units_eq_gridUnits hx, units_eq_gridUnits hy]
  exact div_lt_div_of_pos_right (Nat.cast_lt.2 (gridUnits_strictMono h))
    (Nat.cast_pos.2 (twoTo_pos 1074))

/-- Two numbers that are as near are neighbours, of which one is not even. -/
theorem Nearest.not_lt {q : ℚ} {x y : Binary64} (hx : Nearest q x) (hy : Nearest q y) :
    ¬x.bits.toNat < y.bits.toNat := by
  intro hlt
  have hne : y ≠ x := fun h => Nat.lt_irrefl _ (h ▸ hlt)
  have heq : |y.ratio - q| = |x.ratio - q| :=
    le_antisymm (hy.nearest x hx.le_infinity) (hx.nearest y hy.le_infinity)
  have hevenx := hx.even y hy.le_infinity hne heq
  have heveny := hy.even x hx.le_infinity hne.symm heq.symm
  have hyle : y.bits.toNat ≤ infinity.bits.toNat := hy.le_infinity
  -- There is a number between two even ones, and it is nearer.
  obtain ⟨z, hz⟩ : ∃ z : Binary64, z.bits.toNat = x.bits.toNat + 1 :=
    ⟨⟨UInt64.ofNat (x.bits.toNat + 1)⟩,
      UInt64.toNat_ofNat_of_lt' (Nat.lt_of_le_of_lt hlt (UInt64.toNat_lt y.bits))⟩
  have hzle : z.bits ≤ infinity.bits := by
    show z.bits.toNat ≤ infinity.bits.toNat
    omega
  have hxz : x.ratio < z.ratio := ratio_lt hzle (by omega)
  have hzy : z.ratio < y.ratio := ratio_lt hy.le_infinity (by omega)
  have hnearest := hx.nearest z hzle
  obtain h | h := abs_eq_abs.1 heq
  · linarith
  · have hlt : |z.ratio - q| < y.ratio - q := abs_lt.2 ⟨by linarith, by linarith⟩
    have hle : y.ratio - q ≤ |x.ratio - q| := heq ▸ le_abs_self _
    linarith

theorem Nearest.unique {q : ℚ} {x y : Binary64} (hx : Nearest q x) (hy : Nearest q y) : x = y :=
  bits_injective (Nat.le_antisymm (Nat.le_of_not_lt (hy.not_lt hx))
    (Nat.le_of_not_lt (hx.not_lt hy)))

end Binary64

namespace Decimal

/-- Digits, and perhaps others behind a point, write a magnitude. -/
inductive Writes : List Char → ℚ → Prop
  | whole {ds : List Char} {n : Nat} : Numeral ds n → Writes ds n
  | point {ds es : List Char} {m n : Nat} : Numeral ds m → Numeral es n →
    Writes (ds ++ '.' :: es) (m + n / 10 ^ es.length)

theorem ofChars_whole {ds : List Char} (h : ∀ d ∈ ds, isDigit d = true) :
    ofChars ds = ⟨natOfDigits ds, 0⟩ := by
  simp [ofChars, List.takeWhile_eq_self_iff.2 h, List.dropWhile_eq_nil_iff.2 h]

theorem ofChars_point {ds : List Char} (es : List Char) (h : ∀ d ∈ ds, isDigit d = true) :
    ofChars (ds ++ '.' :: es) = ⟨natOfDigits (ds ++ es), -(es.length : Nat)⟩ := by
  obtain ⟨htake, hdrop⟩ := span_isDigit_point es h
  simp [ofChars, htake, hdrop]

theorem toBinary64_neg (coefficient places : Nat) :
    toBinary64 ⟨coefficient, -(places : Nat)⟩ = Binary64.ofRatio coefficient (tenTo places) := by
  have hone : tenTo 0 = 1 := rfl
  simp [toBinary64, hone]

/-- What is written is read as the nearest number. -/
theorem Writes.nearest {cs : List Char} {q : ℚ} (h : Writes cs q) :
    (ofChars cs).toBinary64.Nearest q := by
  have hround (coefficient places : Nat) :
      (toBinary64 ⟨coefficient, -(places : Nat)⟩).Nearest (coefficient / 10 ^ places) := by
    have hplaces : ((tenTo places : Nat) : ℚ) = 10 ^ places := Nat.cast_pow 10 places
    rw [toBinary64_neg, ← hplaces]
    exact Binary64.nearest_ofRatio coefficient (Nat.pow_pos (by decide))
  cases h with
  | whole hds =>
    have hnearest := hround (natOfDigits cs) 0
    rw [pow_zero, div_one] at hnearest
    rw [ofChars_whole hds.isDigit_of_mem, hds.eq_natOfDigits]
    exact hnearest
  | @point ds es m n hds hes =>
    have hvalue : (m + n / 10 ^ es.length : ℚ) =
        (natOfDigits (ds ++ es) : Nat) / 10 ^ es.length := by
      rw [natOfDigits_append, ← hds.eq_natOfDigits, ← hes.eq_natOfDigits]
      push_cast
      field_simp
    rw [hvalue, ofChars_point es hds.isDigit_of_mem]
    exact hround _ _

end Decimal

end ScrapeScript
