import Mathlib.Order.Monotone.Basic
import ScrapeScript.Number.Rounding

namespace ScrapeScript

theorem twoTo_pos (n : Nat) : 0 < twoTo n := Nat.pow_pos (by decide)

theorem twoTo_succ (n : Nat) : twoTo (n + 1) = twoTo n * 2 := Nat.pow_succ 2 n

theorem twoTo_add (m n : Nat) : twoTo (m + n) = twoTo m * twoTo n := Nat.pow_add 2 m n

theorem twoTo_le {m n : Nat} (h : m ≤ n) : twoTo m ≤ twoTo n := Nat.pow_le_pow_right (by decide) h

/-- A rounded quotient is no more than a half away, and even where it is a half away. -/
theorem roundHalfEven_spec (num : Nat) {den : Nat} (hden : 0 < den) :
    2 * num ≤ 2 * (roundHalfEven num den * den) + den ∧
      2 * (roundHalfEven num den * den) ≤ 2 * num + den ∧
      (2 * num = 2 * (roundHalfEven num den * den) + den ∨
        2 * (roundHalfEven num den * den) = 2 * num + den → roundHalfEven num den % 2 = 0) := by
  have hdiv := Nat.div_add_mod num den
  have hmod := Nat.mod_lt num hden
  rw [Nat.mul_comm] at hdiv
  unfold roundHalfEven
  dsimp only
  split
  · omega
  split
  · rw [Nat.add_mul]
    omega
  · obtain heven | hodd := Nat.mod_two_eq_zero_or_one (num / den)
    · rw [heven, Nat.add_zero]
      omega
    · rw [hodd, Nat.add_mul]
      omega

namespace Binary64

/-- The units of the number whose bit pattern is `n`, as if the exponents went on for ever. -/
def gridUnits (n : Nat) : Nat :=
  if n / twoTo 52 = 0 then n % twoTo 52
  else (twoTo 52 + n % twoTo 52) * twoTo (n / twoTo 52 - 1)

theorem units_eq_gridUnits {x : Binary64} (hx : x.bits ≤ infinity.bits) :
    x.units = gridUnits x.bits.toNat := by
  have hle : x.bits.toNat ≤ infinity.bits.toNat := hx
  have hfield : x.exponentField = x.bits.toNat / twoTo 52 := by
    refine Nat.mod_eq_of_lt (Nat.div_lt_of_lt_mul (Nat.lt_of_le_of_lt hle ?_))
    decide
  unfold units gridUnits fractionField
  rw [hfield]

theorem gridUnits_zero {fraction : Nat} (h : fraction < twoTo 52) :
    gridUnits fraction = fraction := by
  rw [gridUnits, Nat.div_eq_of_lt h, if_pos rfl, Nat.mod_eq_of_lt h]

theorem gridUnits_succ (exponent : Nat) {fraction : Nat} (h : fraction < twoTo 52) :
    gridUnits ((exponent + 1) * twoTo 52 + fraction) = (twoTo 52 + fraction) * twoTo exponent := by
  have hpos := twoTo_pos 52
  rw [gridUnits, Nat.mul_comm, Nat.mul_add_div hpos, Nat.mul_add_mod, Nat.div_eq_of_lt h,
    Nat.mod_eq_of_lt h, if_neg (by omega)]
  rfl

theorem carry_eq : twoTo 53 = twoTo 52 + twoTo 52 := by decide

/-- A significand, counted in units of a power of two, is a place on the grid. Where there is such a
power the leading bit is part of it. -/
theorem gridUnits_significand {power significand : Nat} (hle : significand ≤ twoTo 53)
    (hge : power = 0 ∨ twoTo 52 ≤ significand) :
    gridUnits (power * twoTo 52 + significand) = significand * twoTo power := by
  have hcarry := carry_eq
  have hone : twoTo 0 = 1 := rfl
  obtain hlow | hhigh := Nat.lt_or_ge significand (twoTo 52)
  · obtain rfl : power = 0 := by omega
    rw [Nat.zero_mul, Nat.zero_add, gridUnits_zero hlow, hone, Nat.mul_one]
  obtain hfit | rfl : significand < twoTo 53 ∨ significand = twoTo 53 := by omega
  · obtain ⟨fraction, rfl⟩ : ∃ f, significand = twoTo 52 + f := ⟨significand - twoTo 52, by omega⟩
    rw [← Nat.add_assoc, ← Nat.succ_mul, gridUnits_succ power (by omega)]
  · -- The carry is one in the exponent, and nothing is left of the fraction.
    have hplace : power * twoTo 52 + twoTo 53 = (power + 1 + 1) * twoTo 52 + 0 := by
      rw [hcarry, Nat.succ_mul, Nat.succ_mul]
      omega
    rw [hplace, gridUnits_succ (power + 1) (twoTo_pos 52), twoTo_succ power, hcarry, Nat.add_zero,
      ← Nat.mul_assoc, Nat.add_mul]
    omega

/-- The next place on the grid is at least a power of two further. -/
theorem gridUnits_step {power significand : Nat} (hle : significand ≤ twoTo 53)
    (hge : power = 0 ∨ twoTo 52 ≤ significand) :
    significand * twoTo power + twoTo power ≤
      gridUnits (power * twoTo 52 + significand + 1) := by
  have hcarry := carry_eq
  have hpos := twoTo_pos 52
  rw [← Nat.succ_mul, Nat.add_assoc]
  obtain hfit | rfl : significand < twoTo 53 ∨ significand = twoTo 53 := by omega
  · rw [gridUnits_significand hfit (by omega)]
  · have hplace : power * twoTo 52 + (twoTo 53 + 1) = (power + 1) * twoTo 52 + (twoTo 52 + 1) := by
      rw [hcarry, Nat.succ_mul]
      omega
    rw [hplace, gridUnits_significand (by omega) (by omega), twoTo_succ power, hcarry]
    calc (twoTo 52 + twoTo 52 + 1) * twoTo power
        ≤ ((twoTo 52 + 1) * 2) * twoTo power := Nat.mul_le_mul_right _ (by omega)
      _ = (twoTo 52 + 1) * (twoTo power * 2) := by
        rw [Nat.mul_assoc, Nat.mul_comm 2]

theorem gridUnits_strictMono : StrictMono gridUnits := by
  refine strictMono_nat_of_lt_succ fun n => ?_
  have hcarry := carry_eq
  have hpos := twoTo_pos 52
  -- Any bit pattern is a significand with a power of two.
  obtain ⟨power, significand, rfl, hle, hge⟩ : ∃ power significand,
      n = power * twoTo 52 + significand ∧ significand ≤ twoTo 53 ∧
        (power = 0 ∨ twoTo 52 ≤ significand) := by
    have hdiv := Nat.div_add_mod n (twoTo 52)
    have hmod := Nat.mod_lt n hpos
    cases hexponent : n / twoTo 52 with
    | zero =>
      rw [hexponent] at hdiv
      exact ⟨0, n, by omega, by omega, .inl rfl⟩
    | succ power =>
      rw [hexponent, Nat.mul_comm, Nat.succ_mul] at hdiv
      exact ⟨power, twoTo 52 + n % twoTo 52, by omega, by omega, .inr (by omega)⟩
  have hstep := gridUnits_step hle hge
  rw [gridUnits_significand hle hge]
  exact Nat.lt_of_lt_of_le (Nat.lt_add_of_pos_right (twoTo_pos power)) hstep

end Binary64

end ScrapeScript
