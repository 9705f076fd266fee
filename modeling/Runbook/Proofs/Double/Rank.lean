import Mathlib.Algebra.Order.Field.Power
import Mathlib.Algebra.Order.Ring.Rat
import Mathlib.Tactic.FieldSimp
import Mathlib.Tactic.Linarith
import Mathlib.Tactic.NormNum
import Mathlib.Tactic.Positivity
import Mathlib.Tactic.Ring
import Runbook.Double.Basic

/-!
# The nearest rank

The binade of a ratio is told by its size alone (`binade_eq`), so the rank nearest to a
ratio depends only on its value (`nearestRank_mul`), and the rank nearest to the
magnitude of a rank is that rank (`nearestRank_ratio`).
-/

namespace Runbook.Double

/-! ## Binades -/

section Binade

variable {num den : Nat}

theorem overPower_fst (num den : Nat) (e : Int) : (overPower num den e).1 = num * 2 ^ (-e).toNat := rfl

theorem overPower_snd (num den : Nat) (e : Int) : (overPower num den e).2 = den * 2 ^ e.toNat := rfl

theorem overPower_snd_pos (hden : 0 < den) (e : Int) : 0 < (overPower num den e).2 :=
  Nat.mul_pos hden (Nat.pow_pos Nat.two_pos)

/-- The value of a ratio over a power. -/
theorem overPower_value (num den : Nat) (e : Int) :
    ((overPower num den e).1 : ℚ) / (overPower num den e).2 = num / den / 2 ^ e := by
  rw [overPower_fst, overPower_snd]
  obtain ⟨k, rfl | rfl⟩ := e.eq_nat_or_neg
  · simp [div_div]
  · simp [zpow_neg, mul_div_right_comm]

/-- Where a value stands between the powers at both ends of a binade. -/
def InBinade (num den : Nat) (e : Int) : Prop :=
  (2 : ℚ) ^ (52 + e) ≤ (num : ℚ) / den ∧ (num : ℚ) / den < 2 ^ (53 + e)

theorem InBinade.unique {e f : Int} (he : InBinade num den e) (hf : InBinade num den f) : e = f := by
  have hle : ∀ {a b : Int}, InBinade num den a → InBinade num den b → a ≤ b := fun ha hb => by
    have := (zpow_lt_zpow_iff_right₀ (one_lt_two (α := ℚ))).mp (ha.1.trans_lt hb.2)
    omega
  exact le_antisymm (hle he hf) (hle hf he)

theorem overPower_div_lt_iff (hden : 0 < den) (e : Int) :
    (overPower num den e).1 / (overPower num den e).2 < Nat.pow 2 53 ↔ (num : ℚ) / den < 2 ^ (53 + e) := by
  have hpos : 0 < (overPower num den e).2 := overPower_snd_pos hden e
  rw [Nat.div_lt_iff_lt_mul hpos, zpow_add₀ two_ne_zero, ← div_lt_iff₀ (by positivity), ← overPower_value,
    div_lt_iff₀ (by exact_mod_cast hpos)]
  exact_mod_cast Iff.rfl

/-- The logarithms of a ratio's sides tell its binade but for one place. -/
theorem two_pow_lt_ratio_lt (hnum : 0 < num) (hden : 0 < den) :
    (2 : ℚ) ^ ((num.log2 : Int) - den.log2 - 1) < (num : ℚ) / den ∧
      (num : ℚ) / den < 2 ^ ((num.log2 : Int) - den.log2 + 1) := by
  have hnumLow : (2 : ℚ) ^ num.log2 ≤ num := by exact_mod_cast Nat.log2_self_le hnum.ne'
  have hnumHigh : (num : ℚ) < 2 ^ (num.log2 + 1) := by exact_mod_cast Nat.lt_log2_self
  have hdenLow : (2 : ℚ) ^ den.log2 ≤ den := by exact_mod_cast Nat.log2_self_le hden.ne'
  have hdenHigh : (den : ℚ) < 2 ^ (den.log2 + 1) := by exact_mod_cast Nat.lt_log2_self
  have hdenPos : (0 : ℚ) < den := by exact_mod_cast hden
  constructor
  · rw [lt_div_iff₀ hdenPos]
    calc (2 : ℚ) ^ ((num.log2 : Int) - den.log2 - 1) * den
        < 2 ^ ((num.log2 : Int) - den.log2 - 1) * 2 ^ (den.log2 + 1) := by gcongr
      _ = 2 ^ num.log2 := by
          rw [← zpow_natCast, ← zpow_natCast, ← zpow_add₀ two_ne_zero]
          congr 1
          omega
      _ ≤ num := hnumLow
  · rw [div_lt_iff₀ hdenPos]
    calc (num : ℚ) < 2 ^ (num.log2 + 1) := hnumHigh
      _ = 2 ^ ((num.log2 : Int) - den.log2 + 1) * 2 ^ den.log2 := by
          rw [← zpow_natCast, ← zpow_natCast, ← zpow_add₀ two_ne_zero]
          congr 1
          omega
      _ ≤ 2 ^ ((num.log2 : Int) - den.log2 + 1) * den := by gcongr

/-- The binade of a ratio is told by its value, down to the lowest one. -/
theorem exists_inBinade (hnum : 0 < num) (hden : 0 < den) :
    ∃ e, InBinade num den e ∧ binade num den = max e (-1074) := by
  obtain ⟨hlow, hhigh⟩ := two_pow_lt_ratio_lt hnum hden
  have hdef : binade num den = max (if (num : ℚ) / den < 2 ^ (53 + ((num.log2 : Int) - den.log2 - 53)) then
      (num.log2 : Int) - den.log2 - 53 else (num.log2 : Int) - den.log2 - 53 + 1) (-1074) := by
    simp only [← overPower_div_lt_iff hden]
    rfl
  rw [hdef]
  refine ⟨_, ⟨?_, ?_⟩, rfl⟩
  · split
    · refine le_trans (le_of_eq ?_) hlow.le
      congr 1
      omega
    · next hge => exact (le_of_eq (by congr 1; omega)).trans (not_lt.mp hge)
  · split
    · next hlt => exact hlt
    · refine lt_of_lt_of_eq hhigh ?_
      congr 1
      omega

theorem binade_eq (hnum : 0 < num) (hden : 0 < den) {e : Int} (h : InBinade num den e) :
    binade num den = max e (-1074) := by
  obtain ⟨f, hf, heq⟩ := exists_inBinade hnum hden
  rw [heq, h.unique hf]

theorem binade_mul {k : Nat} (hk : 0 < k) (hnum : 0 < num) (hden : 0 < den) :
    binade (k * num) (k * den) = binade num den := by
  have hvalue : ((k * num : Nat) : ℚ) / (k * den : Nat) = num / den := by
    have : (k : ℚ) ≠ 0 := by exact_mod_cast hk.ne'
    push_cast
    rw [mul_div_mul_left _ _ this]
  obtain ⟨e, he, heq⟩ := exists_inBinade hnum hden
  rw [heq]
  refine binade_eq (Nat.mul_pos hk hnum) (Nat.mul_pos hk hden) ?_
  rwa [InBinade, hvalue]

end Binade

/-! ## Rounding -/

section Rounding

variable {n d k : Nat}

theorem roundQuotient_mul (hk : 0 < k) (n d : Nat) : roundQuotient (k * n) (k * d) = roundQuotient n d := by
  have hless : ∀ a b : Nat, k * a < k * b ↔ a < b := fun a b => Nat.mul_lt_mul_left hk
  simp only [roundQuotient, Nat.mul_div_mul_left _ _ hk, Nat.mul_mod_mul_left, Nat.mul_left_comm 2 k, hless]

theorem roundQuotient_exact (hd : 0 < d) (n : Nat) : roundQuotient (n * d) d = n := by
  simp [roundQuotient, hd]

end Rounding

section Nearest

variable {num den k : Nat}

theorem overPower_mul (k num den : Nat) (e : Int) : overPower (k * num) (k * den) e =
    (k * (overPower num den e).1, k * (overPower num den e).2) := by
  simp only [overPower, Nat.mul_assoc]

theorem nearestRank_zero (den : Nat) : nearestRank 0 den = 0 := if_pos rfl

theorem nearestRank_eq (hnum : num ≠ 0) : nearestRank num den =
    (binade num den + 1074).toNat * Nat.pow 2 52 +
      roundQuotient (overPower num den (binade num den)).1 (overPower num den (binade num den)).2 := by
  rw [nearestRank, if_neg hnum]

/-- The nearest rank depends only on the value of a ratio. -/
theorem nearestRank_mul (hk : 0 < k) (hden : 0 < den) : nearestRank (k * num) (k * den) = nearestRank num den := by
  rcases Nat.eq_zero_or_pos num with rfl | hnum
  · rw [Nat.mul_zero, nearestRank_zero, nearestRank_zero]
  · have hround : ∀ e, roundQuotient (overPower (k * num) (k * den) e).1 (overPower (k * num) (k * den) e).2 =
        roundQuotient (overPower num den e).1 (overPower num den e).2 := fun e => by
      rw [overPower_mul]
      exact roundQuotient_mul hk _ _
    rw [nearestRank_eq (Nat.mul_pos hk hnum).ne', nearestRank_eq hnum.ne', binade_mul hk hnum hden, hround]

/-! ## The magnitude of a rank -/

theorem ratio_snd_pos (rank : Nat) : 0 < (ratio rank).2 := Nat.pow_pos Nat.two_pos

theorem ratio_value (rank : Nat) :
    ((ratio rank).1 : ℚ) / (ratio rank).2 = significand rank * 2 ^ exponent rank := by
  have hvalue := overPower_value (significand rank) 1 (-exponent rank)
  simp only [overPower_fst, overPower_snd, neg_neg, Nat.cast_one, div_one, one_mul, zpow_neg, div_inv_eq_mul]
    at hvalue
  exact hvalue

/-- A significand is exact under its own exponent. -/
theorem roundQuotient_overPower_ratio (rank : Nat) :
    roundQuotient (overPower (ratio rank).1 (ratio rank).2 (exponent rank)).1
      (overPower (ratio rank).1 (ratio rank).2 (exponent rank)).2 = significand rank := by
  rw [overPower_fst, overPower_snd]
  have hnum : (ratio rank).1 * 2 ^ (-exponent rank).toNat =
      significand rank * ((ratio rank).2 * 2 ^ (exponent rank).toNat) := by
    simp only [ratio, Nat.pow_eq]
    ring
  rw [hnum]
  exact roundQuotient_exact (Nat.mul_pos (ratio_snd_pos rank) (Nat.pow_pos Nat.two_pos)) _

theorem significand_of_lt {rank : Nat} (h : rank < Nat.pow 2 52) : significand rank = rank := if_pos h

theorem exponent_of_lt {rank : Nat} (h : rank < Nat.pow 2 52) : exponent rank = -1074 := if_pos h

theorem significand_of_ge {rank : Nat} (h : ¬rank < Nat.pow 2 52) :
    significand rank = Nat.pow 2 52 + rank % Nat.pow 2 52 := if_neg h

theorem exponent_of_ge {rank : Nat} (h : ¬rank < Nat.pow 2 52) :
    exponent rank = (rank / Nat.pow 2 52 : Nat) - 1075 := if_neg h

theorem significand_pos {rank : Nat} (h : 0 < rank) : 0 < significand rank := by
  rw [significand]
  split
  · exact h
  · exact Nat.lt_of_lt_of_le (Nat.pow_pos Nat.two_pos) (Nat.le_add_right _ _)

theorem ratio_fst_pos {rank : Nat} (h : 0 < rank) : 0 < (ratio rank).1 :=
  Nat.mul_pos (significand_pos h) (Nat.pow_pos Nat.two_pos)

theorem binade_ratio {rank : Nat} (h : 0 < rank) : binade (ratio rank).1 (ratio rank).2 = exponent rank := by
  have hnum := ratio_fst_pos h
  have hden := ratio_snd_pos rank
  by_cases hlow : rank < Nat.pow 2 52
  · obtain ⟨e, he, heq⟩ := exists_inBinade hnum hden
    have hvalue := ratio_value rank
    rw [significand_of_lt hlow, exponent_of_lt hlow] at hvalue
    have hrank : (rank : ℚ) < 2 ^ 52 := by exact_mod_cast hlow
    have hlt : (2 : ℚ) ^ (52 + e) < 2 ^ (52 + (-1074) : Int) := by
      refine he.1.trans_lt ?_
      rw [hvalue, zpow_add₀ two_ne_zero]
      gcongr
      exact_mod_cast hrank
    have := (zpow_lt_zpow_iff_right₀ (one_lt_two (α := ℚ))).mp hlt
    rw [heq, exponent_of_lt hlow]
    omega
  · have hpos : 0 < rank / Nat.pow 2 52 := Nat.div_pos (not_lt.mp hlow) (Nat.pow_pos Nat.two_pos)
    have hmod : rank % Nat.pow 2 52 < Nat.pow 2 52 := Nat.mod_lt _ (Nat.pow_pos Nat.two_pos)
    have hbinade : InBinade (ratio rank).1 (ratio rank).2 (exponent rank) := by
      rw [InBinade, ratio_value, significand_of_ge hlow, zpow_add₀ two_ne_zero, zpow_add₀ two_ne_zero]
      constructor
      · gcongr
        exact_mod_cast Nat.le_add_right _ _
      · gcongr
        have : Nat.pow 2 52 + rank % Nat.pow 2 52 < 2 ^ 53 := by
          have htwice : (2 : Nat) ^ 53 = Nat.pow 2 52 + Nat.pow 2 52 := rfl
          omega
        exact_mod_cast this
    rw [binade_eq hnum hden hbinade, exponent_of_ge hlow]
    omega

/-- The rank nearest to the magnitude of a rank is that rank. -/
theorem nearestRank_ratio (rank : Nat) : nearestRank (ratio rank).1 (ratio rank).2 = rank := by
  rcases Nat.eq_zero_or_pos rank with rfl | hrank
  · exact nearestRank_zero _
  rw [nearestRank_eq (ratio_fst_pos hrank).ne', binade_ratio hrank, roundQuotient_overPower_ratio]
  by_cases hlow : rank < Nat.pow 2 52
  · rw [significand_of_lt hlow, exponent_of_lt hlow]
    exact Nat.zero_add _
  · have hpos : 0 < rank / Nat.pow 2 52 := Nat.div_pos (not_lt.mp hlow) (Nat.pow_pos Nat.two_pos)
    rw [significand_of_ge hlow, exponent_of_ge hlow]
    have hsteps : ((rank / Nat.pow 2 52 : Nat) - 1075 + 1074 : Int).toNat = rank / Nat.pow 2 52 - 1 := by omega
    calc _ = (rank / Nat.pow 2 52 - 1 + 1) * Nat.pow 2 52 + rank % Nat.pow 2 52 := by
          rw [hsteps, Nat.add_mul, Nat.one_mul, Nat.add_assoc]
      _ = Nat.pow 2 52 * (rank / Nat.pow 2 52) + rank % Nat.pow 2 52 := by
          rw [Nat.sub_add_cancel hpos, Nat.mul_comm]
      _ = rank := Nat.div_add_mod _ _

end Nearest

end Runbook.Double
