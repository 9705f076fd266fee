import Runbook.Double.Decimal
import Runbook.Proofs.Double.Rank

/-!
# The shortest decimal reads back

A decimal may be written with more zeros at its end (`Decimal.Padded`), which does not
change the rank nearest to it. The decimal that is printed for a rank was tried on the
reader before its zeros were taken away, or it is the exact one; so it is read as that
rank (`nearestRank_shortest`).
-/

namespace Runbook

namespace Decimal

/-! ## Zeros at the end -/

/-- The second decimal is the first one with zeros at the end of its digits. -/
def Padded (x y : Decimal) : Prop := ∃ k : Nat, y.digits = x.digits * 10 ^ k ∧ y.scale = x.scale - k

theorem width_mul_ten {n : Nat} (hn : 0 < n) : width (n * 10) = width n + 1 := by
  rw [width, width, Nat.toDigits_of_base_le (by decide) (by omega), Nat.mul_div_cancel n (by decide),
    List.length_append]
  rfl

theorem nearestRank_of_digits_eq_zero {x : Decimal} (h : x.digits = 0) : x.nearestRank = 0 := by
  rw [nearestRank, h]
  rfl

/-- The place of the digit in front of the first one. -/
def place (x : Decimal) : Int := width x.digits + x.scale

theorem nearestRank_eq {x : Decimal} (h : x.digits ≠ 0) : x.nearestRank =
    if x.place < -330 then 0 else if 320 < x.place then Double.ranks
    else Double.nearestRank x.ratio.1 x.ratio.2 := by
  simp only [nearestRank, place, h, decide_false, Bool.false_or, decide_eq_true_eq]
  rfl

theorem nearestRank_mul_ten (n : Nat) (scale : Int) :
    nearestRank ⟨n * 10, scale - 1⟩ = nearestRank ⟨n, scale⟩ := by
  rcases Nat.eq_zero_or_pos n with rfl | hn
  · rw [nearestRank_of_digits_eq_zero rfl, nearestRank_of_digits_eq_zero (Nat.zero_mul 10)]
  · have hplace : place ⟨n * 10, scale - 1⟩ = place ⟨n, scale⟩ := by
      simp only [place, width_mul_ten hn]
      omega
    have hratio : Double.nearestRank (ratio ⟨n * 10, scale - 1⟩).1 (ratio ⟨n * 10, scale - 1⟩).2 =
        Double.nearestRank (ratio ⟨n, scale⟩).1 (ratio ⟨n, scale⟩).2 := by
      simp only [ratio, Nat.pow_eq]
      rcases le_or_gt scale 0 with hscale | hscale
      · have hzero : (scale - 1).toNat = 0 ∧ scale.toNat = 0 := by omega
        have hsucc : (-(scale - 1)).toNat = (-scale).toNat + 1 := by omega
        rw [hzero.1, hzero.2, hsucc, Nat.pow_succ, Nat.pow_zero, Nat.mul_one, Nat.mul_one,
          Nat.mul_comm n, Nat.mul_comm _ 10]
        exact Double.nearestRank_mul (by decide) (Nat.pow_pos (by decide))
      · have hzero : (-(scale - 1)).toNat = 0 ∧ (-scale).toNat = 0 := by omega
        have hsucc : scale.toNat = (scale - 1).toNat + 1 := by omega
        rw [hzero.1, hzero.2, hsucc, Nat.pow_succ, Nat.mul_assoc, Nat.mul_comm 10]
    rw [nearestRank_eq (show n * 10 ≠ 0 by omega), nearestRank_eq (show n ≠ 0 by omega), hplace, hratio]

/-- Zeros at the end do not change which rank is the nearest. -/
theorem Padded.nearestRank_eq {x y : Decimal} (h : Padded x y) : y.nearestRank = x.nearestRank := by
  obtain ⟨n, scale⟩ := x
  obtain ⟨m, shifted⟩ := y
  obtain ⟨k, hdigits, hscale⟩ := h
  dsimp only at hdigits hscale
  subst hdigits hscale
  induction k with
  | zero => simp
  | succ k ih =>
      rw [← ih, Nat.pow_succ, ← Nat.mul_assoc, Nat.cast_succ, ← Int.sub_sub]
      exact nearestRank_mul_ten _ _

theorem nearestRank_trimZeros (n : Nat) (scale : Int) :
    (trimZeros n scale).nearestRank = nearestRank ⟨n, scale⟩ := by
  induction n, scale using trimZeros.induct with
  | case1 scale =>
      rw [trimZeros, dif_pos rfl, nearestRank_of_digits_eq_zero rfl, nearestRank_of_digits_eq_zero rfl]
  | case2 n scale hn hten ih =>
      rw [trimZeros, dif_neg hn, if_pos hten, ih, ← nearestRank_mul_ten (n / 10),
        Nat.div_mul_cancel (Nat.dvd_of_mod_eq_zero hten), Int.add_sub_cancel]
  | case3 n scale hn hten => rw [trimZeros, dif_neg hn, if_neg hten]

end Decimal

namespace Double

open Decimal

theorem nearestRank_of_readingBack {rank : Nat} {candidates : Decimal × Decimal} {x : Decimal}
    (h : readingBack rank candidates = some x) : x.nearestRank = rank := by
  unfold readingBack at h
  split at h
  · next hnear =>
      obtain rfl := Option.some.inj h
      exact hnear
  · split at h
    · next hfar =>
        obtain rfl := Option.some.inj h
        exact hfar
    · cases h

/-! ## The exact decimal -/

theorem exponent_ge (rank : Nat) : -1074 ≤ exponent rank := by
  by_cases h : rank < Nat.pow 2 52
  · rw [exponent_of_lt h]
  · have hpos : 0 < rank / Nat.pow 2 52 := Nat.div_pos (not_lt.mp h) (Nat.pow_pos Nat.two_pos)
    rw [exponent_of_ge h]
    omega

theorem exponent_le {rank : Nat} (h : rank < ranks) : exponent rank ≤ 971 := by
  by_cases hlow : rank < Nat.pow 2 52
  · rw [exponent_of_lt hlow]
    decide
  · have hdiv : rank / Nat.pow 2 52 < 2047 := Nat.div_lt_of_lt_mul (by rwa [Nat.mul_comm])
    rw [exponent_of_ge hlow]
    omega

theorem significand_lt (rank : Nat) : significand rank < 2 ^ 53 := by
  have htwice : (2 : Nat) ^ 53 = Nat.pow 2 52 + Nat.pow 2 52 := rfl
  have hmod : rank % Nat.pow 2 52 < Nat.pow 2 52 := Nat.mod_lt _ (Nat.pow_pos Nat.two_pos)
  rw [significand]
  split <;> omega

/-- A power in parts, none of which is large. -/
theorem pow_parts (n a b c : Nat) : (n ^ a) ^ b * n ^ c = n ^ (a * b + c) := by
  rw [← Nat.pow_mul, ← Nat.pow_add]

theorem two_pow_le {k a b c : Nat} (h : k ≤ a * b + c) : 2 ^ k ≤ (2 ^ a) ^ b * 2 ^ c := by
  rw [pow_parts]
  exact Nat.pow_le_pow_right Nat.two_pos h

theorem ratio_fst_lt {rank : Nat} (h : rank < ranks) : (ratio rank).1 < (10 ^ 28) ^ 11 * 10 ^ 1 := by
  have hpower : 2 ^ (exponent rank).toNat ≤ (2 ^ 93) ^ 10 * 2 ^ 41 := two_pow_le (by
    have := exponent_le h
    omega)
  calc (ratio rank).1 = significand rank * 2 ^ (exponent rank).toNat := rfl
    _ < 2 ^ 53 * 2 ^ (exponent rank).toNat :=
        Nat.mul_lt_mul_of_pos_right (significand_lt rank) (Nat.pow_pos Nat.two_pos)
    _ ≤ 2 ^ 53 * ((2 ^ 93) ^ 10 * 2 ^ 41) := Nat.mul_le_mul_left _ hpower
    _ ≤ (10 ^ 28) ^ 11 * 10 ^ 1 := by norm_num

theorem ratio_snd_le (rank : Nat) : (ratio rank).2 ≤ (10 ^ 4) ^ 82 * 10 ^ 3 := by
  have hpower : 2 ^ (-exponent rank).toNat ≤ (2 ^ 13) ^ 82 * 2 ^ 8 := two_pow_le (by
    have := exponent_ge rank
    omega)
  calc (ratio rank).2 = 2 ^ (-exponent rank).toNat := rfl
    _ ≤ (2 ^ 13) ^ 82 * 2 ^ 8 := hpower
    _ ≤ (10 ^ 4) ^ 82 * 10 ^ 3 := by norm_num

section Exact

variable {rank places : Nat}

/-- With `places` fives the numerator of a magnitude has at least the digits of its places. -/
theorem place_exact_ge (hpos : 0 < rank) (hplaces : (ratio rank).2 = 2 ^ places) :
    ¬ place ⟨(ratio rank).1 * 5 ^ places, -places⟩ < -330 := by
  intro hplace
  have hwidthPos : 0 < width ((ratio rank).1 * 5 ^ places) := Nat.length_toDigits_pos
  have hlarge : 4 * 82 + 3 < places := by
    simp only [place] at hplace
    omega
  have hwidth : width ((ratio rank).1 * 5 ^ places) ≤ places - (4 * 82 + 3) := by
    simp only [place] at hplace
    omega
  have hlt : 5 ^ places < 10 ^ (places - (4 * 82 + 3)) :=
    (Nat.le_mul_of_pos_left _ (ratio_fst_pos hpos)).trans_lt
      ((Nat.length_toDigits_le_iff (by decide) (by omega)).mp hwidth)
  have htwo : 2 ^ places ≤ (10 ^ 4) ^ 82 * 10 ^ 3 := hplaces ▸ ratio_snd_le rank
  refine absurd ?_ (Nat.lt_irrefl (10 ^ places))
  calc 10 ^ places = 5 ^ places * 2 ^ places := by rw [← Nat.mul_pow]
    _ < 10 ^ (places - (4 * 82 + 3)) * ((10 ^ 4) ^ 82 * 10 ^ 3) := Nat.mul_lt_mul_of_lt_of_le hlt htwo (by positivity)
    _ = 10 ^ places := by rw [pow_parts, ← Nat.pow_add, Nat.sub_add_cancel hlarge.le]

theorem place_exact_le (h : rank < ranks) : ¬ 320 < place ⟨(ratio rank).1 * 5 ^ places, -places⟩ := by
  have hwidth : width ((ratio rank).1 * 5 ^ places) ≤ 28 * 11 + 1 + places := by
    refine (Nat.length_toDigits_le_iff (by decide) (by omega)).mpr ?_
    calc (ratio rank).1 * 5 ^ places < (10 ^ 28) ^ 11 * 10 ^ 1 * 5 ^ places :=
          Nat.mul_lt_mul_of_pos_right (ratio_fst_lt h) (Nat.pow_pos (by decide))
      _ ≤ (10 ^ 28) ^ 11 * 10 ^ 1 * 10 ^ places := Nat.mul_le_mul_left _ (Nat.pow_le_pow_left (by decide) _)
      _ = 10 ^ (28 * 11 + 1 + places) := by rw [pow_parts, ← Nat.pow_add]
  simp only [place]
  omega

/-- The exact decimal of a rank before its zeros are taken away. -/
theorem nearestRank_exact (hpos : 0 < rank) (h : rank < ranks) (hplaces : (ratio rank).2 = 2 ^ places) :
    Decimal.nearestRank ⟨(ratio rank).1 * 5 ^ places, -places⟩ = rank := by
  have hdigits : 0 < (ratio rank).1 * 5 ^ places := Nat.mul_pos (ratio_fst_pos hpos) (Nat.pow_pos (by decide))
  have hratio : Decimal.ratio ⟨(ratio rank).1 * 5 ^ places, -places⟩ =
      (5 ^ places * (ratio rank).1, 5 ^ places * (ratio rank).2) := by
    have hscale : (-(places : Int)).toNat = 0 ∧ (- -(places : Int)).toNat = places := by omega
    have hten : (10 : Nat) ^ places = 5 ^ places * 2 ^ places := by rw [← Nat.mul_pow]
    simp only [Decimal.ratio, Nat.pow_eq, hscale, hplaces, ← hten, Nat.pow_zero, Nat.mul_one]
    rw [Nat.mul_comm]
  rw [Decimal.nearestRank_eq hdigits.ne', if_neg (place_exact_ge hpos hplaces), if_neg (place_exact_le h), hratio,
    Double.nearestRank_mul (Nat.pow_pos (by decide)) (ratio_snd_pos rank), nearestRank_ratio]

end Exact

theorem nearestRank_exactDecimal {rank : Nat} (hpos : 0 < rank) (h : rank < ranks) :
    (exactDecimal rank).nearestRank = rank := by
  have hden : (ratio rank).2 = 2 ^ (ratio rank).2.log2 := by
    change 2 ^ _ = 2 ^ Nat.log2 (2 ^ _)
    rw [Nat.log2_two_pow]
  change (trimZeros ((ratio rank).1 * 5 ^ (ratio rank).2.log2) (-(ratio rank).2.log2)).nearestRank = rank
  rw [nearestRank_trimZeros]
  exact nearestRank_exact hpos h hden

/-- **The shortest decimal of a rank is read as that rank.** -/
theorem nearestRank_shortest {rank : Nat} (h : rank < ranks) : (shortest rank).nearestRank = rank := by
  rw [shortest]
  split
  · next hzero =>
      rw [hzero]
      rfl
  · next hpos =>
      split
      · next x hx =>
          obtain ⟨k, -, hk⟩ := List.exists_of_findSome?_eq_some hx
          rw [nearestRank_trimZeros]
          exact nearestRank_of_readingBack hk
      · exact nearestRank_exactDecimal (Nat.pos_of_ne_zero hpos) h

theorem toDouble_shortest (negative : Bool) (rank : Fin ranks) :
    (shortest rank).toDouble negative = .finite negative rank := by
  rw [toDouble, nearestRank_shortest rank.isLt, ofRank, dif_pos rank.isLt]

end Double

end Runbook
