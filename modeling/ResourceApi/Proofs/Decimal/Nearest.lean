import Mathlib.Algebra.Order.Field.Power
import Mathlib.Algebra.Order.Ring.Rat
import Mathlib.Tactic.Linarith
import Mathlib.Tactic.NormNum
import Mathlib.Tactic.Ring
import ResourceApi.Decimal.Binary64

/-!
The double nearest to a number that is not negative. Mantissas have 53 bits and exponents a lower
bound; the upper bound counts for the double that is taken, but not for those that it is compared
with, so that what is rounded past the greatest double has none. The stretch of numbers nearest to a
double reaches half a step to each side, and a quarter below a power of two.
-/

namespace ResourceApi.Decimal

/-- The value of a mantissa and an exponent. -/
def dyadic (m : Nat) (q : Int) : ℚ := m * 2 ^ q

/-- The form in which a finite double is kept. -/
structure IsDouble (m : Nat) (q : Int) : Prop where
  mantissa : m < 2 ^ 53
  least : -1074 ≤ q
  greatest : q ≤ 971
  full : 2 ^ 52 ≤ m ∨ q = -1074

/-- Nearest to a number, and on a tie the one with the even mantissa. -/
structure IsNearest (r : ℚ) (m : Nat) (q : Int) : Prop where
  isDouble : IsDouble m q
  le : ∀ n p, n < 2 ^ 53 → -1074 ≤ p → |r - dyadic m q| ≤ |r - dyadic n p|
  even : ∀ n p, n < 2 ^ 53 → -1074 ≤ p → dyadic n p ≠ dyadic m q →
    |r - dyadic m q| = |r - dyadic n p| → m % 2 = 0

section Steps

variable {m n : Nat} {q p : Int}

theorem two_zpow_pos (q : Int) : (0 : ℚ) < 2 ^ q := zpow_pos two_pos q

theorem dyadic_two_pow (n : Nat) (q : Int) : dyadic (2 ^ n) q = 2 ^ n * 2 ^ q := by
  rw [dyadic, Nat.cast_pow, Nat.cast_ofNat]

/-- A value in steps of a finer exponent. -/
theorem dyadic_eq_of_le (n : Nat) (h : q ≤ p) :
    dyadic n p = ((n * 2 ^ (p - q).toNat : Nat) : ℚ) * 2 ^ q := by
  obtain ⟨k, rfl⟩ := Int.le.dest h
  have hk : (q + k - q).toNat = k := by omega
  rw [dyadic, hk, zpow_add₀ two_ne_zero, zpow_natCast]
  push_cast
  ring

theorem dyadic_lt_dyadic_iff : dyadic m q < dyadic n q ↔ m < n := by
  rw [dyadic, dyadic, mul_lt_mul_iff_left₀ (two_zpow_pos q), Nat.cast_lt]

/-- What has a finer exponent is smaller than a full mantissa, and by half a step of its own. -/
theorem dyadic_le_of_lt (hn : n < 2 ^ 53) (h : p < q) (hm : 2 ^ 52 ≤ m) :
    dyadic n p ≤ dyadic m q - 2 ^ q / 2 := by
  have hm' : (2 : ℚ) ^ 52 ≤ m := by exact_mod_cast hm
  have hn' : (n : ℚ) ≤ 2 ^ 53 - 1 := by
    have hcast : (n : ℚ) + 1 ≤ 2 ^ 53 := by exact_mod_cast hn
    linarith
  have hpow : (2 : ℚ) ^ p ≤ 2 ^ q / 2 := by
    have hle : (2 : ℚ) ^ p ≤ 2 ^ (q - 1) := zpow_le_zpow_right₀ one_le_two (by omega)
    rwa [zpow_sub₀ two_ne_zero, zpow_one] at hle
  have hpos := two_zpow_pos q
  calc dyadic n p ≤ (2 ^ 53 - 1) * 2 ^ p := mul_le_mul_of_nonneg_right hn' (two_zpow_pos p).le
    _ ≤ (2 ^ 53 - 1) * (2 ^ q / 2) := mul_le_mul_of_nonneg_left hpow (by norm_num)
    _ = 2 ^ 52 * 2 ^ q - 2 ^ q / 2 := by ring
    _ ≤ dyadic m q - 2 ^ q / 2 := sub_le_sub_right (mul_le_mul_of_nonneg_right hm' hpos.le) _

/-- The step below a double: half as wide at a power of two. -/
def stepBelow (m : Nat) (q : Int) : ℚ := if m = 2 ^ 52 ∧ -1074 < q then 2 ^ q / 2 else 2 ^ q

theorem stepBelow_pos (m : Nat) (q : Int) : 0 < stepBelow m q := by
  have hpos := two_zpow_pos q
  rw [stepBelow]
  split <;> linarith

theorem dyadic_mono (h : m ≤ n) (q : Int) : dyadic m q ≤ dyadic n q :=
  mul_le_mul_of_nonneg_right (Nat.cast_le.2 h) (two_zpow_pos q).le

theorem dyadic_succ (m : Nat) (q : Int) : dyadic (m + 1) q = dyadic m q + 2 ^ q := by
  rw [dyadic, dyadic]
  push_cast
  ring

variable (h : IsDouble m q) (hn : n < 2 ^ 53) (hp : -1074 ≤ p)

include h hn hp

/-- No double lies inside the step above another one. -/
theorem add_step_le (hlt : dyadic m q < dyadic n p) : dyadic m q + 2 ^ q ≤ dyadic n p := by
  rcases le_or_gt q p with hqp | hpq
  · rw [dyadic_eq_of_le n hqp] at hlt ⊢
    have hlt' : m < n * 2 ^ (p - q).toNat := dyadic_lt_dyadic_iff.1 hlt
    rw [← dyadic_succ]
    exact dyadic_mono hlt' q
  · have hsmall := dyadic_le_of_lt hn hpq (h.full.resolve_right (by omega))
    have hpos := two_zpow_pos q
    linarith

/-- No double lies inside the step below another one. -/
theorem le_sub_stepBelow (hlt : dyadic n p < dyadic m q) :
    dyadic n p ≤ dyadic m q - stepBelow m q := by
  have hpos := two_zpow_pos q
  rcases le_or_gt q p with hqp | hpq
  · rw [dyadic_eq_of_le n hqp] at hlt ⊢
    have hlt' : n * 2 ^ (p - q).toNat < m := dyadic_lt_dyadic_iff.1 hlt
    have hmono := dyadic_mono (Nat.succ_le_of_lt hlt') q
    rw [Nat.succ_eq_add_one, dyadic_succ, dyadic] at hmono
    rw [stepBelow]
    split <;> linarith
  · have hfull : 2 ^ 52 ≤ m := h.full.resolve_right (by omega)
    rw [stepBelow]
    split
    · exact dyadic_le_of_lt hn hpq hfull
    · obtain ⟨k, rfl⟩ : ∃ k, m = k + 1 := ⟨m - 1, by omega⟩
      have hsmall := dyadic_le_of_lt (m := k) hn hpq (by omega)
      rw [dyadic_succ]
      linarith

end Steps

/-- At most half a step away from a double; the ends count for an even mantissa. -/
structure IsAround (r : ℚ) (m : Nat) (q : Int) : Prop where
  low : dyadic m q - stepBelow m q / 2 ≤ r
  high : r ≤ dyadic m q + 2 ^ q / 2
  odd : m % 2 = 1 → dyadic m q - stepBelow m q / 2 < r ∧ r < dyadic m q + 2 ^ q / 2

namespace IsAround

variable {r : ℚ} {m n : Nat} {q p : Int}

/-- A double below is a whole step away, so it is not nearer, and as near for an even mantissa only.
-/
theorem nearer_of_lt (h : IsAround r m q) (hd : IsDouble m q) (hn : n < 2 ^ 53) (hp : -1074 ≤ p)
    (hlt : dyadic n p < dyadic m q) : |r - dyadic m q| ≤ |r - dyadic n p| ∧
      (|r - dyadic m q| = |r - dyadic n p| → m % 2 = 0) := by
  obtain ⟨hlow, hhigh, hodd⟩ := h
  have hbelow := stepBelow_pos m q
  have hstep := le_sub_stepBelow hd hn hp hlt
  have hother : |r - dyadic n p| = r - dyadic n p := abs_of_nonneg (by linarith)
  rw [hother]
  rcases abs_cases (r - dyadic m q) with ⟨habs, -⟩ | ⟨habs, -⟩
  · rw [habs]
    exact ⟨by linarith, fun heq => by linarith⟩
  · rw [habs]
    refine ⟨by linarith, fun heq => (Nat.mod_two_eq_zero_or_one m).resolve_right fun hm => ?_⟩
    have hstrict := (hodd hm).1
    linarith

theorem nearer_of_gt (h : IsAround r m q) (hd : IsDouble m q) (hn : n < 2 ^ 53) (hp : -1074 ≤ p)
    (hgt : dyadic m q < dyadic n p) : |r - dyadic m q| ≤ |r - dyadic n p| ∧
      (|r - dyadic m q| = |r - dyadic n p| → m % 2 = 0) := by
  obtain ⟨hlow, hhigh, hodd⟩ := h
  have hpos := two_zpow_pos q
  have hstep := add_step_le hd hn hp hgt
  have hother : |r - dyadic n p| = dyadic n p - r := by
    rw [abs_sub_comm]
    exact abs_of_nonneg (by linarith)
  rw [hother]
  rcases abs_cases (r - dyadic m q) with ⟨habs, -⟩ | ⟨habs, -⟩
  · rw [habs]
    refine ⟨by linarith, fun heq => (Nat.mod_two_eq_zero_or_one m).resolve_right fun hm => ?_⟩
    have hstrict := (hodd hm).2
    linarith
  · rw [habs]
    exact ⟨by linarith, fun heq => by linarith⟩

/-- A double that is at most half a step away is nearest, since its neighbours are whole steps away.
-/
theorem isNearest (h : IsAround r m q) (hd : IsDouble m q) : IsNearest r m q := by
  refine ⟨hd, fun n p hn hp => ?_, fun n p hn hp hne heq => ?_⟩
  · rcases lt_trichotomy (dyadic n p) (dyadic m q) with hlt | hsame | hgt
    · exact (h.nearer_of_lt hd hn hp hlt).1
    · rw [hsame]
    · exact (h.nearer_of_gt hd hn hp hgt).1
  · rcases lt_or_gt_of_ne hne with hlt | hgt
    · exact (h.nearer_of_lt hd hn hp hlt).2 heq
    · exact (h.nearer_of_gt hd hn hp hgt).2 heq

end IsAround

/-! ### There is one -/

/-- Of one value there is only one exponent. -/
theorem IsDouble.le_of_dyadic_eq {m n : Nat} {q p : Int} (h : IsDouble m q) (h' : IsDouble n p)
    (heq : dyadic m q = dyadic n p) : p ≤ q := by
  by_contra hlt
  have hsmall := dyadic_le_of_lt h.mantissa (not_le.1 hlt)
    (h'.full.resolve_right fun hp => hlt (hp ▸ h.least))
  have hpos := two_zpow_pos p
  linarith

/-- A value has one form only. -/
theorem IsDouble.eq_of_dyadic_eq {m n : Nat} {q p : Int} (h : IsDouble m q) (h' : IsDouble n p)
    (heq : dyadic m q = dyadic n p) : m = n ∧ q = p := by
  obtain rfl : q = p := le_antisymm (h'.le_of_dyadic_eq h heq.symm) (h.le_of_dyadic_eq h' heq)
  have hcast := mul_right_cancel₀ (two_zpow_pos q).ne' heq
  exact ⟨Nat.cast_injective hcast, rfl⟩

/-- Between two doubles with even mantissas there is a third one, which is nearer to what lies in
the middle. -/
theorem IsNearest.not_dyadic_lt {r : ℚ} {m n : Nat} {q p : Int} (h : IsNearest r m q)
    (h' : IsNearest r n p) : ¬dyadic m q < dyadic n p := by
  intro hlt
  have hd := h.isDouble
  have hd' := h'.isDouble
  have htie : |r - dyadic m q| = |r - dyadic n p| :=
    le_antisymm (h.le n p hd'.mantissa hd'.least) (h'.le m q hd.mantissa hd.least)
  have heven := h.even n p hd'.mantissa hd'.least hlt.ne' htie
  have heven' := h'.even m q hd.mantissa hd.least hlt.ne htie.symm
  have hmiddle : r - dyadic m q = dyadic n p - r := by
    rcases abs_eq_abs.1 htie with hsame | hother <;> linarith
  have hm := hd.mantissa
  have hnext : IsDouble (m + 1) q :=
    ⟨by omega, hd.least, hd.greatest, hd.full.imp_left (by omega)⟩
  have hstep := add_step_le hd hd'.mantissa hd'.least hlt
  have hpos := two_zpow_pos q
  obtain heq | hgap := hstep.eq_or_lt
  · rw [← dyadic_succ] at heq
    obtain ⟨rfl, -⟩ := hnext.eq_of_dyadic_eq hd' heq
    omega
  · have hle := h.le (m + 1) q hnext.mantissa hnext.least
    rw [dyadic_succ] at hle
    have habs : |r - dyadic m q| = r - dyadic m q := abs_of_nonneg (by linarith)
    rcases abs_cases (r - (dyadic m q + 2 ^ q)) with ⟨hother, -⟩ | ⟨hother, -⟩ <;>
      rw [habs, hother] at hle <;> linarith

/-- There is one nearest double to a number. -/
theorem IsNearest.unique {r : ℚ} {m n : Nat} {q p : Int} (h : IsNearest r m q)
    (h' : IsNearest r n p) : m = n ∧ q = p :=
  h.isDouble.eq_of_dyadic_eq h'.isDouble
    (le_antisymm (not_lt.1 (h'.not_dyadic_lt h)) (not_lt.1 (h.not_dyadic_lt h')))

end ResourceApi.Decimal
