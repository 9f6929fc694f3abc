import Mathlib.Algebra.Order.Field.Basic
import Mathlib.Tactic.FieldSimp
import ResourceApi.Decimal.Reading
import ResourceApi.Proofs.Decimal.Positional
import ResourceApi.Proofs.Decimal.Ratio

/-!
Reading a decimal in two steps. What is read is a double within the range, whatever the digits. Few
digits and a small power of ten are doubles themselves, so that only the last step rounds, and the
double nearest to the decimal is read.
-/

namespace ResourceApi.Decimal

namespace Binary64

/-- A finite double that is nearest to a number with a sign. -/
def Rounds (negative : Bool) (r : ℚ) (y : Binary64) : Prop :=
  ∃ m q, y = .finite negative m q ∧ IsNearest r m q

/-- A finite double in the form in which it is kept. -/
def IsKept (y : Binary64) : Prop := ∃ s m q, y = .finite s m q ∧ IsDouble m q

theorem Rounds.isKept {negative : Bool} {r : ℚ} {y : Binary64} (h : Rounds negative r y) :
    y.IsKept := by
  obtain ⟨m, q, rfl, hy⟩ := h
  exact ⟨negative, m, q, rfl, hy.isDouble⟩

theorem IsKept.neg {y : Binary64} (h : y.IsKept) : y.neg.IsKept := by
  obtain ⟨s, m, q, rfl, hy⟩ := h
  exact ⟨!s, m, q, rfl, hy⟩

/-- A change of the sign is a change of both signs. -/
theorem Rounds.neg {negative : Bool} {r : ℚ} {y : Binary64} (h : Rounds negative r y) :
    Rounds (!negative) r y.neg := by
  obtain ⟨m, q, rfl, hy⟩ := h
  exact ⟨m, q, rfl, hy⟩

theorem isNearest_zero : IsNearest 0 0 (-1074) := by
  have hzero : dyadic 0 (-1074) = 0 := by rw [dyadic, Nat.cast_zero, zero_mul]
  refine ⟨⟨by norm_num, le_rfl, by norm_num, .inr rfl⟩, fun n p _ _ => ?_, fun _ _ _ _ _ _ => rfl⟩
  rw [hzero, sub_zero, abs_zero]
  exact abs_nonneg _

/-- What is rounded to a finite double is kept. -/
theorem isKept_ofRatio {negative : Bool} {num den : Nat} (hden : 0 < den)
    (h : (ofRatio negative num den).isFinite = true) : (ofRatio negative num den).IsKept := by
  rcases num.eq_zero_or_pos with rfl | hnum
  · exact ⟨negative, 0, -1074, rfl, isNearest_zero.isDouble⟩
  · obtain ⟨m, q, hy, hnear⟩ | ⟨hy, -⟩ := ofRatio_cases negative hnum hden
    · exact ⟨negative, m, q, hy, hnear.isDouble⟩
    · rw [hy] at h
      cases h

/-- A ratio up to the greatest double is rounded to its nearest double. -/
theorem rounds_ofRatio (negative : Bool) {num den : Nat} (hden : 0 < den)
    (h : (num : ℚ) / den ≤ greatest) :
    Rounds negative ((num : ℚ) / den) (ofRatio negative num den) := by
  rcases num.eq_zero_or_pos with rfl | hnum
  · rw [Nat.cast_zero, zero_div]
    exact ⟨0, -1074, rfl, isNearest_zero⟩
  · obtain hy | ⟨-, hlt⟩ := ofRatio_cases negative hnum hden
    · exact hy
    · exact absurd h (not_le.2 hlt)

/-- A whole number up to the greatest double is rounded to its nearest double. -/
theorem rounds_ofNat {n : Nat} (h : (n : ℚ) ≤ greatest) : Rounds false n (ofNat n) := by
  have hone : (n : ℚ) / (1 : Nat) = n := by rw [Nat.cast_one, div_one]
  have hround := rounds_ofRatio false one_pos (hone.le.trans h)
  rwa [hone] at hround

/-- A product is rounded once. -/
theorem mul_finite (s t : Bool) (m n : Nat) (q p : Int) : ∃ num den, 0 < den ∧
    mul (.finite s m q) (.finite t n p) = ofRatio (s != t) num den ∧
    (num : ℚ) / den = dyadic m q * dyadic n p := by
  refine ⟨_, _, scaleDown_den_pos two_pos one_pos (-(q + p)) (m * n), rfl, ?_⟩
  rw [scaleDown_div two_pos one_pos, dyadic, dyadic, Nat.cast_one, div_one, zpow_neg,
    div_inv_eq_mul, Nat.cast_ofNat, zpow_add₀ two_ne_zero, Nat.cast_mul]
  ring

/-- A quotient is rounded once. -/
theorem div_finite (s t : Bool) (m : Nat) {n : Nat} (hn : 0 < n) (q p : Int) : ∃ num den, 0 < den ∧
    div (.finite s m q) (.finite t n p) = ofRatio (s != t) num den ∧
    (num : ℚ) / den = dyadic m q / dyadic n p := by
  refine ⟨_, _, scaleDown_den_pos two_pos hn (p - q) m, if_neg hn.ne', ?_⟩
  have hpos := two_zpow_pos q
  have hpos' := two_zpow_pos p
  rw [scaleDown_div two_pos hn, dyadic, dyadic, Nat.cast_ofNat, zpow_sub₀ two_ne_zero]
  field_simp

/-! ### Exact doubles -/

theorem dyadic_zero (n : Nat) : dyadic n 0 = n := by
  rw [dyadic, zpow_zero, mul_one]

def greatestWhole : Nat := (2 ^ 53 - 1) * 2 ^ 971

theorem natCast_le_greatest {n : Nat} (h : n ≤ greatestWhole) : (n : ℚ) ≤ greatest := by
  have hcast : (greatestWhole : ℚ) = greatest := by
    have hfull : ((2 ^ 53 - 1 : Nat) : ℚ) = 2 ^ 53 - 1 := by norm_num
    rw [greatestWhole, greatest, Nat.cast_mul, hfull, Nat.cast_pow, Nat.cast_ofNat]
    rfl
  rw [← hcast]
  exact Nat.cast_le.2 h

theorem two_pow_le_greatestWhole : 2 ^ 53 * 2 ^ 200 ≤ greatestWhole := by decide +kernel

theorem ten_pow_le_greatestWhole : ∀ e ≤ 308, Nat.pow 10 e ≤ greatestWhole := by decide +kernel

end Binary64

/-- What has the form of a double is rounded to itself. -/
theorem IsNearest.dyadic_eq {m n : Nat} {q p : Int} (h : IsNearest (dyadic n p) m q)
    (hn : n < 2 ^ 53) (hp : -1074 ≤ p) : dyadic m q = dyadic n p := by
  have hle := h.le n p hn hp
  rw [sub_self, abs_zero] at hle
  exact (sub_eq_zero.1 (abs_eq_zero.1 (le_antisymm hle (abs_nonneg _)))).symm

/-- Only zero is written with the digit zero. -/
theorem digits_pos_of_isNearest {d : Nat} {e : Int} {m : Nat} {q : Int} (hm : 0 < m)
    (h : IsNearest (d * 10 ^ e) m q) : 0 < d := by
  rcases d.eq_zero_or_pos with rfl | hd
  · have hzero : ((0 : Nat) : ℚ) * 10 ^ e = dyadic 0 (-1074) := by
      rw [dyadic, Nat.cast_zero, zero_mul, zero_mul]
    rw [hzero] at h
    have hvalue := h.dyadic_eq (by norm_num) le_rfl
    rw [dyadic, dyadic, Nat.cast_zero, zero_mul] at hvalue
    have hcast := (mul_eq_zero.1 hvalue).resolve_right (two_zpow_pos q).ne'
    exact absurd (Nat.cast_eq_zero.1 hcast) hm.ne'
  · exact hd

theorem dyadic_nonneg (m : Nat) (q : Int) : 0 ≤ dyadic m q :=
  mul_nonneg (Nat.cast_nonneg m) (two_zpow_pos q).le

theorem pos_of_dyadic_pos {m : Nat} {q : Int} (h : 0 < dyadic m q) : 0 < m := by
  rcases m.eq_zero_or_pos with rfl | hm
  · rw [dyadic, Nat.cast_zero, zero_mul] at h
    exact absurd h (lt_irrefl 0)
  · exact hm

/-- No finite double is above the greatest one. -/
theorem IsDouble.dyadic_le_greatest {m : Nat} {q : Int} (h : IsDouble m q) :
    dyadic m q ≤ Binary64.greatest := by
  have hm : (m : ℚ) ≤ 2 ^ 53 - 1 := by
    have hcast : (m : ℚ) + 1 ≤ 2 ^ 53 := by exact_mod_cast h.mantissa
    linarith
  exact mul_le_mul hm (zpow_le_zpow_right₀ one_le_two h.greatest) (two_zpow_pos q).le
    (by norm_num)

/-- Rounding passes over no double. -/
theorem IsNearest.le_dyadic {r : ℚ} {m n : Nat} {q p : Int} (h : IsNearest r m q)
    (hn : n < 2 ^ 53) (hp : -1074 ≤ p) (hle : dyadic n p ≤ r) : dyadic n p ≤ dyadic m q := by
  by_contra hlt
  have hnear := h.le n p hn hp
  have habs : |r - dyadic m q| = r - dyadic m q := abs_of_nonneg (by linarith)
  have hother : |r - dyadic n p| = r - dyadic n p := abs_of_nonneg (by linarith)
  rw [habs, hother] at hnear
  linarith

namespace Binary64

/-- Whole numbers with at most 53 bits in front of final zero bits are doubles. -/
theorem ofNat_exact {n a k : Nat} (hn : n = a * 2 ^ k) (ha : a < 2 ^ 53) (hk : k ≤ 200) :
    ∃ m q, ofNat n = .finite false m q ∧ dyadic m q = n := by
  have hvalue : dyadic a k = n := by
    rw [hn, dyadic, zpow_natCast]
    push_cast
    rfl
  have hle : (n : ℚ) ≤ greatest := by
    have hpow : 2 ^ k ≤ 2 ^ 200 := Nat.pow_le_pow_right two_pos hk
    have hmul : a * 2 ^ k ≤ 2 ^ 53 * 2 ^ 200 := Nat.mul_le_mul ha.le hpow
    rw [hn]
    exact natCast_le_greatest (hmul.trans two_pow_le_greatestWhole)
  obtain ⟨m, q, hy, hnear⟩ := rounds_ofNat hle
  rw [← hvalue] at hnear
  exact ⟨m, q, hy, (hnear.dyadic_eq ha (by omega)).trans hvalue⟩

/-- A power of ten that is no greater than `10 ^ 308`, rounded, and at least one. -/
theorem exists_ofNat_ten_pow {e : Nat} (he : e ≤ 308) :
    ∃ n p, ofNat (Nat.pow 10 e) = .finite false n p ∧ IsDouble n p ∧ 1 ≤ dyadic n p := by
  obtain ⟨n, p, hy, hnear⟩ := rounds_ofNat (natCast_le_greatest (ten_pow_le_greatestWhole e he))
  refine ⟨n, p, hy, hnear.isDouble, ?_⟩
  have hone : (1 : ℚ) ≤ (Nat.pow 10 e : Nat) := by
    exact_mod_cast Nat.one_le_iff_ne_zero.2 (Nat.pow_pos (n := e) (show 0 < 10 by decide)).ne'
  have hle := hnear.le_dyadic (n := 1) (p := 0) (by norm_num) (by norm_num)
  rw [dyadic_zero, Nat.cast_one] at hle
  exact hle hone

end Binary64

/-! ### Steps -/

namespace Numeral

open Binary64

/-- The digits that are added never overflow a word. -/
theorem absorb_lt {acc : Nat} (h : acc < 2 ^ 64) (ds : List Char) :
    (absorb acc ds).1 < 2 ^ 64 := by
  induction ds generalizing acc with
  | nil => exact h
  | cons c ds ih =>
    rw [absorb]
    split
    · rename_i hlt
      exact ih hlt
    · exact h

theorem le_ofDigits (acc : Nat) (ds : List Char) : acc ≤ ofDigits acc ds := by
  induction ds generalizing acc with
  | nil => exact le_rfl
  | cons c ds ih => exact le_trans (by omega) (ih (10 * acc + digitValue c))

/-- If all digits fit, all of them are used. -/
theorem absorb_eq {acc : Nat} {ds : List Char} (h : ofDigits acc ds < 0x10000000000000000) :
    absorb acc ds = (ofDigits acc ds, ds.length) := by
  induction ds generalizing acc with
  | nil => rfl
  | cons c ds ih =>
    have hlt : 10 * acc + digitValue c < 0x10000000000000000 := lt_of_le_of_lt (le_ofDigits _ ds) h
    rw [absorb, if_pos hlt, ih h]
    rfl

/-- A product that is not beyond all doubles is a finite double. -/
theorem isKept_raise {x y : Binary64} {e : Nat} (hx : x.IsKept) (h : raise x e = some y) :
    y.IsKept := by
  rw [raise] at h
  split at h
  · split at h
    · cases h
      exact hx
    · cases h
  · rename_i he
    obtain ⟨s, m, q, rfl, -⟩ := hx
    obtain ⟨n, p, hpow, -, -⟩ := exists_ofNat_ten_pow (not_lt.1 he)
    obtain ⟨num, den, hden, hmul, -⟩ := mul_finite s false m n q p
    rw [hpow, hmul] at h
    dsimp only at h
    split at h
    · rename_i hfinite
      cases h
      exact isKept_ofRatio hden hfinite
    · cases h

/-- A quotient by a power of ten is a finite double. -/
theorem isKept_div {x : Binary64} {e : Nat} (hx : x.IsKept) (he : e ≤ 308) :
    (x.div (.ofNat (Nat.pow 10 e))).IsKept := by
  obtain ⟨s, m, q, rfl, hd⟩ := hx
  obtain ⟨n, p, hpow, -, hone⟩ := exists_ofNat_ten_pow he
  have hn := pos_of_dyadic_pos (zero_lt_one.trans_le hone)
  obtain ⟨num, den, hden, hdiv, hvalue⟩ := div_finite s false m hn q p
  rw [hpow, hdiv]
  refine (rounds_ofRatio _ hden ?_).isKept
  rw [hvalue]
  exact (div_le_self (dyadic_nonneg m q) hone).trans hd.dyadic_le_greatest

/-- A step with the greatest power of ten. -/
theorem exists_lower_eq {x : Binary64} {e : Nat} (hx : x.IsKept) (he : ¬e ≤ 308)
    (hzero : ¬x.isZero = true) : ∃ z, z.IsKept ∧ lower x e = lower z (e - 308) := by
  have hlower := lower.eq_def x e
  rw [if_neg he, if_neg hzero] at hlower
  -- The power is not to be evaluated.
  generalize hn : (308 : Nat) = n at hlower ⊢
  exact ⟨_, isKept_div hx hn.ge, hlower⟩

theorem isKept_lower {x : Binary64} (hx : x.IsKept) (e : Nat) : (lower x e).IsKept := by
  induction e using Nat.strongRecOn generalizing x with
  | ind e ih =>
    by_cases he : e ≤ 308
    · rw [lower, if_pos he]
      exact isKept_div hx he
    by_cases hzero : x.isZero = true
    · rw [lower, if_neg he, if_pos hzero]
      exact hx
    · obtain ⟨z, hz, hlower⟩ := exists_lower_eq hx he hzero
      rw [hlower]
      exact ih (e - 308) (by omega) hz

/-- Whatever is read is a finite double. -/
theorem isKept_stepwise {x : Numeral} {y : Binary64} (h : x.stepwise = some y) : y.IsKept := by
  obtain ⟨z, hz, rfl⟩ := Option.map_eq_some_iff.1 h
  have hdigits := absorb_lt (absorb_lt (by decide : 0 < 2 ^ 64) x.whole) x.fraction
  have hword : 2 ^ 64 ≤ greatestWhole :=
    (by decide : 2 ^ 64 ≤ 2 ^ 53 * 2 ^ 200).trans two_pow_le_greatestWhole
  have hsize := (rounds_ofNat (natCast_le_greatest (hdigits.le.trans hword))).isKept
  have hkept : z.IsKept := by
    split at hz
    · exact isKept_raise hsize hz
    · cases hz
      exact isKept_lower hsize _
  split
  · exact hkept.neg
  · exact hkept

/-! ### Short numerals -/

def magnitude (x : Numeral) : ℚ :=
  Nat.ofDigitChars 10 (x.whole ++ x.fraction) 0 * 10 ^ (x.exponent - x.fraction.length)

theorem ofDigits_append (acc : Nat) (ds ds' : List Char) :
    ofDigits acc (ds ++ ds') = ofDigits (ofDigits acc ds) ds' := by
  induction ds generalizing acc with
  | nil => rfl
  | cons c ds ih => exact ih (10 * acc + digitValue c)

/-- Powers of ten up to `10 ^ 22` are doubles. -/
theorem ofNat_ten_pow {e : Nat} (he : e ≤ 22) :
    ∃ n p, ofNat (Nat.pow 10 e) = .finite false n p ∧ dyadic n p = 10 ^ e := by
  have hsplit : Nat.pow 10 e = 5 ^ e * 2 ^ e := Nat.mul_pow 5 2 e
  have hfive : 5 ^ e < 2 ^ 53 :=
    lt_of_le_of_lt (Nat.pow_le_pow_right (by decide) he) (by decide)
  obtain ⟨n, p, hy, hvalue⟩ := ofNat_exact hsplit hfive (by omega)
  refine ⟨n, p, hy, hvalue.trans ?_⟩
  exact_mod_cast rfl

/-- Up to `10 ^ 22` powers of ten are exact, so a product is rounded only once. -/
theorem raise_rounds {m d k : Nat} {q : Int} (hd : dyadic m q = d) (hdigits : d < 2 ^ 53)
    (hk : k ≤ 22) : ∃ y, raise (.finite false m q) k = some y ∧
      Rounds false (d * 10 ^ (k : Int)) y := by
  obtain ⟨n, p, hpow, hvalue⟩ := ofNat_ten_pow hk
  obtain ⟨num, den, hden, hmul, hratio⟩ := mul_finite false false m n q p
  have hr : (num : ℚ) / den = d * 10 ^ (k : Int) := by rw [hratio, hd, hvalue, zpow_natCast]
  have hle : (num : ℚ) / den ≤ greatest := by
    have hten : 10 ^ k ≤ 2 ^ 200 :=
      (Nat.pow_le_pow_right (by decide) hk).trans (by decide : 10 ^ 22 ≤ 2 ^ 200)
    have hbound := natCast_le_greatest
      ((Nat.mul_le_mul hdigits.le hten).trans two_pow_le_greatestWhole)
    rw [hr, zpow_natCast]
    exact_mod_cast hbound
  have hround := rounds_ofRatio (false != false) hden hle
  rw [← hmul, hr, ← hpow] at hround
  refine ⟨_, ?_, hround⟩
  obtain ⟨m', q', hy, -⟩ := hround
  rw [raise, if_neg (by omega)]
  dsimp only
  rw [hy]
  rfl

/-- Up to `10 ^ 22` powers of ten are exact, so a quotient is rounded only once. -/
theorem lower_rounds {m d k : Nat} {q : Int} (hd : dyadic m q = d) (hdigits : d < 2 ^ 53)
    (hk : k ≤ 22) : Rounds false (d * 10 ^ (-(k : Int))) (lower (.finite false m q) k) := by
  obtain ⟨n, p, hpow, hvalue⟩ := ofNat_ten_pow hk
  have hn : 0 < n := by
    refine pos_of_dyadic_pos (q := p) ?_
    rw [hvalue]
    exact pow_pos (by norm_num) k
  obtain ⟨num, den, hden, hdiv, hratio⟩ := div_finite false false m hn q p
  have hr : (num : ℚ) / den = d * 10 ^ (-(k : Int)) := by
    rw [hratio, hd, hvalue, zpow_neg, zpow_natCast, div_eq_mul_inv]
  have hle : (num : ℚ) / den ≤ greatest := by
    have hbound := natCast_le_greatest
      (hdigits.le.trans ((by decide : 2 ^ 53 ≤ 2 ^ 53 * 2 ^ 200).trans two_pow_le_greatestWhole))
    rw [hratio, hd, hvalue]
    exact (div_le_self (Nat.cast_nonneg d) (one_le_pow₀ (by norm_num))).trans hbound
  have hround := rounds_ofRatio (false != false) hden hle
  rw [← hdiv, hr, ← hpow] at hround
  rw [lower, if_pos (by omega)]
  exact hround

/-- A numeral with few digits and a small power of ten is read as the double nearest to it. -/
theorem stepwise_rounds {x : Numeral}
    (hdigits : Nat.ofDigitChars 10 (x.whole ++ x.fraction) 0 < 2 ^ 53)
    (hexp : (x.exponent - x.fraction.length).natAbs ≤ 22) :
    ∃ y, x.stepwise = some y ∧ Rounds x.negative x.magnitude y := by
  rw [← ofDigits_eq_ofDigitChars] at hdigits
  have hwhole : absorb 0 x.whole = (ofDigits 0 x.whole, x.whole.length) := by
    refine absorb_eq (lt_of_le_of_lt ?_ (hdigits.trans (by decide)))
    rw [ofDigits_append]
    exact le_ofDigits _ _
  have hall : absorb (ofDigits 0 x.whole) x.fraction =
      (ofDigits 0 (x.whole ++ x.fraction), x.fraction.length) := by
    rw [ofDigits_append]
    refine absorb_eq (lt_of_lt_of_le ?_ (by decide : 2 ^ 53 ≤ _))
    rw [← ofDigits_append]
    exact hdigits
  rw [stepwise, magnitude, ← ofDigits_eq_ofDigitChars, hwhole]
  simp only [hall, Nat.sub_self, Nat.cast_zero, Int.add_zero]
  generalize ofDigits 0 (x.whole ++ x.fraction) = d at *
  generalize x.exponent - (x.fraction.length : Int) = e at *
  obtain ⟨m, q, hsize, hd⟩ := ofNat_exact (n := d) (a := d) (k := 0) (by simp) hdigits (by decide)
  rw [hsize]
  suffices ∃ y, (if 0 ≤ e then raise (.finite false m q) e.toNat
      else some (lower (.finite false m q) e.natAbs)) = some y ∧ Rounds false (d * 10 ^ e) y by
    obtain ⟨y, hy, hround⟩ := this
    rw [hy]
    cases hneg : x.negative with
    | false => exact ⟨y, rfl, hround⟩
    | true => exact ⟨y.neg, rfl, hround.neg⟩
  split
  · rename_i he
    obtain ⟨k, rfl⟩ := Int.eq_ofNat_of_zero_le he
    exact raise_rounds hd hdigits (by omega)
  · rename_i he
    obtain ⟨k, hk⟩ := Int.eq_ofNat_of_zero_le (show 0 ≤ -e by omega)
    obtain rfl : e = -k := by omega
    rw [Int.natAbs_neg, Int.natAbs_natCast]
    exact ⟨_, rfl, lower_rounds hd hdigits (by omega)⟩

end Numeral

end ResourceApi.Decimal
