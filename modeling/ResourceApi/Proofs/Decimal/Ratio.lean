import ResourceApi.Proofs.Decimal.Nearest
import ResourceApi.Proofs.Decimal.Rounding

/-!
Ratios are rounded to the nearest double. The exponent is found from the lengths of numerator and
denominator, which leave two exponents to choose from, and the mantissa is the nearest whole number
of steps of that exponent, or the next power of two if this has one bit too many.
-/

namespace ResourceApi.Decimal

section Scaling

variable {base num den : Nat}

theorem scaleDown_den_pos (hbase : 0 < base) (hden : 0 < den) (e : Int) (num : Nat) :
    0 < (scaleDown base e num den).2 := by
  rw [scaleDown]
  split
  · exact Nat.mul_pos hden (Nat.pow_pos hbase)
  · exact hden

/-- The ratio is divided by a power of the base. -/
theorem scaleDown_div (hbase : 0 < base) (hden : 0 < den) (e : Int) (num : Nat) :
    ((scaleDown base e num den).1 : ℚ) / (scaleDown base e num den).2 =
      (num : ℚ) / den / (base : ℚ) ^ e := by
  have hbase' : (base : ℚ) ≠ 0 := Nat.cast_ne_zero.2 hbase.ne'
  have hden' : (den : ℚ) ≠ 0 := Nat.cast_ne_zero.2 hden.ne'
  rw [scaleDown]
  split
  · rename_i he
    obtain ⟨k, rfl⟩ := Int.eq_ofNat_of_zero_le he
    rw [Int.toNat_natCast, Nat.pow_eq, zpow_natCast]
    push_cast
    rw [div_div]
  · rename_i he
    obtain ⟨k, hk⟩ := Int.eq_ofNat_of_zero_le (show 0 ≤ -e by omega)
    obtain rfl : e = -k := by omega
    rw [Int.neg_neg, Int.toNat_natCast, Nat.pow_eq, zpow_neg, zpow_natCast]
    push_cast
    rw [div_inv_eq_mul, div_mul_eq_mul_div]

/-- A scaled ratio is at least one just if the power was not above the ratio. -/
theorem scaleDown_le_iff (hbase : 0 < base) (hden : 0 < den) (e : Int) :
    (scaleDown base e num den).2 ≤ (scaleDown base e num den).1 ↔
      (base : ℚ) ^ e ≤ (num : ℚ) / den := by
  have hpos := scaleDown_den_pos hbase hden e num
  have hpow : (0 : ℚ) < (base : ℚ) ^ e := zpow_pos (Nat.cast_pos.2 hbase) e
  rw [← one_mul ((base : ℚ) ^ e), ← le_div_iff₀ hpow, ← scaleDown_div hbase hden,
    le_div_iff₀ (Nat.cast_pos.2 hpos), one_mul, Nat.cast_le]

/-- The choice between two exponents. -/
def floorLog (base : Nat) (e : Int) (num den : Nat) : Int :=
  if (scaleDown base e num den).2 ≤ (scaleDown base e num den).1 then e else e - 1

/-- Lengths of numerator and denominator leave only two exponents to choose from. -/
theorem floorLog_spec (hbase : 0 < base) {a b : Nat} (hnum : base ^ a ≤ num ∧ num < base ^ (a + 1))
    (hden : base ^ b ≤ den ∧ den < base ^ (b + 1)) :
    (base : ℚ) ^ floorLog base (a - b) num den ≤ (num : ℚ) / den ∧
      (num : ℚ) / den < (base : ℚ) ^ (floorLog base (a - b) num den + 1) := by
  have hbase' : (0 : ℚ) < base := Nat.cast_pos.2 hbase
  have hpos : 0 < den := lt_of_lt_of_le (Nat.pow_pos hbase) hden.1
  have hpos' : (0 : ℚ) < den := Nat.cast_pos.2 hpos
  have hcast (n : Nat) : ((base ^ n : Nat) : ℚ) = (base : ℚ) ^ (n : Int) := by
    rw [zpow_natCast, Nat.cast_pow]
  have hadd (n : Nat) (e : Int) : (base : ℚ) ^ (n : Int) * (base : ℚ) ^ e = (base : ℚ) ^ (n + e) :=
    (zpow_add₀ hbase'.ne' _ _).symm
  have hup : (num : ℚ) / den < (base : ℚ) ^ ((a - b : Int) + 1) := by
    rw [div_lt_iff₀ hpos']
    calc (num : ℚ) < ((base ^ (a + 1) : Nat) : ℚ) := Nat.cast_lt.2 hnum.2
      _ = (base : ℚ) ^ ((a - b : Int) + 1) * ((base ^ b : Nat) : ℚ) := by
        rw [hcast, hcast, mul_comm, hadd]
        congr 1
        push_cast
        ring
      _ ≤ (base : ℚ) ^ ((a - b : Int) + 1) * den :=
        mul_le_mul_of_nonneg_left (Nat.cast_le.2 hden.1) (zpow_pos hbase' _).le
  have hdown : (base : ℚ) ^ (a - b - 1 : Int) ≤ (num : ℚ) / den := by
    rw [le_div_iff₀ hpos']
    calc (base : ℚ) ^ (a - b - 1 : Int) * den
        ≤ (base : ℚ) ^ (a - b - 1 : Int) * ((base ^ (b + 1) : Nat) : ℚ) :=
          mul_le_mul_of_nonneg_left (Nat.cast_le.2 hden.2.le) (zpow_pos hbase' _).le
      _ = ((base ^ a : Nat) : ℚ) := by
        rw [hcast, hcast, mul_comm, hadd]
        congr 1
        push_cast
        ring
      _ ≤ num := Nat.cast_le.2 hnum.1
  rw [floorLog]
  split
  · rename_i h
    exact ⟨(scaleDown_le_iff hbase hpos _).1 h, hup⟩
  · rename_i h
    rw [scaleDown_le_iff hbase hpos, not_le] at h
    rw [sub_add_cancel]
    exact ⟨hdown, h⟩

/-- The ratio lies between two powers of two that follow each other. -/
theorem log2Ratio_spec (hnum : 0 < num) (hden : 0 < den) :
    (2 : ℚ) ^ log2Ratio num den ≤ (num : ℚ) / den ∧
      (num : ℚ) / den < 2 ^ (log2Ratio num den + 1) :=
  floorLog_spec two_pos ⟨Nat.log2_self_le hnum.ne', Nat.lt_log2_self⟩
    ⟨Nat.log2_self_le hden.ne', Nat.lt_log2_self⟩

/-- The number of digits says between which powers of ten a number lies. -/
theorem digitCount_spec {n : Nat} (hn : 0 < n) :
    ∃ a, digitCount n = a + 1 ∧ 10 ^ a ≤ n ∧ n < 10 ^ (a + 1) := by
  have hlength : 0 < (Nat.toDigits 10 n).length := List.length_pos_iff.2 Nat.toDigits_ne_nil
  obtain ⟨a, ha⟩ : ∃ a, (Nat.toDigits 10 n).length = a + 1 := ⟨_, (Nat.succ_pred hlength.ne').symm⟩
  refine ⟨a, ha, ?_, (Nat.length_toDigits_le_iff (by decide) a.succ_pos).1 ha.le⟩
  rcases a.eq_zero_or_pos with rfl | hpos
  · exact hn
  · by_contra hlt
    have hle := (Nat.length_toDigits_le_iff (by decide) hpos).2 (Nat.lt_of_not_ge hlt)
    omega

/-- The ratio lies between two powers of ten that follow each other. -/
theorem log10Ratio_spec (hnum : 0 < num) (hden : 0 < den) :
    (10 : ℚ) ^ log10Ratio num den ≤ (num : ℚ) / den ∧
      (num : ℚ) / den < 10 ^ (log10Ratio num den + 1) := by
  obtain ⟨a, ha, hnum'⟩ := digitCount_spec hnum
  obtain ⟨b, hb, hden'⟩ := digitCount_spec hden
  have hexp : (digitCount num : Int) - (digitCount den : Int) = a - b := by omega
  have h := floorLog_spec (by decide : 0 < 10) hnum' hden'
  rw [← hexp] at h
  exact h

end Scaling

namespace Binary64

/-- The nearest whole number. -/
theorem roundHalfEven_spec {num den : Nat} (hden : 0 < den) :
    ((roundHalfEven num den : ℚ) - 1 / 2 ≤ (num : ℚ) / den ∧
      (num : ℚ) / den ≤ roundHalfEven num den + 1 / 2) ∧
    (roundHalfEven num den % 2 = 1 → (roundHalfEven num den : ℚ) - 1 / 2 < (num : ℚ) / den ∧
      (num : ℚ) / den < roundHalfEven num den + 1 / 2) := by
  obtain ⟨hlow, hhigh, hodd⟩ := (roundHalfEven_eq_iff hden).1 (rfl : roundHalfEven num den = _)
  generalize roundHalfEven num den = c at *
  have hden' : (0 : ℚ) < den := Nat.cast_pos.2 hden
  have hlow' : 2 * ((c : ℚ) * den) ≤ 2 * num + den := by exact_mod_cast hlow
  have hhigh' : 2 * (num : ℚ) + den ≤ 2 * (c * den) + 2 * den := by exact_mod_cast hhigh
  refine ⟨⟨?_, ?_⟩, fun hc => ?_⟩
  · rw [le_div_iff₀ hden']
    linarith
  · rw [div_le_iff₀ hden']
    linarith
  · obtain ⟨hlow, hhigh⟩ := hodd hc
    have hlow' : 2 * ((c : ℚ) * den) < 2 * num + den := by exact_mod_cast hlow
    have hhigh' : 2 * (num : ℚ) + den < 2 * (c * den) + 2 * den := by exact_mod_cast hhigh
    rw [lt_div_iff₀ hden', div_lt_iff₀ hden']
    constructor <;> linarith

/-! ### Ratios -/

/-- The greatest double. -/
def greatest : ℚ := (2 ^ 53 - 1) * 2 ^ (971 : Int)

section Rounding

variable {r : ℚ} {c : Nat} {q : Int}

/-- So many steps are the nearest to a number, and if it is finer than the least steps it fills a
mantissa. -/
structure IsRounded (r : ℚ) (c : Nat) (q : Int) : Prop where
  low : dyadic c q - 2 ^ q / 2 ≤ r
  high : r ≤ dyadic c q + 2 ^ q / 2
  odd : c % 2 = 1 → dyadic c q - 2 ^ q / 2 < r ∧ r < dyadic c q + 2 ^ q / 2
  least : -1074 ≤ q
  full : q = -1074 ∨ dyadic (2 ^ 52) q ≤ r
  lt : r < dyadic (2 ^ 53) q

theorem IsRounded.le (h : IsRounded r c q) : c ≤ 2 ^ 53 := by
  by_contra hc
  have hmono := dyadic_mono (Nat.succ_le_of_lt (not_le.1 hc)) q
  have hlow := h.low
  have hlt := h.lt
  have hpos := two_zpow_pos q
  rw [Nat.succ_eq_add_one, dyadic_succ] at hmono
  linarith

/-- A number that fills the mantissa is rounded to one that fills it. -/
theorem IsRounded.le_of_full (h : IsRounded r c q) (hfull : dyadic (2 ^ 52) q ≤ r) :
    2 ^ 52 ≤ c := by
  by_contra hc
  have hmono := dyadic_mono (Nat.succ_le_of_lt (not_le.1 hc)) q
  have hhigh := h.high
  have hpos := two_zpow_pos q
  rw [Nat.succ_eq_add_one, dyadic_succ] at hmono
  linarith

/-- What is rounded is nearest among doubles, unless it needs one more digit or exponent. -/
theorem IsRounded.isNearest (h : IsRounded r c q) (hc : c ≠ 2 ^ 53) (hq : q ≤ 971) :
    IsNearest r c q := by
  have hpos := two_zpow_pos q
  have hstep : dyadic c q - stepBelow c q / 2 ≤ r ∧
      (c % 2 = 1 → dyadic c q - stepBelow c q / 2 < r) := by
    rw [stepBelow]
    split
    · rename_i hpow
      have hfull := h.full.resolve_left (by omega)
      rw [hpow.1]
      generalize dyadic (2 ^ 52) q = y at hfull ⊢
      exact ⟨by linarith, fun _ => by linarith⟩
    · exact ⟨h.low, fun hodd => (h.odd hodd).1⟩
  have haround : IsAround r c q :=
    ⟨hstep.1, h.high, fun hodd => ⟨hstep.2 hodd, (h.odd hodd).2⟩⟩
  refine haround.isNearest ⟨lt_of_le_of_ne h.le hc, h.least, hq, ?_⟩
  rcases h.full with hq | hfull
  · exact .inr hq
  · exact .inl (h.le_of_full hfull)

/-- A mantissa that has overflowed is half as much at the next exponent. -/
theorem dyadic_carry (q : Int) : dyadic (2 ^ 52) (q + 1) = dyadic (2 ^ 53) q := by
  rw [dyadic_two_pow, dyadic_two_pow, zpow_add₀ two_ne_zero, zpow_one]
  ring

/-- A mantissa that is rounded up to one bit more is that of the next power of two. -/
theorem IsRounded.isNearest_carry (h : IsRounded r (2 ^ 53) q) (hq : q + 1 ≤ 971) :
    IsNearest r (2 ^ 52) (q + 1) := by
  have hpos := two_zpow_pos q
  have hlow := h.low
  have hlt := h.lt
  have hleast := h.least
  have hstep : stepBelow (2 ^ 52) (q + 1) = 2 ^ q := by
    rw [stepBelow, if_pos ⟨rfl, by omega⟩, zpow_add₀ two_ne_zero, zpow_one]
    ring
  have hpos' := two_zpow_pos (q + 1)
  refine IsAround.isNearest ⟨?_, ?_, by norm_num⟩ ⟨by norm_num, by omega, hq, .inl le_rfl⟩
  · rw [hstep, dyadic_carry]
    exact hlow
  · rw [dyadic_carry]
    generalize dyadic (2 ^ 53) q = y at hlt ⊢
    linarith

/-- What leaves the range of doubles when it is rounded was beyond the greatest one. -/
theorem IsRounded.greatest_lt (h : IsRounded r c q)
    (hq : 971 < q ∨ c = 2 ^ 53 ∧ 971 < q + 1) : greatest < r := by
  have hpos := two_zpow_pos 971
  rw [greatest]
  rcases hq with hq | ⟨rfl, hq⟩
  · have hfull := h.full.resolve_left (by omega)
    have hle : (2 : ℚ) ^ ((971 : Int) + 1) ≤ 2 ^ q := zpow_le_zpow_right₀ one_le_two (by omega)
    rw [zpow_add₀ two_ne_zero, zpow_one] at hle
    rw [dyadic_two_pow] at hfull
    generalize (2 : ℚ) ^ (971 : Int) = u at *
    linarith
  · have hlow := h.low
    have hle : (2 : ℚ) ^ (971 : Int) ≤ 2 ^ q := zpow_le_zpow_right₀ one_le_two (by omega)
    rw [dyadic_two_pow] at hlow
    generalize (2 : ℚ) ^ (971 : Int) = u at *
    linarith

end Rounding

theorem isRounded_ratio {num den : Nat} (hnum : 0 < num) (hden : 0 < den) :
    let q := max (-1074) (log2Ratio num den - 52)
    IsRounded ((num : ℚ) / den)
      (roundHalfEven (scaleDown 2 q num den).1 (scaleDown 2 q num den).2) q := by
  intro q
  obtain ⟨hlog, hlog'⟩ := log2Ratio_spec hnum hden
  have hscale := scaleDown_div two_pos hden q num
  obtain ⟨⟨hlow, hhigh⟩, hodd⟩ := @roundHalfEven_spec (scaleDown 2 q num den).1 _
    (scaleDown_den_pos two_pos hden q num)
  have hpos := two_zpow_pos q
  have hpos' : (0 : ℚ) < ((2 : Nat) : ℚ) ^ q := hpos
  rw [hscale] at hlow hhigh hodd
  rw [le_div_iff₀ hpos'] at hlow
  rw [div_le_iff₀ hpos'] at hhigh
  rw [lt_div_iff₀ hpos', div_lt_iff₀ hpos'] at hodd
  have hq : q = -1074 ∨ q = log2Ratio num den - 52 := by omega
  have hle : log2Ratio num den + 1 ≤ 53 + q := by omega
  have hpow (n : Nat) : dyadic (2 ^ n) q = 2 ^ (n + q) := by
    rw [dyadic_two_pow, zpow_add₀ two_ne_zero, zpow_natCast]
  constructor
  · rw [dyadic]
    linarith
  · rw [dyadic]
    linarith
  · intro h
    rw [dyadic]
    exact ⟨by linarith [(hodd h).1], by linarith [(hodd h).2]⟩
  · omega
  · refine hq.imp_right fun hq => ?_
    have hexp : ((52 : Nat) : Int) + q = log2Ratio num den := by omega
    rw [hpow, hexp]
    exact hlog
  · rw [hpow]
    exact lt_of_lt_of_le hlog' (zpow_le_zpow_right₀ one_le_two hle)

/-- A positive ratio is rounded to the nearest double, unless it is above the greatest one. -/
theorem ofRatio_cases (negative : Bool) {num den : Nat} (hnum : 0 < num) (hden : 0 < den) :
    (∃ m q, ofRatio negative num den = .finite negative m q ∧ IsNearest ((num : ℚ) / den) m q) ∨
      ofRatio negative num den = .infinite negative ∧ greatest < (num : ℚ) / den := by
  have h := isRounded_ratio hnum hden
  unfold ofRatio
  rw [if_neg hnum.ne']
  dsimp only at h ⊢
  generalize max (-1074) (log2Ratio num den - 52) = q at h ⊢
  generalize roundHalfEven _ _ = c at h ⊢
  by_cases hc : c = 0x20000000000000
  · subst hc
    rw [if_pos rfl]
    dsimp only
    split
    · rename_i hq
      exact .inr ⟨rfl, h.greatest_lt (.inr ⟨rfl, hq⟩)⟩
    · rename_i hq
      exact .inl ⟨_, _, rfl, h.isNearest_carry (not_lt.1 hq)⟩
  · rw [if_neg hc]
    dsimp only
    split
    · rename_i hq
      exact .inr ⟨rfl, h.greatest_lt (.inl hq)⟩
    · rename_i hq
      exact .inl ⟨_, _, rfl, h.isNearest hc (not_lt.1 hq)⟩

end Binary64

end ResourceApi.Decimal
