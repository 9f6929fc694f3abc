import Mathlib.Tactic.Ring
import ResourceApi.Decimal.Binary64

/-!
Whole numbers and the doubles that they are rounded to. From `2 ^ 54` on the numbers that are
rounded to one double are a stretch around it: half a step to each side, but below a power of two a
quarter, because the doubles there are twice as close.
-/

namespace ResourceApi.Decimal

/-- Between two borders, which count when the mantissa is even. -/
def Covers (m low high y : Nat) : Prop :=
  low ≤ y ∧ y ≤ high ∧ (m % 2 = 1 → low < y ∧ y < high)

/-- A number is rounded to `c` just if it lies between the halves around `c`. -/
theorem roundHalfEven_eq_iff {num den c : Nat} (hden : 0 < den) : roundHalfEven num den = c ↔
    Covers c (2 * (c * den)) (2 * (c * den) + 2 * den) (2 * num + den) := by
  have hdiv : den * (num / den) + num % den = num := Nat.div_add_mod num den
  have hrest : num % den < den := Nat.mod_lt num hden
  unfold roundHalfEven Covers
  generalize hq : num / den = q at hdiv
  generalize num % den = r at hdiv hrest
  rw [Nat.mul_comm] at hdiv
  -- Only the quotient and its successor can be nearest.
  rcases Nat.lt_trichotomy c q with hc | rfl | hc
  · have hle : (c + 1) * den ≤ q * den := Nat.mul_le_mul_right den hc
    grind
  · grind
  · obtain rfl | hc : c = q + 1 ∨ q + 2 ≤ c := by omega
    · grind
    · have hle : (q + 2) * den ≤ c * den := Nat.mul_le_mul_right den hc
      grind

namespace Binary64

/-! ### Whole numbers by their length -/

/-- The numbers of which a mantissa keeps all but the last `t` bits. -/
theorem log2_eq_add_iff {n t : Nat} : n.log2 = t + 52 ↔
    0x10000000000000 * 2 ^ t ≤ n ∧ n < 0x20000000000000 * 2 ^ t := by
  have hpos : 0 < 2 ^ t := Nat.two_pow_pos t
  rcases n.eq_zero_or_pos with rfl | hn
  · rw [Nat.log2_zero]
    omega
  · rw [Nat.log2_eq_iff hn.ne']
    simp only [Nat.pow_add]
    omega

theorem log2Ratio_one {n : Nat} (h : n ≠ 0) : log2Ratio n 1 = n.log2 := by
  have hlog : (n.log2 : Int) - (Nat.log2 1 : Int) = n.log2 := Int.sub_zero _
  have hpow : 1 * 2 ^ n.log2 ≤ n := by
    rw [Nat.one_mul]
    exact Nat.log2_self_le h
  rw [log2Ratio, hlog, scaleDown, if_pos (Int.natCast_nonneg _)]
  exact if_pos hpow

/-- The exponent is that of the number, or one more if the mantissa is rounded up to a power of
two. -/
theorem ofNat_eq_finite_iff_of_log2 {n t m : Nat} {q : Int} (h : n.log2 = t + 52) :
    ofNat n = .finite false m q ↔ q ≤ 971 ∧
      if roundHalfEven n (2 ^ t) = 0x20000000000000 then m = 0x10000000000000 ∧ q = t + 1
      else m = roundHalfEven n (2 ^ t) ∧ q = t := by
  have hne : n ≠ 0 := by
    rintro rfl
    rw [Nat.log2_zero] at h
    omega
  have hexp : max (-1074) (log2Ratio n 1 - 52) = (t : Int) := by
    rw [log2Ratio_one hne]
    omega
  have hscale : scaleDown 2 t n 1 = (n, 2 ^ t) := by
    rw [scaleDown, if_pos (Int.natCast_nonneg t), Nat.one_mul]
    rfl
  rw [ofNat, ofRatio, if_neg hne]
  simp only [hexp, hscale]
  split <;> split <;> simp <;> omega

/-- Only a whole number that fills a mantissa is rounded to a large double. -/
theorem log2_of_ofNat_eq_finite {n m : Nat} {q : Int} (h : ofNat n = .finite false m q)
    (hq : 1 < q) : ∃ t, n.log2 = t + 52 := by
  suffices hlog : 52 ≤ n.log2 from ⟨n.log2 - 52, by omega⟩
  by_contra hlog
  have hne : n ≠ 0 := by
    rintro rfl
    simp [ofNat, ofRatio, zero] at h
    omega
  have hexp : max (-1074) (log2Ratio n 1 - 52) = (n.log2 : Int) - 52 := by
    rw [log2Ratio_one hne]
    omega
  rw [ofNat, ofRatio, if_neg hne] at h
  simp only [hexp] at h
  split at h <;> split at h <;> simp at h <;> omega

/-- Rounding keeps the mantissa full, and may carry into the next power of two. -/
theorem roundHalfEven_bounds {n t : Nat} (h : n.log2 = t + 52) :
    0x10000000000000 ≤ roundHalfEven n (2 ^ t) ∧ roundHalfEven n (2 ^ t) ≤ 0x20000000000000 := by
  have hpos : 0 < 2 ^ t := Nat.two_pow_pos t
  obtain ⟨hge, hlt⟩ := log2_eq_add_iff.1 h
  obtain ⟨hle, hge', -⟩ := (roundHalfEven_eq_iff hpos).1 (rfl : roundHalfEven n (2 ^ t) = _)
  generalize roundHalfEven n (2 ^ t) = r at *
  constructor
  · by_contra hlow
    have hmul : r * 2 ^ t ≤ 0xFFFFFFFFFFFFF * 2 ^ t := Nat.mul_le_mul_right _ (by omega)
    omega
  · by_contra hhigh
    have hmul : 0x20000000000001 * 2 ^ t ≤ r * 2 ^ t := Nat.mul_le_mul_right _ (by omega)
    omega

/-- From `2 ^ 54` on a whole number is rounded to a double of this form. -/
theorem exists_ofNat_eq {n : Nat} (hlow : 54 ≤ n.log2) (hhigh : n.log2 ≤ 1022) :
    ∃ m e : Nat, 0x10000000000000 ≤ m ∧ m < 0x20000000000000 ∧ e ≤ 969 ∧
      ofNat n = .finite false m (e + 2 : Nat) := by
  obtain ⟨t, ht⟩ : ∃ t, n.log2 = t + 2 + 52 := ⟨n.log2 - 54, by omega⟩
  obtain ⟨hge, hle⟩ := roundHalfEven_bounds ht
  by_cases hround : roundHalfEven n (2 ^ (t + 2)) = 0x20000000000000
  · refine ⟨0x10000000000000, t + 1, Nat.le_refl _, by decide, by omega, ?_⟩
    rw [ofNat_eq_finite_iff_of_log2 ht, if_pos hround]
    omega
  · refine ⟨_, t, hge, by omega, by omega, ?_⟩
    rw [ofNat_eq_finite_iff_of_log2 ht, if_neg hround]
    omega

/-! ### The numbers that are rounded to a double -/

/-- How far the stretch around `m * 2 ^ (e + 2)` reaches below it. -/
def gap (m e : Nat) : Nat := if m = 0x10000000000000 then 2 ^ e else 2 * 2 ^ e

/-- Whether a whole number lies in the stretch around `m * 2 ^ (e + 2)`. -/
def IsNear (m e n : Nat) : Prop :=
  Covers m (4 * (m * 2 ^ e) - gap m e) (4 * (m * 2 ^ e) + 2 * 2 ^ e) n

instance (m e n : Nat) : Decidable (IsNear m e n) :=
  inferInstanceAs (Decidable (_ ∧ _ ∧ (_ → _ ∧ _)))

variable {m e n : Nat}

theorem gap_cases (m e : Nat) : m = 0x10000000000000 ∧ gap m e = 2 ^ e ∨
    m ≠ 0x10000000000000 ∧ gap m e = 2 * 2 ^ e := by
  rw [gap]
  split
  · exact .inl ⟨‹_›, rfl⟩
  · exact .inr ⟨‹_›, rfl⟩

/-- What lies between a number near to a double and the double is near to it. -/
theorem IsNear.between {k : Nat} (h : IsNear m e n) (hm : 0 < m)
    (hk : n ≤ k ∧ k ≤ 4 * (m * 2 ^ e) ∨ 4 * (m * 2 ^ e) ≤ k ∧ k ≤ n) : IsNear m e k := by
  have hpos : 0 < 2 ^ e := Nat.two_pow_pos e
  have hmul : 0 < m * 2 ^ e := Nat.mul_pos hm hpos
  have hgap := gap_cases m e
  unfold IsNear Covers at *
  omega

/-- A double lies in the stretch around it. -/
theorem isNear_value (hm : 0 < m) (e : Nat) : IsNear m e (4 * (m * 2 ^ e)) := by
  have hpos : 0 < 2 ^ e := Nat.two_pow_pos e
  have hmul : 0 < m * 2 ^ e := Nat.mul_pos hm hpos
  have hgap := gap_cases m e
  unfold IsNear Covers
  omega

theorem IsNear.pos (h : IsNear m e n) (hm : 0 < m) : 0 < n := by
  have hpos : 0 < 2 ^ e := Nat.two_pow_pos e
  have hmul : 2 ^ e ≤ m * 2 ^ e := Nat.le_mul_of_pos_left _ hm
  have hgap := gap_cases m e
  unfold IsNear Covers at h
  omega

theorem mul_two_pow_add_two (m e : Nat) : m * 2 ^ (e + 2) = 4 * (m * 2 ^ e) := by ring

/-- The least mantissa is that of a power of two, and there the stretch reaches less far down. -/
theorem value_cases (hlow : 0x10000000000000 ≤ m) (e : Nat) :
    m = 0x10000000000000 ∧ m * 2 ^ e = 0x10000000000000 * 2 ^ e ∧ gap m e = 2 ^ e ∨
      m ≠ 0x10000000000000 ∧ 0x10000000000001 * 2 ^ e ≤ m * 2 ^ e ∧ gap m e = 2 * 2 ^ e := by
  rcases gap_cases m e with ⟨rfl, hgap⟩ | ⟨hne, hgap⟩
  · exact .inl ⟨rfl, rfl, hgap⟩
  · exact .inr ⟨hne, Nat.mul_le_mul_right _ (by omega), hgap⟩

/-- A double and half a step between doubles of its size. -/
theorem value_bounds (hlow : 0x10000000000000 ≤ m) (hhigh : m < 0x20000000000000) (e : Nat) :
    0x40000000000000 * 2 ^ e ≤ 4 * (m * 2 ^ e) ∧
      4 * (m * 2 ^ e) + 4 * 2 ^ e ≤ 0x80000000000000 * 2 ^ e := by
  have hle : 0x10000000000000 * 2 ^ e ≤ m * 2 ^ e := Nat.mul_le_mul_right _ hlow
  have hlt : (m + 1) * 2 ^ e ≤ 0x20000000000000 * 2 ^ e := Nat.mul_le_mul_right _ hhigh
  rw [Nat.succ_mul] at hlt
  omega

/-- Only a number in the stretch around a double is rounded to it. -/
theorem isNear_of_ofNat_eq (hlow : 0x10000000000000 ≤ m)
    (h : ofNat n = .finite false m (e + 2 : Nat)) : IsNear m e n := by
  have hvalue := value_cases hlow e
  obtain ⟨t, ht⟩ := log2_of_ofNat_eq_finite h (by omega)
  obtain ⟨hge, hlt⟩ := log2_eq_add_iff.1 ht
  obtain ⟨-, h⟩ := (ofNat_eq_finite_iff_of_log2 ht).1 h
  unfold IsNear
  split at h
  · -- The number is below a power of two that it is rounded to.
    rename_i hround
    obtain ⟨rfl, hexp⟩ := h
    obtain rfl : t = e + 1 := by omega
    rw [roundHalfEven_eq_iff (Nat.two_pow_pos _)] at hround
    simp only [Covers, Nat.pow_succ] at *
    omega
  · obtain ⟨hm, hexp⟩ := h
    obtain rfl : t = e + 2 := by omega
    have hround := (roundHalfEven_eq_iff (Nat.two_pow_pos _)).1 hm.symm
    rw [mul_two_pow_add_two] at hround
    simp only [Covers, Nat.pow_succ] at *
    omega

/-- Every number in the stretch around a double is rounded to it. -/
theorem ofNat_eq_of_isNear (hlow : 0x10000000000000 ≤ m) (hhigh : m < 0x20000000000000)
    (he : e ≤ 969) (h : IsNear m e n) : ofNat n = .finite false m (e + 2 : Nat) := by
  have hpos : 0 < 2 ^ e := Nat.two_pow_pos e
  have hvalue := value_cases hlow e
  have hbounds := value_bounds hlow hhigh e
  unfold IsNear at h
  by_cases hbinade : 0x40000000000000 * 2 ^ e ≤ n
  · have ht : n.log2 = e + 2 + 52 := by
      rw [log2_eq_add_iff]
      simp only [Covers, Nat.pow_succ] at *
      omega
    have hround : roundHalfEven n (2 ^ (e + 2)) = m := by
      rw [roundHalfEven_eq_iff (Nat.two_pow_pos _), mul_two_pow_add_two]
      simp only [Covers, Nat.pow_succ] at *
      omega
    rw [ofNat_eq_finite_iff_of_log2 ht, hround, if_neg hhigh.ne]
    omega
  · have hm : m = 0x10000000000000 := by
      simp only [Covers] at *
      omega
    have ht : n.log2 = e + 1 + 52 := by
      rw [log2_eq_add_iff]
      simp only [Covers, Nat.pow_succ] at *
      omega
    have hround : roundHalfEven n (2 ^ (e + 1)) = 0x20000000000000 := by
      rw [roundHalfEven_eq_iff (Nat.two_pow_pos _)]
      simp only [Covers, Nat.pow_succ] at *
      omega
    rw [ofNat_eq_finite_iff_of_log2 ht, if_pos hround]
    omega

/-- The whole numbers near to a double are those that are rounded to it. -/
theorem ofNat_eq_finite_iff (hlow : 0x10000000000000 ≤ m) (hhigh : m < 0x20000000000000)
    (he : e ≤ 969) : ofNat n = .finite false m (e + 2 : Nat) ↔ IsNear m e n :=
  ⟨isNear_of_ofNat_eq hlow, ofNat_eq_of_isNear hlow hhigh he⟩

end Binary64

end ResourceApi.Decimal
