import ResourceApi.Proofs.Decimal.Positional
import ResourceApi.Proofs.Decimal.Rounding

/-!
Which decimal a large double is written as. From `2 ^ 54` on it is a whole number: of all that are
rounded to the double it is the one with the most final zeros, and of those the one nearest to it.
-/

namespace ResourceApi.Decimal

open Binary64

/-- No farther from a value, and the greater of two numbers as far from it. -/
def IsNearer (v n y : Nat) : Prop :=
  (n - v) + (v - n) < (y - v) + (v - y) ∨ (n - v) + (v - n) = (y - v) + (v - y) ∧ y ≤ n

variable {m e : Nat}

theorem unit_of_grid (e k : Nat) :
    scaleDown 2 (2 - (e + 2 : Nat)) (scaleDown 10 k 1 1).1 (scaleDown 10 k 1 1).2 =
      (2 ^ e, 10 ^ k) := by
  have hgrid : scaleDown 10 k 1 1 = (1, 10 ^ k) := by
    rw [scaleDown, if_pos (Int.natCast_nonneg k), Nat.one_mul]
    rfl
  have hexp : (2 : Int) - (e + 2 : Nat) = -e := by omega
  rw [hgrid, hexp, scaleDown]
  split
  · obtain rfl : e = 0 := by omega
    exact congrArg _ (Nat.mul_one _)
  · rw [Int.neg_neg, Int.toNat_natCast, Nat.one_mul]
    rfl

theorem low_of_grid (m e : Nat) :
    (if m = 0x10000000000000 ∧ -1074 < ((e + 2 : Nat) : Int) then 4 * m - 1 else 4 * m - 2) *
      2 ^ e = 4 * (m * 2 ^ e) - gap m e := by
  have hleast : -1074 < ((e + 2 : Nat) : Int) := by omega
  split
  · rename_i h
    rw [gap, if_pos h.1, Nat.sub_mul, Nat.one_mul, Nat.mul_assoc]
  · rename_i h
    rw [gap, if_neg fun hm => h ⟨hm, hleast⟩, Nat.sub_mul, Nat.mul_assoc]

/-- The test of the search is that a number lies in the stretch around the double. -/
theorem inside_of_grid (m e n : Nat) : (if m % 2 = 0 then
    decide (4 * (m * 2 ^ e) - gap m e ≤ n ∧ n ≤ 4 * (m * 2 ^ e) + 2 * 2 ^ e)
    else decide (4 * (m * 2 ^ e) - gap m e < n ∧ n < 4 * (m * 2 ^ e) + 2 * 2 ^ e)) =
      decide (IsNear m e n) := by
  rw [Bool.eq_iff_iff, decide_eq_true_iff, IsNear, Covers]
  split <;> simp only [decide_eq_true_eq] <;> omega

/-- A double stands between two points of a grid; of those near to it the nearer one is taken. -/
theorem onGrid_eq (m e k : Nat) : onGrid .up m (e + 2 : Nat) k =
    let value := 4 * (m * 2 ^ e)
    let below := value / 10 ^ k
    if IsNear m e (below * 10 ^ k) ∧ (IsNear m e ((below + 1) * 10 ^ k) →
        value - below * 10 ^ k < (below + 1) * 10 ^ k - value) then some below
    else if IsNear m e ((below + 1) * 10 ^ k) then some (below + 1)
    else none := by
  have hhigh : (4 * m + 2) * 2 ^ e = 4 * (m * 2 ^ e) + 2 * 2 ^ e := by
    rw [Nat.add_mul, Nat.mul_assoc]
  unfold onGrid
  simp only [unit_of_grid, low_of_grid, hhigh, Nat.mul_assoc, inside_of_grid]
  generalize 4 * (m * 2 ^ e) / 10 ^ k = below
  by_cases hbelow : IsNear m e (below * 10 ^ k) <;>
    by_cases habove : IsNear m e ((below + 1) * 10 ^ k) <;> simp [hbelow, habove]
  exact apply_ite some _ _ _

/-- The grid of multiples of `10 ^ k` has the one that is nearest to the double, if any is near. -/
theorem onGrid_cases (hm : 0 < m) (k : Nat) :
    match onGrid .up m (e + 2 : Nat) k with
    | none => ∀ c, ¬IsNear m e (c * 10 ^ k)
    | some c => IsNear m e (c * 10 ^ k) ∧
      ∀ y, IsNear m e (y * 10 ^ k) → IsNearer (4 * (m * 2 ^ e)) (c * 10 ^ k) (y * 10 ^ k) := by
  have hd : 0 < 10 ^ k := Nat.pow_pos (by decide)
  have hbelow : 4 * (m * 2 ^ e) / 10 ^ k * 10 ^ k ≤ 4 * (m * 2 ^ e) := Nat.div_mul_le_self _ _
  have habove : 4 * (m * 2 ^ e) < (4 * (m * 2 ^ e) / 10 ^ k + 1) * 10 ^ k := by
    have hlt := Nat.lt_mul_div_succ (4 * (m * 2 ^ e)) hd
    rwa [Nat.mul_comm (10 ^ k)] at hlt
  rw [onGrid_eq]
  dsimp only
  generalize 4 * (m * 2 ^ e) / 10 ^ k = below at *
  -- A point that is near is behind one of the two, which then is near too.
  have hpoint : ∀ y, IsNear m e (y * 10 ^ k) →
      y * 10 ^ k ≤ below * 10 ^ k ∧ IsNear m e (below * 10 ^ k) ∨
        (below + 1) * 10 ^ k ≤ y * 10 ^ k ∧ IsNear m e ((below + 1) * 10 ^ k) := by
    intro y hy
    rcases Nat.lt_or_ge below y with hlt | hle
    · have hmul := Nat.mul_le_mul_right (10 ^ k) (Nat.succ_le_of_lt hlt)
      exact .inr ⟨hmul, hy.between hm (.inr ⟨habove.le, hmul⟩)⟩
    · have hmul := Nat.mul_le_mul_right (10 ^ k) hle
      exact .inl ⟨hmul, hy.between hm (.inl ⟨hmul, hbelow⟩)⟩
  unfold IsNearer
  split
  · rename_i hnone
    intro y hy
    grind
  · rename_i c hsome
    split at hsome
    · rename_i h
      cases hsome
      refine ⟨h.1, fun y hy => ?_⟩
      rcases hpoint y hy with ⟨hle, -⟩ | ⟨hle, hnear⟩
      · omega
      · have hlt := h.2 hnear
        omega
    · rename_i h
      split at hsome
      · rename_i hnear
        cases hsome
        refine ⟨hnear, fun y hy => ?_⟩
        rcases hpoint y hy with ⟨hle, hunder⟩ | ⟨hle, -⟩
        · have hfar : ¬4 * (m * 2 ^ e) - below * 10 ^ k <
              (below + 1) * 10 ^ k - 4 * (m * 2 ^ e) := fun hlt => h ⟨hunder, fun _ => hlt⟩
          omega
        · omega
      · cases hsome

/-! ### Ever finer grids -/

/-- The grids are tried from the coarsest on, so no coarser one has a point near to the double. -/
theorem firstOnGrid_cases (hm : 0 < m) {j : Nat} (hj : ∃ y, IsNear m e (y * 10 ^ j)) (n s : Nat)
    (hle : j ≤ s) (hlt : s < j + n) : ∃ c k : Nat, firstOnGrid .up m (e + 2 : Nat) n s = ⟨c, k⟩ ∧
      onGrid .up m (e + 2 : Nat) k = some c ∧ k ≤ s ∧
      ∀ i ≤ s, ∀ y, IsNear m e (y * 10 ^ i) → i ≤ k := by
  induction n generalizing s with
  | zero => omega
  | succ n ih =>
    have hgrid := onGrid_cases (e := e) hm s
    rw [firstOnGrid]
    cases h : onGrid .up m (e + 2 : Nat) s with
    | some c => exact ⟨c, s, rfl, h, Nat.le_refl s, fun i hi _ _ => hi⟩
    | none =>
      rw [h] at hgrid
      have hne : j ≠ s := by
        rintro rfl
        obtain ⟨y, hy⟩ := hj
        exact hgrid y hy
      obtain ⟨r, rfl⟩ : ∃ r, s = r + 1 := ⟨s - 1, by omega⟩
      obtain ⟨c, k, hfirst, hc, hk, hcoarser⟩ := ih r (by omega) (by omega)
      have hnext : ((r + 1 : Nat) : Int) - 1 = r := by omega
      refine ⟨c, k, ?_, hc, by omega, fun i hi y hy => ?_⟩
      · rw [← hfirst]
        simp only [hnext]
      · rcases Nat.lt_or_ge r i with hri | hir
        · obtain rfl : i = r + 1 := by omega
          exact absurd hy (hgrid y)
        · exact hcoarser i hir y hy

/-- Final zeros are moved into the exponent. -/
theorem trimmed_cases (n c k : Nat) : ∃ d j : Nat, Scientific.trimmed n ⟨c, k⟩ = ⟨d, j⟩ ∧
    d * 10 ^ j = c * 10 ^ k := by
  induction n generalizing c k with
  | zero => exact ⟨c, k, rfl, rfl⟩
  | succ n ih =>
    rw [Scientific.trimmed]
    split
    · rename_i h
      obtain ⟨d, j, hd, hmul⟩ := ih (c / 10) (k + 1)
      refine ⟨d, j, hd, ?_⟩
      have hc : c / 10 * 10 = c := Nat.div_mul_cancel (Nat.dvd_of_mod_eq_zero h.2)
      rw [hmul, Nat.pow_succ, Nat.mul_comm (10 ^ k), ← Nat.mul_assoc, hc]
    · exact ⟨c, k, rfl, rfl⟩

/-- The coarsest grid that is tried is that of the first digit. -/
theorem log10Ratio_one {v : Nat} (hv : 0 < v) : ∃ s : Nat, log10Ratio v 1 = s ∧ 10 ^ s ≤ v ∧
    v < 10 ^ (s + 1) := by
  have hlength : 0 < (Nat.toDigits 10 v).length := List.length_pos_iff.2 Nat.toDigits_ne_nil
  obtain ⟨s, hs⟩ : ∃ s, (Nat.toDigits 10 v).length = s + 1 := ⟨_, (Nat.succ_pred hlength.ne').symm⟩
  have hexp : (digitCount v : Int) - (digitCount 1 : Int) = s := by
    rw [digitCount, hs]
    exact Int.add_sub_cancel s 1
  have hle : 10 ^ s ≤ v := by
    rcases s.eq_zero_or_pos with rfl | hpos
    · exact hv
    · by_contra hlt
      have := (Nat.length_toDigits_le_iff (by decide) hpos).2 (Nat.lt_of_not_ge hlt)
      omega
  have hlt : v < 10 ^ (s + 1) :=
    (Nat.length_toDigits_le_iff (by decide) (Nat.succ_pos s)).1 (Nat.le_of_eq hs)
  refine ⟨s, ?_, hle, hlt⟩
  have hscale : scaleDown 10 s v 1 = (v, 10 ^ s) := by
    rw [scaleDown, if_pos (Int.natCast_nonneg s), Nat.one_mul]
    rfl
  rw [log10Ratio, hexp, hscale]
  exact if_pos hle

/-- What a decimal has to be among the whole numbers near to a double. -/
structure IsShortestNear (m e w : Nat) : Prop where
  near : IsNear m e w
  zeros : ∀ y j, IsNear m e y → 10 ^ j ∣ y → 10 ^ j ∣ w
  nearest : ∀ y, IsNear m e y → (∀ j, 10 ^ j ∣ w → 10 ^ j ∣ y) → IsNearer (4 * (m * 2 ^ e)) w y

/-- The next point of a grid that is finer than half a step is near to the double. -/
theorem exists_near_of_lt (hm : 0 < m) {j : Nat} (h : 10 ^ j < 2 * 2 ^ e) :
    ∃ y, IsNear m e (y * 10 ^ j) := by
  refine ⟨4 * (m * 2 ^ e) / 10 ^ j + 1, ?_⟩
  have hpoint := Nat.div_add_mod (4 * (m * 2 ^ e)) (10 ^ j)
  have hrest := Nat.mod_lt (4 * (m * 2 ^ e)) (Nat.pow_pos (n := j) (show 0 < 10 by decide))
  have hmul : 2 ^ e ≤ m * 2 ^ e := Nat.le_mul_of_pos_left _ hm
  have hgap := gap_cases m e
  rw [Nat.succ_mul, Nat.mul_comm _ (10 ^ j)]
  unfold IsNear Covers
  omega

/-- Seventeen digits are enough. -/
theorem exists_near_on_grid (hlow : 0x10000000000000 ≤ m) (hhigh : m < 0x20000000000000) {s : Nat}
    (hs : 10 ^ s ≤ 4 * (m * 2 ^ e)) : ∃ j ≤ s, s < j + 18 ∧ ∃ y, IsNear m e (y * 10 ^ j) := by
  have hm : 0 < m := by omega
  rcases Nat.lt_or_ge s 18 with hsmall | hlarge
  · refine ⟨0, Nat.zero_le s, by omega, 4 * (m * 2 ^ e), ?_⟩
    rw [Nat.pow_zero, Nat.mul_one]
    exact isNear_value hm e
  · obtain ⟨j, rfl⟩ : ∃ j, s = j + 17 := ⟨s - 17, by omega⟩
    obtain ⟨-, hvalue⟩ := value_bounds hlow hhigh e
    have hpos : 0 < 2 ^ e := Nat.two_pow_pos e
    rw [Nat.pow_add] at hs
    exact ⟨j, by omega, by omega, exists_near_of_lt hm (by omega)⟩

/-- If the next power of ten is near to the double, it is the point that is found. -/
theorem zeros_of_shortest (hlow : 0x10000000000000 ≤ m) (hhigh : m < 0x20000000000000)
    {s c y j : Nat} (hlt : 4 * (m * 2 ^ e) < 10 ^ (s + 1))
    (hc : ∀ y, IsNear m e (y * 10 ^ s) → IsNearer (4 * (m * 2 ^ e)) (c * 10 ^ s) (y * 10 ^ s))
    (hy : IsNear m e y) (hsj : s < j) (hj : 10 ^ j ∣ y) : 10 ^ j ∣ c * 10 ^ s := by
  have hm : 0 < m := by omega
  obtain ⟨hvalue, -⟩ := value_bounds hlow hhigh e
  have hyle : y ≤ 4 * (m * 2 ^ e) + 2 * 2 ^ e := hy.2.1
  have hle := Nat.le_of_dvd (hy.pos hm) hj
  obtain rfl : j = s + 1 := by
    by_contra hne
    have hpow : 10 ^ (s + 2) ≤ 10 ^ j := Nat.pow_le_pow_right (by decide) (by omega)
    rw [Nat.pow_add] at hpow hlt
    omega
  have hten : IsNear m e (10 * 10 ^ s) := by
    rw [← Nat.pow_succ']
    exact hy.between hm (.inr ⟨hlt.le, hle⟩)
  have hnearer := hc 10 hten
  rw [Nat.pow_succ] at hlt hle
  obtain rfl : c = 10 := by
    unfold IsNearer at hnearer
    by_contra hne
    rcases Nat.lt_or_gt_of_ne hne with hsmall | hlarge
    · have hmul : c * 10 ^ s ≤ 9 * 10 ^ s := Nat.mul_le_mul_right _ (by omega)
      omega
    · have hmul : 11 * 10 ^ s ≤ c * 10 ^ s := Nat.mul_le_mul_right _ hlarge
      omega
  rw [Nat.pow_succ']

/-- The search finds a whole number near to the double with as many final zeros as there can be. -/
theorem shortest_cases (hlow : 0x10000000000000 ≤ m) (hhigh : m < 0x20000000000000) :
    ∃ d j : Nat, shortest .up m (e + 2 : Nat) = ⟨d, j⟩ ∧ IsShortestNear m e (d * 10 ^ j) := by
  have hm : 0 < m := by omega
  have hvalue : 0 < 4 * (m * 2 ^ e) := Nat.mul_pos (by decide) (Nat.mul_pos hm (Nat.two_pow_pos e))
  obtain ⟨s, hs, hsle, hslt⟩ := log10Ratio_one hvalue
  have hscale : scaleDown 2 (-(e + 2 : Nat)) m 1 = (4 * (m * 2 ^ e), 1) := by
    have hmul : m * Nat.pow 2 (e + 2) = 4 * (m * 2 ^ e) := by
      rw [Nat.pow_eq, mul_two_pow_add_two]
    rw [scaleDown, if_neg (by omega), Int.neg_neg, Int.toNat_natCast, hmul]
  obtain ⟨j, hj, hjs, hnear⟩ := exists_near_on_grid hlow hhigh hsle
  obtain ⟨c, k, hfirst, hc, hk, hcoarser⟩ := firstOnGrid_cases hm hnear 18 s hj hjs
  obtain ⟨d, i, htrimmed, hmul⟩ := trimmed_cases 20 c k
  refine ⟨d, i, ?_, ?_⟩
  · rw [shortest, hscale]
    dsimp only
    rw [hs, hfirst, htrimmed]
  · rw [hmul]
    have hpoint := onGrid_cases (e := e) hm k
    rw [hc] at hpoint
    -- A multiple of a power of ten that was tried is near on its grid.
    have htried : ∀ {y i}, IsNear m e y → 10 ^ i ∣ y → i ≤ s → i ≤ k := by
      rintro y i hy hi his
      obtain ⟨z, rfl⟩ := exists_eq_mul_left_of_dvd hi
      exact hcoarser i his z hy
    refine ⟨hpoint.1, fun y i hy hi => ?_, fun y hy hzeros => ?_⟩
    · rcases Nat.lt_or_ge s i with hsi | his
      · have hks : s ≤ k := htried hy ((Nat.pow_dvd_pow 10 hsi.le).trans hi) (Nat.le_refl s)
        obtain rfl : k = s := Nat.le_antisymm hk hks
        exact zeros_of_shortest hlow hhigh hslt hpoint.2 hy hsi hi
      · exact (Nat.pow_dvd_pow 10 (htried hy hi his)).trans (Nat.dvd_mul_left _ c)
    · obtain ⟨z, rfl⟩ := exists_eq_mul_left_of_dvd (hzeros k (Nat.dvd_mul_left _ c))
      exact hpoint.2 z hy

/-! ### The text of a large double -/

def whole : Binary64 → Nat
  | .finite _ m q => m * 2 ^ q.toNat
  | _ => 0

/-- Of the whole numbers with the same double it has the most final zeros, and of those that have as
many it is the nearest to the double. -/
structure IsShortest (n : Nat) : Prop where
  zeros : ∀ y j, ofNat y = ofNat n → 10 ^ j ∣ y → 10 ^ j ∣ n
  nearest : ∀ y, ofNat y = ofNat n → (∀ j, 10 ^ j ∣ n → 10 ^ j ∣ y) → IsNearer (whole (ofNat n)) n y

/-- No two whole numbers are both the shortest for one double. -/
theorem IsShortest.unique {n w : Nat} (hn : IsShortest n) (hw : IsShortest w)
    (h : ofNat w = ofNat n) : w = n := by
  have hnw := hn.nearest w h fun j => hw.zeros n j h.symm
  have hwn := hw.nearest n h.symm fun j => hn.zeros w j h
  rw [h] at hwn
  unfold IsNearer at hnw hwn
  omega

/-- Powers of ten are final zeros. -/
theorem toDigits_mul_pow {d : Nat} (hd : 0 < d) (j : Nat) :
    Nat.toDigits 10 (d * 10 ^ j) = Nat.toDigits 10 d ++ List.replicate j '0' := by
  induction j with
  | zero => simp
  | succ j ih =>
    have hmul : d * 10 ^ (j + 1) = d * 10 ^ j * 10 := by rw [Nat.pow_succ, Nat.mul_assoc]
    have hpos : 0 < d * 10 ^ j := Nat.mul_pos hd (Nat.pow_pos (by decide))
    have hzero : (0 : Nat).digitChar = '0' := rfl
    rw [hmul, Nat.toDigits_of_base_le (by decide) (by omega), Nat.mul_div_cancel _ (by decide), ih,
      Nat.mul_mod_left, hzero, List.append_assoc, ← List.replicate_succ']

theorem toDigits_inj {n w : Nat} (h : Nat.toDigits 10 w = Nat.toDigits 10 n) : w = n := by
  rw [← ofDigits_toDigits w, h, ofDigits_toDigits]

/-- Digits in front of zeros, without a point. -/
theorem place_of_whole (d j : Nat) :
    plain.place (Nat.toDigits 10 d) (j + (Nat.toDigits 10 d).length - 1) =
      Nat.toDigits 10 d ++ List.replicate j '0' := by
  have hlength : 0 < (Nat.toDigits 10 d).length := List.length_pos_iff.2 Nat.toDigits_ne_nil
  have hpoint : plain.pointZero = false := rfl
  have hwhole : ((j : Int) + (Nat.toDigits 10 d).length - 1).toNat + 1 =
      (Nat.toDigits 10 d).length + j := by omega
  rw [Layout.place, if_neg (by omega)]
  dsimp only
  rw [hwhole, if_pos (Nat.le_add_right _ _), Nat.add_sub_cancel_left, hpoint]
  exact List.append_nil _

/-- A large whole number is written as the shortest of those with the same double. -/
theorem write_ofNat {n : Nat} (hlow : 54 ≤ n.log2) (hhigh : n.log2 ≤ 1022) :
    ∃ w, plain.write (ofNat n) = Nat.toDigits 10 w ∧ ofNat w = ofNat n ∧ IsShortest w := by
  obtain ⟨m, e, hm, hm', he, hn⟩ := exists_ofNat_eq hlow hhigh
  obtain ⟨d, j, hshortest, hw⟩ := shortest_cases (e := e) hm hm'
  have hnear : ∀ {y}, ofNat y = .finite false m (e + 2 : Nat) ↔ IsNear m e y :=
    ofNat_eq_finite_iff hm hm' he
  have hsame := hnear.2 hw.near
  have hd : 0 < d := Nat.pos_of_mul_pos_right (hw.near.pos (by omega))
  have hvalue : whole (ofNat (d * 10 ^ j)) = 4 * (m * 2 ^ e) := by
    rw [hsame, whole, Int.toNat_natCast, mul_two_pow_add_two]
  refine ⟨d * 10 ^ j, ?_, by rw [hsame, hn], ⟨?_, ?_⟩⟩
  · rw [hn, Layout.write, if_neg (by omega)]
    have hpositional : ∀ x, plain.isPositional x = true := fun _ => rfl
    have htie : plain.tie = .up := rfl
    rw [htie, hshortest]
    dsimp only
    rw [hpositional, if_pos rfl, place_of_whole, toDigits_mul_pow hd]
    rfl
  · intro y i hy
    rw [hsame] at hy
    exact hw.zeros y i (hnear.1 hy)
  · intro y hy
    rw [hsame] at hy
    rw [hvalue]
    exact hw.nearest y (hnear.1 hy)

/-- A large whole number is written exactly if and only if it is the shortest with its double. -/
theorem write_ofNat_eq_iff {n : Nat} (hlow : 54 ≤ n.log2) (hhigh : n.log2 ≤ 1022) :
    plain.write (ofNat n) = Nat.toDigits 10 n ↔ IsShortest n := by
  obtain ⟨w, hwrite, hsame, hw⟩ := write_ofNat hlow hhigh
  rw [hwrite]
  constructor
  · intro h
    rwa [← toDigits_inj h]
  · intro hn
    rw [hn.unique hw hsame]

/-- From `2 ^ 63` on, where doubles are at least 1024 apart, three zeros can always be had. -/
theorem IsShortest.thousand_dvd {n : Nat} (h : IsShortest n) (hlow : 63 ≤ n.log2)
    (hhigh : n.log2 ≤ 1022) : 1000 ∣ n := by
  have hne : n ≠ 0 := by
    rintro rfl
    simp at hlow
  obtain ⟨m, e, hm, hm', he, hn⟩ := exists_ofNat_eq (by omega) hhigh
  have hnear := (ofNat_eq_finite_iff hm hm' he).1 hn
  have hle : n ≤ 4 * (m * 2 ^ e) + 2 * 2 ^ e := hnear.2.1
  have hge : 2 ^ 63 ≤ n := (Nat.le_log2 hne).1 hlow
  obtain ⟨-, hvalue⟩ := value_bounds hm hm' e
  have hstep : 2 ^ 8 < 2 ^ e := by omega
  have hexp : 9 ≤ e := (Nat.pow_lt_pow_iff_right (by decide)).1 hstep
  have hpow : 2 ^ 9 ≤ 2 ^ e := Nat.pow_le_pow_right (by decide) hexp
  obtain ⟨y, hy⟩ := exists_near_of_lt (m := m) (e := e) (j := 3) (by omega) (by omega)
  have hsame : ofNat (y * 10 ^ 3) = ofNat n := by
    rw [hn]
    exact (ofNat_eq_finite_iff hm hm' he).2 hy
  exact h.zeros _ 3 hsame (Nat.dvd_mul_left _ y)

end ResourceApi.Decimal
