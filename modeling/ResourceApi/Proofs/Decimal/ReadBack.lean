import Mathlib.Tactic.FieldSimp
import ResourceApi.Decimal.Shortest
import ResourceApi.Proofs.Decimal.Ratio

/-!
The decimal that a double is written as is read as this double again. Every grid is searched for a
decimal in the stretch of numbers nearest to the double, and on a grid that is finer than half a
step there is one, which seventeen digits below the first one is the case.
-/

namespace ResourceApi.Decimal

variable {m : Nat} {q : Int}

def Scientific.value (x : Scientific) : ℚ := x.digits * 10 ^ x.exponent

theorem ten_zpow_pos (k : Int) : (0 : ℚ) < 10 ^ k := zpow_pos (by norm_num) k

/-! ### One grid -/

/-- A unit of the grid of multiples of `10 ^ k`, in quarters of a step. -/
def gridUnit (q k : Int) : Nat × Nat :=
  scaleDown 2 (2 - q) (scaleDown 10 k 1 1).1 (scaleDown 10 k 1 1).2

theorem gridUnit_pos (q k : Int) : 0 < (gridUnit q k).2 :=
  scaleDown_den_pos two_pos (scaleDown_den_pos (by decide) one_pos k 1) _ _

/-- A quarter of a step, measured in units of the grid. -/
theorem gridUnit_div (q k : Int) :
    ((gridUnit q k).1 : ℚ) / (gridUnit q k).2 = 2 ^ q / 4 / 10 ^ k := by
  have hgrid := scaleDown_den_pos (by decide : 0 < 10) one_pos k 1
  have hpow := scaleDown_div (by decide : 0 < 10) one_pos k 1
  rw [gridUnit, scaleDown_div two_pos hgrid, hpow, Nat.cast_one, Nat.cast_ofNat, Nat.cast_ofNat,
    div_one, zpow_sub₀ two_ne_zero]
  have h := (ten_zpow_pos k).ne'
  have h' := (two_zpow_pos q).ne'
  field_simp
  norm_num

theorem quarters_eq (q k : Int) (x : Nat) :
    ((x * (gridUnit q k).1 : Nat) : ℚ) = x / 4 * 2 ^ q / 10 ^ k * (gridUnit q k).2 := by
  have hpos : (0 : ℚ) < (gridUnit q k).2 := Nat.cast_pos.2 (gridUnit_pos q k)
  have hunit := gridUnit_div q k
  rw [div_eq_iff hpos.ne'] at hunit
  rw [Nat.cast_mul, hunit]
  ring

/-- Quarters of a step are compared with points of the grid. -/
theorem quarters_le_iff (q k : Int) (x c : Nat) :
    x * (gridUnit q k).1 ≤ c * (gridUnit q k).2 ↔ (x : ℚ) / 4 * 2 ^ q ≤ c * 10 ^ k := by
  have hpos : (0 : ℚ) < (gridUnit q k).2 := Nat.cast_pos.2 (gridUnit_pos q k)
  rw [← Nat.cast_le (α := ℚ), quarters_eq, Nat.cast_mul, mul_le_mul_iff_left₀ hpos,
    div_le_iff₀ (ten_zpow_pos k)]

/-- Comparing products of whole numbers compares quarters with points of the grid. -/
theorem quarters_lt_iff (q k : Int) (x c : Nat) :
    x * (gridUnit q k).1 < c * (gridUnit q k).2 ↔ (x : ℚ) / 4 * 2 ^ q < c * 10 ^ k := by
  have hpos : (0 : ℚ) < (gridUnit q k).2 := Nat.cast_pos.2 (gridUnit_pos q k)
  rw [← Nat.cast_lt (α := ℚ), quarters_eq, Nat.cast_mul, mul_lt_mul_iff_left₀ hpos,
    div_lt_iff₀ (ten_zpow_pos k)]

/-- Quarters of a step up to the lower end of the stretch around a double. -/
def lowQuarters (m : Nat) (q : Int) : Nat :=
  if m = 2 ^ 52 ∧ -1074 < q then 4 * m - 1 else 4 * m - 2

/-- The lower end is half a step below the double, with the narrower step at a power of two. -/
theorem lowQuarters_div (hm : 0 < m) (q : Int) :
    (lowQuarters m q : ℚ) / 4 * 2 ^ q = dyadic m q - stepBelow m q / 2 := by
  rw [lowQuarters, stepBelow, dyadic]
  split
  · rw [Nat.cast_sub (by omega)]
    push_cast
    ring
  · rw [Nat.cast_sub (by omega)]
    push_cast
    ring

/-- The upper end is half a step above the double. -/
theorem highQuarters_div (m : Nat) (q : Int) :
    ((4 * m + 2 : Nat) : ℚ) / 4 * 2 ^ q = dyadic m q + 2 ^ q / 2 := by
  rw [dyadic]
  push_cast
  ring

def isInside (m : Nat) (q k : Int) (c : Nat) : Bool :=
  let unit := gridUnit q k
  if m % 2 = 0 then
    lowQuarters m q * unit.1 ≤ c * unit.2 ∧ c * unit.2 ≤ (4 * m + 2) * unit.1
  else lowQuarters m q * unit.1 < c * unit.2 ∧ c * unit.2 < (4 * m + 2) * unit.1

/-- The test on whole numbers says that the point rounds to the double. -/
theorem isInside_iff (hm : 0 < m) (q k : Int) (c : Nat) :
    isInside m q k c = true ↔ IsAround (c * 10 ^ k) m q := by
  have hle : c * (gridUnit q k).2 ≤ (4 * m + 2) * (gridUnit q k).1 ↔
      (c : ℚ) * 10 ^ k ≤ dyadic m q + 2 ^ q / 2 := by
    rw [← not_lt, quarters_lt_iff, highQuarters_div, not_lt]
  have hlt : c * (gridUnit q k).2 < (4 * m + 2) * (gridUnit q k).1 ↔
      (c : ℚ) * 10 ^ k < dyadic m q + 2 ^ q / 2 := by
    rw [← not_le, quarters_le_iff, highQuarters_div, not_le]
  rw [isInside]
  split
  · rename_i heven
    rw [decide_eq_true_iff, quarters_le_iff, lowQuarters_div hm, hle]
    exact ⟨fun h => ⟨h.1, h.2, fun hodd => by omega⟩, fun h => ⟨h.low, h.high⟩⟩
  · rename_i hodd
    rw [decide_eq_true_iff, quarters_lt_iff, lowQuarters_div hm, hlt]
    exact ⟨fun h => ⟨h.1.le, h.2.le, fun _ => h⟩, fun h => h.odd (by omega)⟩

/-- The next point of a grid above a double. -/
def nextAbove (m : Nat) (q k : Int) : Nat := 4 * m * (gridUnit q k).1 / (gridUnit q k).2 + 1

/-- A grid has two points next to a double, of which those around it can be chosen. -/
theorem onGrid_choice (tie : Tie) (m : Nat) (q k : Int) :
    onGrid tie m q k =
      let below := 4 * m * (gridUnit q k).1 / (gridUnit q k).2
      let takeBelow : Prop := 4 * m * (gridUnit q k).1 - below * (gridUnit q k).2 <
          (below + 1) * (gridUnit q k).2 - 4 * m * (gridUnit q k).1 ∨
        (4 * m * (gridUnit q k).1 - below * (gridUnit q k).2 =
          (below + 1) * (gridUnit q k).2 - 4 * m * (gridUnit q k).1 ∧ tie = .even ∧ below % 2 = 0)
      match isInside m q k below, isInside m q k (nextAbove m q k) with
      | true, true => some (if takeBelow then below else below + 1)
      | true, false => some below
      | false, true => some (below + 1)
      | false, false => none := rfl

/-- A point that is found lies around the double, and where none is found the next one above does
not. -/
theorem onGrid_spec (tie : Tie) (hm : 0 < m) (q k : Int) :
    (∀ c, onGrid tie m q k = some c → IsAround (c * 10 ^ k) m q) ∧
      (onGrid tie m q k = none → ¬IsAround (nextAbove m q k * 10 ^ k) m q) := by
  simp only [← isInside_iff hm]
  rw [onGrid_choice]
  dsimp only
  cases hbelow : isInside m q k (4 * m * (gridUnit q k).1 / (gridUnit q k).2) <;>
    cases habove : isInside m q k (nextAbove m q k) <;>
    simp only [Option.some.injEq, reduceCtorEq, forall_eq', false_implies, implies_true,
      and_true, Bool.false_eq_true, not_false_eq_true]
  · exact habove
  · exact hbelow
  · split
    · exact hbelow
    · exact habove

/-- A grid finer than half a step has a point around the double. -/
theorem isAround_nextAbove {k : Int} (hk : (10 : ℚ) ^ k < 2 ^ q / 2) :
    IsAround (nextAbove m q k * 10 ^ k) m q := by
  have hpos := two_zpow_pos q
  have hbelow := stepBelow_pos m q
  have hvalue : ((4 * m : Nat) : ℚ) / 4 * 2 ^ q = dyadic m q := by
    rw [dyadic]
    push_cast
    ring
  have hunit := gridUnit_pos q k
  have hlow : dyadic m q < nextAbove m q k * 10 ^ k := by
    rw [← hvalue, ← quarters_lt_iff, nextAbove, Nat.mul_comm _ (gridUnit q k).2]
    exact Nat.lt_mul_div_succ _ hunit
  have hhigh : (nextAbove m q k : ℚ) * 10 ^ k ≤ dyadic m q + 10 ^ k := by
    have hle : ((4 * m * (gridUnit q k).1 / (gridUnit q k).2 : Nat) : ℚ) * 10 ^ k ≤ dyadic m q := by
      rw [← hvalue, ← not_lt, ← quarters_lt_iff, not_lt]
      exact Nat.div_mul_le_self _ _
    rw [nextAbove, Nat.cast_add, Nat.cast_one, add_mul, one_mul]
    exact add_le_add_left hle _
  exact ⟨by linarith, by linarith, fun _ => ⟨by linarith, by linarith⟩⟩

/-! ### Ever finer grids -/

/-- If one of the grids is fine enough, a point is found. -/
theorem firstOnGrid_spec (tie : Tie) (hm : 0 < m) {n : Nat} {k : Int}
    (hfine : ∃ i < n, (10 : ℚ) ^ (k - (i : Int)) < 2 ^ q / 2) :
    IsAround (firstOnGrid tie m q n k).value m q := by
  induction n generalizing k with
  | zero =>
    obtain ⟨i, hi, -⟩ := hfine
    omega
  | succ n ih =>
    obtain ⟨hsome, hnone⟩ := onGrid_spec tie hm q k
    rw [firstOnGrid]
    cases h : onGrid tie m q k with
    | some c => exact hsome c h
    | none =>
      obtain ⟨i, hi, hfine⟩ := hfine
      cases i with
      | zero =>
        rw [Nat.cast_zero, Int.sub_zero] at hfine
        exact absurd (isAround_nextAbove hfine) (hnone h)
      | succ i =>
        have hexp : k - ((i + 1 : Nat) : Int) = k - 1 - (i : Int) := by omega
        exact ih ⟨i, by omega, hexp ▸ hfine⟩

/-- Final zeros go into the exponent without a change of the value. -/
theorem value_trimmed (n : Nat) (x : Scientific) : (x.trimmed n).value = x.value := by
  induction n generalizing x with
  | zero => rfl
  | succ n ih =>
    rw [Scientific.trimmed]
    split
    · rename_i h
      have hdigits : ((x.digits / 10 * 10 : Nat) : ℚ) = x.digits := by
        rw [Nat.div_mul_cancel (Nat.dvd_of_mod_eq_zero h.2)]
      rw [ih, Scientific.value, Scientific.value, ← hdigits, zpow_add₀ (by norm_num), zpow_one]
      push_cast
      ring
    · rfl

/-- A double is written as a decimal that it is nearest to. -/
theorem isNearest_shortest (tie : Tie) (hm : 0 < m) (h : IsDouble m q) :
    IsNearest (shortest tie m q).value m q := by
  have hscale := scaleDown_div two_pos one_pos (-q) m
  have hnum : 0 < (scaleDown 2 (-q) m 1).1 := by
    rw [scaleDown]
    split
    · exact hm
    · exact Nat.mul_pos hm (Nat.pow_pos two_pos)
  have hlog := (log10Ratio_spec hnum (scaleDown_den_pos two_pos one_pos (-q) m)).1
  have hvalue : ((scaleDown 2 (-q) m 1).1 : ℚ) / (scaleDown 2 (-q) m 1).2 = dyadic m q := by
    rw [hscale, dyadic, zpow_neg, Nat.cast_one, div_one, div_inv_eq_mul]
    rfl
  rw [hvalue] at hlog
  rw [shortest, value_trimmed]
  refine (firstOnGrid_spec tie hm ⟨17, by decide, ?_⟩).isNearest h
  generalize log10Ratio _ _ = k at hlog ⊢
  have hpos := two_zpow_pos q
  have hm' : (m : ℚ) < 2 ^ 53 := by exact_mod_cast h.mantissa
  have hlt : dyadic m q < 2 ^ 53 * 2 ^ q := mul_lt_mul_of_pos_right hm' hpos
  rw [zpow_sub₀ (by norm_num), zpow_natCast, div_lt_iff₀ (by norm_num)]
  linarith

end ResourceApi.Decimal
