import ResourceApi.Decimal.Binary64

/-!
The fewest decimal digits that read back. A decimal reads back when it lies in the interval of
numbers that round to the double; the ends belong to the interval exactly when the mantissa is
even. On a decimal grid only the two neighbours of the double can be nearest, so it is enough to
try them on ever finer grids, in exact arithmetic. How a double half way between its two
neighbours is written is a decision of the format.
-/

namespace ResourceApi.Decimal

/-- A positive decimal `digits * 10 ^ exponent`. -/
structure Scientific where
  digits : Nat
  exponent : Int
  deriving DecidableEq, Repr

inductive Tie where
  | even
  | up
  deriving DecidableEq, Repr

/-- The same decimal without final zeros. -/
def Scientific.trimmed : Nat → Scientific → Scientific
  | 0, x => x
  | n + 1, x =>
    if x.digits ≠ 0 ∧ x.digits % 10 = 0 then trimmed n ⟨x.digits / 10, x.exponent + 1⟩ else x

/-- The nearest point of the grid of multiples of `10 ^ k` that rounds to the positive double
`m * 2 ^ q`, if there is one. -/
def onGrid (tie : Tie) (m : Nat) (q k : Int) : Option Nat :=
  -- Quarters of a unit in the last place: the lower gap is half as wide at a power of two.
  let value := 4 * m
  let low := if m = 0x10000000000000 ∧ -1074 < q then value - 1 else value - 2
  let high := value + 2
  let unit := scaleDown 10 k 1 1
  let unit := scaleDown 2 (2 - q) unit.1 unit.2
  let below := value * unit.1 / unit.2
  let above := below + 1
  let inside (c : Nat) : Bool :=
    if m % 2 = 0 then low * unit.1 ≤ c * unit.2 ∧ c * unit.2 ≤ high * unit.1
    else low * unit.1 < c * unit.2 ∧ c * unit.2 < high * unit.1
  let down := value * unit.1 - below * unit.2
  let up := above * unit.2 - value * unit.1
  let takeBelow := down < up ∨ (down = up ∧ tie = .even ∧ below % 2 = 0)
  match inside below, inside above with
  | true, true => some (if takeBelow then below else above)
  | true, false => some below
  | false, true => some above
  | false, false => none

/-- Tries so many ever finer grids. -/
def firstOnGrid (tie : Tie) (m : Nat) (q : Int) : Nat → Int → Scientific
  | 0, _ => ⟨m, 0⟩
  | n + 1, k => match onGrid tie m q k with
    | some c => ⟨c, k⟩
    | none => firstOnGrid tie m q n (k - 1)

/-- Seventeen digits always suffice. -/
def shortest (tie : Tie) (m : Nat) (q : Int) : Scientific :=
  let v := scaleDown 2 (-q) m 1
  (firstOnGrid tie m q 18 (log10Ratio v.1 v.2)).trimmed 20

end ResourceApi.Decimal
