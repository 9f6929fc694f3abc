/-!
Runs of code points: the form in which this library writes down character properties. A run lists
`first`, `first + step`, … up to `last`; alternating scripts, where every second letter is a
capital, are one run of step two.
-/

namespace ResourceApi.Text

structure Run where
  first : Nat
  last : Nat
  step : Nat
  deriving DecidableEq, Repr

namespace Run

def covers (r : Run) (n : Nat) : Bool :=
  decide (r.first ≤ n) && decide (n ≤ r.last) && decide ((n - r.first) % r.step = 0)

theorem covers_iff {r : Run} {n : Nat} :
    r.covers n = true ↔ r.first ≤ n ∧ n ≤ r.last ∧ (n - r.first) % r.step = 0 := by
  simp [covers, and_assoc]

end Run

def inRuns (runs : List Run) (c : Char) : Bool := runs.any (·.covers c.toNat)

theorem inRuns_iff {runs : List Run} {c : Char} :
    inRuns runs c = true ↔ ∃ r ∈ runs, r.covers c.toNat = true := by
  simp [inRuns]

/-- A run whose characters are sent, in order and at the same distances, to those from `target`
on. -/
structure Shift extends Run where
  target : Nat
  deriving DecidableEq, Repr

def Shift.image (s : Shift) (n : Nat) : Nat := s.target + (n - s.first)

end ResourceApi.Text
