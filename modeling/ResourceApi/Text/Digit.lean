/-!
Digits in bases up to sixteen: their values, in letters of either case, and the numbers that they
spell. The two ways to write a digit are read back alike.
-/

namespace ResourceApi.Text.Digit

def value? (c : Char) : Option Nat :=
  if c.isDigit then some (c.toNat - '0'.toNat)
  else if 'A' ≤ c ∧ c ≤ 'F' then some (c.toNat - 'A'.toNat + 10)
  else if 'a' ≤ c ∧ c ≤ 'f' then some (c.toNat - 'a'.toNat + 10)
  else none

/-- A digit below sixteen, as a capital above nine. -/
def capital (n : Nat) : Char :=
  if n < 10 then Char.ofNat ('0'.toNat + n) else Char.ofNat ('A'.toNat + (n - 10))

/-- A digit below sixteen, as a small letter above nine. -/
def small (n : Nat) : Char :=
  if n < 10 then Char.ofNat ('0'.toNat + n) else Char.ofNat ('a'.toNat + (n - 10))

theorem value?_capital {n : Nat} (h : n < 16) : value? (capital n) = some n := by
  have all : ∀ m : Fin 16, value? (capital m) = some m.val := by decide
  exact all ⟨n, h⟩

theorem value?_small {n : Nat} (h : n < 16) : value? (small n) = some n := by
  have all : ∀ m : Fin 16, value? (small m) = some m.val := by decide
  exact all ⟨n, h⟩

/-- The number that digits in a base spell, the first of them counting most; of no digits it is
zero, and what is no digit of the base spells nothing. -/
def number? (base : Nat) (s : List Char) : Option Nat :=
  s.foldlM (fun n c => match value? c with
    | some d => if d < base then some (base * n + d) else none
    | none => none) 0

@[simp] theorem number?_nil (base : Nat) : number? base [] = some 0 := rfl

end ResourceApi.Text.Digit
