import ResourceApi.Decimal.Binary64

/-!
Reading decimals. `Numeral` is what a written number consists of; the digits of a numeral are kept
as characters, so that a numeral is a text and has no magnitude limit. `nearest` is the double
nearest to it. `stepwise` is the reading of a text format that rounds twice: first the digits, of
which it uses as many as fit 64 bits, then the product with a power of ten.
-/

namespace ResourceApi.Decimal

def digitValue (c : Char) : Nat := c.toNat - '0'.toNat

def ofDigits : Nat → List Char → Nat
  | acc, [] => acc
  | acc, c :: ds => ofDigits (10 * acc + digitValue c) ds

structure Numeral where
  negative : Bool
  whole : List Char
  fraction : List Char
  exponent : Int
  deriving DecidableEq, Repr

namespace Numeral

def nearest (x : Numeral) : Binary64 :=
  .ofScientific x.negative (ofDigits 0 (x.whole ++ x.fraction)) (x.exponent - x.fraction.length)

/-- Adds digits to a number as long as it stays below `2 ^ 64`, and counts the digits added. -/
def absorb : Nat → List Char → Nat × Nat
  | acc, [] => (acc, 0)
  | acc, c :: ds =>
    if 10 * acc + digitValue c < 0x10000000000000000 then
      let r := absorb (10 * acc + digitValue c) ds
      (r.1, r.2 + 1)
    else (acc, 0)

/-- Multiplies by a power of ten; `none` if the product is beyond all doubles. -/
def raise (x : Binary64) (e : Nat) : Option Binary64 :=
  if 308 < e then (if x.isZero then some x else none)
  else
    let y := x.mul (.ofNat (Nat.pow 10 e))
    if y.isFinite then some y else none

/-- Divides by a power of ten, in steps of at most `10 ^ 308`. -/
def lower (x : Binary64) (e : Nat) : Binary64 :=
  if e ≤ 308 then x.div (.ofNat (Nat.pow 10 e))
  else if x.isZero then x
  else lower (x.div (.ofNat (Nat.pow 10 308))) (e - 308)
  termination_by e

def stepwise (x : Numeral) : Option Binary64 :=
  let whole := absorb 0 x.whole
  let all := absorb whole.1 x.fraction
  let e : Int := x.exponent + (x.whole.length - whole.2 : Nat) - (all.2 : Nat)
  let size := Binary64.ofNat all.1
  let scaled := if 0 ≤ e then raise size e.toNat else some (lower size e.natAbs)
  scaled.map fun y => if x.negative then y.neg else y

end Numeral

def spanDigits (s : List Char) : List Char × List Char :=
  (s.takeWhile Char.isDigit, s.dropWhile Char.isDigit)

def readExponent : List Char → Option (Int × List Char)
  | c :: rest =>
    if c = 'e' ∨ c = 'E' then
      let (negative, body) := match rest with
        | '+' :: r => (false, r)
        | '-' :: r => (true, r)
        | r => (false, r)
      match spanDigits body with
      | ([], _) => none
      | (ds, r) => some (if negative then -(ofDigits 0 ds : Int) else ofDigits 0 ds, r)
    else some (0, c :: rest)
  | [] => some (0, [])

def readSign : List Char → Bool × List Char
  | '+' :: rest => (false, rest)
  | '-' :: rest => (true, rest)
  | rest => (false, rest)

/-- A numeral with at least one digit beside the point, and nothing after it. -/
def Numeral.ofText? (s : List Char) : Option Numeral := do
  let (negative, body) := readSign s
  let (whole, rest) := spanDigits body
  let (fraction, rest) := match rest with
    | '.' :: r => spanDigits r
    | r => ([], r)
  if whole.isEmpty && fraction.isEmpty then none
  else
    let (e, rest) ← readExponent rest
    if rest.isEmpty then some ⟨negative, whole, fraction, e⟩ else none

/-- A double by its usual text: a numeral, `inf`, `infinity` or `nan`, in any letter case. -/
def Binary64.ofText? (s : String) : Option Binary64 :=
  let (negative, body) := readSign s.toList
  match String.ofList (body.map Char.toLower) with
  | "inf" | "infinity" => some (.infinite negative)
  | "nan" => some .nan
  | _ => (Numeral.ofText? s.toList).map Numeral.nearest

end ResourceApi.Decimal
