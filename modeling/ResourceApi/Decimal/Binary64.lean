/-!
Doubles as numbers. A finite double is a sign and `mantissa * 2 ^ exponent`; sums of bits do not
occur. Every operation takes the exact rational result and rounds it once, to the nearest double
and on a tie to the even mantissa. No host arithmetic takes part, so every value here can be
computed by the kernel.
-/

namespace ResourceApi.Decimal

/-- In a finite double the mantissa is below `2 ^ 53`, the exponent at least `-1074`, and the
mantissa at least `2 ^ 52` unless the exponent is the least one. -/
inductive Binary64 where
  | finite (negative : Bool) (mantissa : Nat) (exponent : Int)
  | infinite (negative : Bool)
  | nan
  deriving DecidableEq, Repr

/-- The nearest whole number, on a tie the even one. -/
def roundHalfEven (num den : Nat) : Nat :=
  let q := num / den
  let r := num % den
  if 2 * r < den then q
  else if den < 2 * r then q + 1
  else if q % 2 = 0 then q else q + 1

/-- The ratio `num / den` divided by `base ^ e`, as a ratio of whole numbers. -/
def scaleDown (base : Nat) (e : Int) (num den : Nat) : Nat × Nat :=
  if 0 ≤ e then (num, den * base.pow e.toNat) else (num * base.pow (-e).toNat, den)

/-- The exponent of the greatest power of two that is not above a positive ratio. -/
def log2Ratio (num den : Nat) : Int :=
  let e : Int := (num.log2 : Int) - (den.log2 : Int)
  let r := scaleDown 2 e num den
  if r.2 ≤ r.1 then e else e - 1

def digitCount (n : Nat) : Nat := (Nat.toDigits 10 n).length

/-- The exponent of the greatest power of ten that is not above a positive ratio. -/
def log10Ratio (num den : Nat) : Int :=
  let e : Int := (digitCount num : Int) - (digitCount den : Int)
  let r := scaleDown 10 e num den
  if r.2 ≤ r.1 then e else e - 1

namespace Binary64

def zero (negative : Bool) : Binary64 := .finite negative 0 (-1074)

/-- The double nearest to a ratio; infinite from half a step above the greatest one on. -/
def ofRatio (negative : Bool) (num den : Nat) : Binary64 :=
  if num = 0 then zero negative
  else
    let q := max (-1074) (log2Ratio num den - 52)
    let r := scaleDown 2 q num den
    let m := roundHalfEven r.1 r.2
    let carried : Nat × Int := if m = 0x20000000000000 then (0x10000000000000, q + 1) else (m, q)
    if carried.2 > 971 then .infinite negative else .finite negative carried.1 carried.2

def ofNat (n : Nat) : Binary64 := ofRatio false n 1

def ofInt (n : Int) : Binary64 := ofRatio (decide (n < 0)) n.natAbs 1

/-- The double nearest to `digits * 10 ^ e`. Powers far outside the range are not computed. -/
def ofScientific (negative : Bool) (digits : Nat) (e : Int) : Binary64 :=
  if digits = 0 then zero negative
  else if 400 < e + digitCount digits then .infinite negative
  else if e + digitCount digits < -400 then zero negative
  else
    let r := scaleDown 10 (-e) digits 1
    ofRatio negative r.1 r.2

def isFinite : Binary64 → Bool
  | .finite .. => true
  | _ => false

def isZero : Binary64 → Bool
  | .finite _ m _ => m == 0
  | _ => false

def neg : Binary64 → Binary64
  | .finite s m q => .finite (!s) m q
  | .infinite s => .infinite (!s)
  | .nan => .nan

def mul : Binary64 → Binary64 → Binary64
  | .finite s m q, .finite t n r =>
    let v := scaleDown 2 (-(q + r)) (m * n) 1
    ofRatio (s != t) v.1 v.2
  | .nan, _ | _, .nan => .nan
  | .infinite s, .finite t m _ | .finite s m _, .infinite t =>
    if m = 0 then .nan else .infinite (s != t)
  | .infinite s, .infinite t => .infinite (s != t)

def div : Binary64 → Binary64 → Binary64
  | .finite s m q, .finite t n r =>
    if n = 0 then (if m = 0 then .nan else .infinite (s != t))
    else
      let v := scaleDown 2 (r - q) m n
      ofRatio (s != t) v.1 v.2
  | .nan, _ | _, .nan => .nan
  | .infinite s, .finite t _ _ => .infinite (s != t)
  | .finite s _ _, .infinite t => zero (s != t)
  | .infinite _, .infinite _ => .nan

end Binary64

end ResourceApi.Decimal
