import ResourceApi.Decimal.Shortest

/-!
How a double is written. The digits are the fewest that read back; a `Layout` holds the decisions
of a format about them: which magnitudes are positional, whether a whole number keeps `.0`, and
which of two equally near decimals is taken.
-/

namespace ResourceApi.Decimal

structure Layout where
  /-- Bounds of the exponent of the first digit between which no power of ten is written. -/
  positional : Option (Int × Int)
  /-- Whether a whole number in positional form ends in `.0`. -/
  pointZero : Bool
  tie : Tie
  deriving DecidableEq, Repr

namespace Layout

def isPositional (l : Layout) (e : Int) : Bool :=
  match l.positional with
  | none => true
  | some (low, high) => decide (low ≤ e) && decide (e < high)

/-- Digits with the point where it belongs; `e` is the exponent of the first digit. -/
def place (l : Layout) (ds : List Char) (e : Int) : List Char :=
  if e < 0 then ['0', '.'] ++ List.replicate (-e - 1).toNat '0' ++ ds
  else
    let whole := e.toNat + 1
    if ds.length ≤ whole then
      ds ++ List.replicate (whole - ds.length) '0' ++ (if l.pointZero then ['.', '0'] else [])
    else ds.take whole ++ '.' :: ds.drop whole

/-- One digit before the point, then a signed power of ten. -/
def power (ds : List Char) (e : Int) : List Char :=
  let fraction := match ds.drop 1 with
    | [] => []
    | rest => '.' :: rest
  ds.take 1 ++ fraction ++ 'e' :: (if e < 0 then '-' else '+') :: Nat.toDigits 10 e.natAbs

def write (l : Layout) : Binary64 → List Char
  | .nan => ['n', 'a', 'n']
  | .infinite s => (if s then ['-'] else []) ++ ['i', 'n', 'f']
  | .finite s m q =>
    let sign := if s then ['-'] else []
    if m = 0 then sign ++ (if l.pointZero then ['0', '.', '0'] else ['0'])
    else
      let x := shortest l.tie m q
      let ds := Nat.toDigits 10 x.digits
      let e := x.exponent + ds.length - 1
      sign ++ (if l.isPositional e then l.place ds e else power ds e)

end Layout

/-- Always positional, whole numbers without a point, a half away from zero. -/
def plain : Layout := ⟨none, false, .up⟩

end ResourceApi.Decimal
