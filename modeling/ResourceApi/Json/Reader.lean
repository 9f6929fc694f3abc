import ResourceApi.Json.Source

/-!
From JSON text to values. A string has paired surrogates only, a number is in range, and at most
127 containers are nested. `ofText?` merges repeated keys; `ofTextRaw?` keeps them, for readers to
which a key given twice is a mistake.
-/

namespace ResourceApi.Json

def isHighSurrogate (n : Nat) : Bool := 0xD800 ≤ n && n < 0xDC00
def isLowSurrogate (n : Nat) : Bool := 0xDC00 ≤ n && n < 0xE000

/-- The characters of a string literal; a surrogate outside a pair is refused. -/
def Piece.chars? : List Piece → Option (List Char)
  | [] => some []
  | .char c :: rest => (chars? rest).map (c :: ·)
  | .unit high :: .unit low :: rest =>
    if isHighSurrogate high then
      if isLowSurrogate low then
        (chars? rest).map (Char.ofNat (0x10000 + (high - 0xD800) * 1024 + (low - 0xDC00)) :: ·)
      else none
    else if isLowSurrogate high then none
    else (chars? (.unit low :: rest)).map (Char.ofNat high :: ·)
  | .unit n :: rest =>
    if isHighSurrogate n || isLowSurrogate n then none
    else (chars? rest).map (Char.ofNat n :: ·)

def Piece.string? (ps : List Piece) : Option String := (Piece.chars? ps).map String.ofList

/-- A number written without fraction and exponent is whole if a 64-bit word holds it; a negative
zero is a double. -/
def NumberText.json? (x : NumberText) : Option Json :=
  let n : Nat := Decimal.ofDigits 0 x.numeral.whole
  if x.integral ∧ ¬x.numeral.negative ∧ n < 0x10000000000000000 then some (.int n)
  else if x.integral ∧ x.numeral.negative ∧ n ≠ 0 ∧ n ≤ 0x8000000000000000 then some (.int (-n))
  else x.numeral.stepwise.map .double

namespace Source

mutual

/-- The value, with repeated keys; `depth` containers may be opened. -/
def json? (depth : Nat) : Source → Option Json
  | .null => some .null
  | .bool b => some (.bool b)
  | .number x => x.json?
  | .string ps => (Piece.string? ps).map .string
  | .array vs => if depth = 0 then none else (jsonItems? (depth - 1) vs).map .array
  | .object ms => if depth = 0 then none else (jsonMembers? (depth - 1) ms).map .object

def jsonItems? (depth : Nat) : List Source → Option (List Json)
  | [] => some []
  | v :: rest => do
    let v ← json? depth v
    let vs ← jsonItems? depth rest
    some (v :: vs)

def jsonMembers? (depth : Nat) : List (List Piece × Source) → Option (List (String × Json))
  | [] => some []
  | (k, v) :: rest => do
    let k ← Piece.string? k
    let v ← json? depth v
    let ms ← jsonMembers? depth rest
    some ((k, v) :: ms)

end

/-- Leaves out the members of an object that nobody reads. -/
def restrict (known : List String) : Source → Source
  | .object ms => .object (ms.filter fun m => match Piece.string? m.1 with
    | some k => known.contains k
    | none => true)
  | v => v

end Source

def maxDepth : Nat := 127

def ofTextRaw? (s : String) : Option Json := (Source.ofChars? s.toList).bind (Source.json? maxDepth)

/-- The value of a text, its objects being maps. -/
def ofChars? (s : List Char) : Option Json :=
  ((Source.ofChars? s).bind (Source.json? maxDepth)).map merged

def ofText? (s : String) : Option Json := ofChars? s.toList

/-- A text of which only the named members of the outermost object are read. -/
def ofTextRestricted? (known : List String) (s : String) : Option Json :=
  (Source.ofChars? s.toList).bind fun v => Source.json? maxDepth (v.restrict known)

end ResourceApi.Json
