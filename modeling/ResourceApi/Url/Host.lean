import ResourceApi.Text.Blank
import ResourceApi.Url.Escape

/-!
Hosts: names, addresses of four bytes, addresses of eight 16-bit pieces in brackets, and, outside
the schemes of the web, arbitrary text. A name that ends in a number has to be an address. Names
are folded to small letters; letters beyond ASCII stay as they are, except for the wide forms of
ASCII characters, which are folded, and for the marks that do not count in a name.
-/

namespace ResourceApi.Url

inductive Host where
  | name (text : List Char)
  | ipv4 (address : Nat)
  | ipv6 (pieces : List Nat)
  /-- A host of which nothing is known but its text. -/
  | other (text : List Char)
  deriving DecidableEq, Repr

namespace Host

def isForbidden (c : Char) : Bool :=
  ['\x00', '\t', '\n', '\r', ' ', '#', '/', ':', '<', '>', '?', '@', '[', '\\', ']', '^',
    '|'].contains c

def isForbiddenInName (c : Char) : Bool :=
  isForbidden c || c.toNat < 0x20 || c = '%' || c.toNat = 0x7F || Text.isBlank c
    || c.toNat = 0xFFFD

/-- One part of an address: hexadecimal, octal or decimal. -/
def ipv4Part? : List Char → Option Nat
  | [] => none
  | '0' :: 'x' :: ds | '0' :: 'X' :: ds => Text.Digit.number? 16 ds
  | '0' :: ds => Text.Digit.number? 8 ds
  | ds => Text.Digit.number? 10 ds

/-- The parts of a name between its dots, without an empty last one. -/
def labels (s : List Char) : List (List Char) :=
  let parts := s.splitOn '.'
  if 1 < parts.length && parts.getLast? = some [] then parts.dropLast else parts

def endsInNumber (s : List Char) : Bool :=
  match (labels s).getLast? with
  | none | some [] => false
  | some last => last.all Char.isDigit || (ipv4Part? last).isSome

/-- Up to four parts; all but the last are bytes, and the last one fills the bytes that remain. -/
def ipv4? (s : List Char) : Option Nat := do
  let parts ← (labels s).mapM ipv4Part?
  let last ← parts.getLast?
  let bytes := parts.dropLast
  let room := Nat.pow 256 (4 - bytes.length)
  if 3 < bytes.length || bytes.any (255 < ·) || room ≤ last then none
  else some (bytes.foldl (fun n b => 256 * n + b) 0 * room + last)

def splitDouble : List Char → Option (List Char × List Char)
  | ':' :: ':' :: rest => some ([], rest)
  | c :: rest => (splitDouble rest).map fun (s, t) => (c :: s, t)
  | [] => none

def piece? (s : List Char) : Option Nat :=
  if s.isEmpty || 4 < s.length then none else Text.Digit.number? 16 s

def decimalByte? (s : List Char) : Option Nat :=
  match s with
  | [] => none
  | ['0'] => some 0
  | '0' :: _ => none
  | _ => (Text.Digit.number? 10 s).filter (· ≤ 255)

/-- Four decimal bytes as two pieces. -/
def dotted? (s : List Char) : Option (List Nat) := do
  let bytes ← (s.splitOn '.').mapM decimalByte?
  match bytes with
  | [a, b, c, d] => some [256 * a + b, 256 * c + d]
  | _ => none

/-- Pieces between colons; the last of them may be four decimal bytes where that is allowed. -/
def pieces? (dotsAllowed : Bool) (s : List Char) : Option (List Nat) := do
  if s.isEmpty then return []
  let parts := s.splitOn ':'
  let last ← parts.getLast?
  let front ← parts.dropLast.mapM piece?
  let back ← if dotsAllowed && last.contains '.' then dotted? last else (piece? last).map ([·])
  return front ++ back

/-- Eight pieces, of which a double colon stands for one or more that are zero. -/
def ipv6? (s : List Char) : Option (List Nat) := do
  match splitDouble s with
  | none =>
    let ps ← pieces? true s
    if ps.length = 8 then some ps else none
  | some (front, back) =>
    let ps ← pieces? false front
    let qs ← pieces? true back
    if ps.length + qs.length ≤ 7 then
      some (ps ++ List.replicate (8 - ps.length - qs.length) 0 ++ qs)
    else none

/-- What a character of a name counts as; the soft hyphen, joiners and marks without width count
as nothing. -/
def foldChar (c : Char) : List Char :=
  let n := c.toNat
  if n = 0xAD || n = 0x200B || n = 0x2060 || n = 0xFEFF || (0xFE00 ≤ n && n ≤ 0xFE0F) then []
  else if n = 0x3002 || n = 0xFF61 then ['.']
  else if 0xFF01 ≤ n && n ≤ 0xFF5E then [(Char.ofNat (n - 0xFEE0)).toLower]
  else [c.toLower]

/-- A name, after escapes in it are resolved, or the address that it is. -/
def ofName? (s : List Char) : Option Host := do
  let decoded ← Text.Percent.decode s
  let name := decoded.flatMap foldChar
  if name.isEmpty || name.any isForbiddenInName then none
  else if endsInNumber name then (ipv4? name).map .ipv4
  else some (.name name)

/-- Text in brackets is an address of eight pieces in every scheme; other text is a name in the
schemes of the web and free text elsewhere. -/
def ofText? (web : Bool) (s : List Char) : Option Host :=
  match s with
  | '[' :: rest =>
    if rest.getLast? = some ']' then (ipv6? rest.dropLast).map .ipv6 else none
  | _ =>
    if web then ofName? s
    else if s.any isForbidden then none
    else some (.other (escape isControl s))

def ipv4Text (n : Nat) : List Char :=
  let parts := [n / 0x1000000, n / 0x10000 % 256, n / 256 % 256, n % 256]
  ['.'].intercalate (parts.map (Nat.toDigits 10))

/-- Start and length of the first longest stretch of zeros; the arguments are the position, the
stretch that ends there, and the longest one so far. -/
def longestZeros : Nat → Nat → Nat × Nat → List Nat → Nat × Nat
  | _, _, best, [] => best
  | i, run, best, p :: ps =>
    if p = 0 then
      longestZeros (i + 1) (run + 1) (if best.2 < run + 1 then (i - run, run + 1) else best) ps
    else longestZeros (i + 1) 0 best ps

def piecesText (ps : List Nat) : List Char := [':'].intercalate (ps.map (Nat.toDigits 16))

/-- The first longest stretch of at least two zeros is left out. -/
def ipv6Text (ps : List Nat) : List Char :=
  let (start, length) := longestZeros 0 0 (0, 0) ps
  if length < 2 then piecesText ps
  else piecesText (ps.take start) ++ [':', ':'] ++ piecesText (ps.drop (start + length))

def text : Host → List Char
  | .name s => s
  | .ipv4 n => ipv4Text n
  | .ipv6 ps => '[' :: ipv6Text ps ++ [']']
  | .other s => s

end Host

end ResourceApi.Url
