import ResourceApi.Decimal.Reading
import ResourceApi.Text.Digit
import ResourceApi.Toml.Basic

/-!
The parts of TOML text below values: blanks, comments and line ends, strings in their four forms,
keys, numbers and dates. A reader takes the text in front of it and gives what it read with what is
left, or nothing if the text is not of its form.
-/

namespace ResourceApi.Toml.Lexeme

def isBlank (c : Char) : Bool := c = ' ' || c = '\t'

def skipBlanks (s : List Char) : List Char := s.dropWhile isBlank

/-- What may stand in comments and strings: everything but controls, of which a tab is none. -/
def isPlain (c : Char) : Bool := c = '\t' || (0x20 ≤ c.toNat && c.toNat ≠ 0x7F)

/-- Skips blanks, comments and line ends inside an array; the flag says whether a comment is open.
A comment must end in a line end. -/
def skipLines : Bool → List Char → Option (List Char)
  | _, '\n' :: rest => skipLines false rest
  | _, '\r' :: '\n' :: rest => skipLines false rest
  | true, c :: rest => if isPlain c then skipLines true rest else none
  | true, [] => none
  | false, ' ' :: rest => skipLines false rest
  | false, '\t' :: rest => skipLines false rest
  | false, '#' :: rest => skipLines true rest
  | false, rest => some rest

def lineEnd : Bool → List Char → Option (List Char)
  | _, [] => some []
  | _, '\n' :: rest => some rest
  | _, '\r' :: '\n' :: rest => some rest
  | true, c :: rest => if isPlain c then lineEnd true rest else none
  | false, ' ' :: rest => lineEnd false rest
  | false, '\t' :: rest => lineEnd false rest
  | false, '#' :: rest => lineEnd true rest
  | false, _ => none

def hexChar? (ds : List Char) : Option Char := do
  let n ← Text.Digit.number? 16 ds
  if n < 0xD800 ∨ (0xE000 ≤ n ∧ n < 0x110000) then some (Char.ofNat n) else none

def unescape? : Char → Option Char
  | 'b' => some '\x08'
  | 't' => some '\t'
  | 'n' => some '\n'
  | 'f' => some '\x0c'
  | 'r' => some '\r'
  | '"' => some '"'
  | '\\' => some '\\'
  | _ => none

/-- The rest of a string in double quotes. -/
def basic : List Char → Option (List Char × List Char)
  | [] => none
  | '"' :: rest => some ([], rest)
  | '\\' :: 'u' :: a :: b :: c :: d :: rest => do
    let x ← hexChar? [a, b, c, d]
    let (s, rest) ← basic rest
    some (x :: s, rest)
  | '\\' :: 'U' :: a :: b :: c :: d :: e :: f :: g :: h :: rest => do
    let x ← hexChar? [a, b, c, d, e, f, g, h]
    let (s, rest) ← basic rest
    some (x :: s, rest)
  | '\\' :: c :: rest => do
    let x ← unescape? c
    let (s, rest) ← basic rest
    some (x :: s, rest)
  | c :: rest =>
    if isPlain c && c ≠ '\\' then do
      let (s, rest) ← basic rest
      some (c :: s, rest)
    else none

def literal : List Char → Option (List Char × List Char)
  | [] => none
  | '\'' :: rest => some ([], rest)
  | c :: rest =>
    if isPlain c then do
      let (s, rest) ← literal rest
      some (c :: s, rest)
    else none

def endsLine (s : List Char) : Bool :=
  match skipBlanks s with
  | '\n' :: _ => true
  | '\r' :: '\n' :: _ => true
  | _ => false

/-- The rest of a string in three double quotes. After a backslash at the end of a line, blanks and
line ends are skipped; up to two quotes may stand in front of the closing ones. -/
def multiBasic : Bool → List Char → Option (List Char × List Char)
  | true, ' ' :: rest => multiBasic true rest
  | true, '\t' :: rest => multiBasic true rest
  | true, '\n' :: rest => multiBasic true rest
  | true, '\r' :: '\n' :: rest => multiBasic true rest
  | _, [] => none
  | _, '"' :: '"' :: '"' :: '"' :: '"' :: rest => some (['"', '"'], rest)
  | _, '"' :: '"' :: '"' :: '"' :: rest => some (['"'], rest)
  | _, '"' :: '"' :: '"' :: rest => some ([], rest)
  | _, '\\' :: 'u' :: a :: b :: c :: d :: rest => do
    let x ← hexChar? [a, b, c, d]
    let (s, rest) ← multiBasic false rest
    some (x :: s, rest)
  | _, '\\' :: 'U' :: a :: b :: c :: d :: e :: f :: g :: h :: rest => do
    let x ← hexChar? [a, b, c, d, e, f, g, h]
    let (s, rest) ← multiBasic false rest
    some (x :: s, rest)
  | _, '\\' :: c :: rest =>
    if endsLine (c :: rest) then multiBasic true (c :: rest)
    else do
      let x ← unescape? c
      let (s, rest) ← multiBasic false rest
      some (x :: s, rest)
  | _, '\r' :: '\n' :: rest => do
    let (s, rest) ← multiBasic false rest
    some ('\n' :: s, rest)
  | _, c :: rest =>
    if (isPlain c && c ≠ '\\') || c = '\n' then do
      let (s, rest) ← multiBasic false rest
      some (c :: s, rest)
    else none

/-- The rest of a string in three single quotes. -/
def multiLiteral : List Char → Option (List Char × List Char)
  | [] => none
  | '\'' :: '\'' :: '\'' :: '\'' :: '\'' :: rest => some (['\'', '\''], rest)
  | '\'' :: '\'' :: '\'' :: '\'' :: rest => some (['\''], rest)
  | '\'' :: '\'' :: '\'' :: rest => some ([], rest)
  | '\r' :: '\n' :: rest => do
    let (s, rest) ← multiLiteral rest
    some ('\n' :: s, rest)
  | c :: rest =>
    if isPlain c || c = '\n' then do
      let (s, rest) ← multiLiteral rest
      some (c :: s, rest)
    else none

/-- A line end right after three opening quotes is not part of the string. -/
def dropFirstLineEnd : List Char → List Char
  | '\n' :: rest => rest
  | '\r' :: '\n' :: rest => rest
  | rest => rest

def string : List Char → Option (List Char × List Char)
  | '"' :: '"' :: '"' :: rest => multiBasic false (dropFirstLineEnd rest)
  | '"' :: rest => basic rest
  | '\'' :: '\'' :: '\'' :: rest => multiLiteral (dropFirstLineEnd rest)
  | '\'' :: rest => literal rest
  | _ => none

def isKeyChar (c : Char) : Bool := c.isAlphanum || c = '-' || c = '_'

/-- One part of a key: bare, or a string on one line. -/
def simpleKey : List Char → Option (List Char × List Char)
  | '"' :: rest => basic rest
  | '\'' :: rest => literal rest
  | s => match s.takeWhile isKeyChar with
    | [] => none
    | k => some (k, s.dropWhile isKeyChar)

/-- The parts of a key after so many steps at most. -/
def keyParts : Nat → List Char → Option (List String × List Char)
  | 0, _ => none
  | n + 1, s => do
    let (k, rest) ← simpleKey (skipBlanks s)
    match skipBlanks rest with
    | '.' :: rest => do
      let (ks, rest) ← keyParts n rest
      some (String.ofList k :: ks, rest)
    | rest => some ([String.ofList k], rest)

/-- Keys of this many parts and containers of this depth are refused. -/
def limit : Nat := 80

def key (s : List Char) : Option ((List String × String) × List Char) := do
  let (ks, rest) ← keyParts (s.length + 1) s
  let last ← ks.getLast?
  if ks.length < limit then some ((ks.dropLast, last), rest) else none

/-- Digits after a first one; an underscore stands between two digits only. -/
def moreDigits (isDigit : Char → Bool) : List Char → Option (List Char × List Char)
  | [] => some ([], [])
  | ['_'] => none
  | '_' :: c :: rest =>
    if isDigit c then (moreDigits isDigit rest).map fun (ds, rest) => (c :: ds, rest) else none
  | c :: rest =>
    if isDigit c then (moreDigits isDigit rest).map fun (ds, rest) => (c :: ds, rest)
    else some ([], c :: rest)

def someDigits (isDigit : Char → Bool) : List Char → Option (List Char × List Char)
  | c :: rest =>
    if isDigit c then (moreDigits isDigit rest).map fun (ds, rest) => (c :: ds, rest) else none
  | [] => none

def isRadixDigit (base : Nat) (c : Char) : Bool := (Text.Digit.value? c).any (· < base)

/-- A whole number in another base, within a signed word. -/
def radixInteger (base : Nat) (s : List Char) : Option (Toml × List Char) := do
  let (ds, rest) ← someDigits (isRadixDigit base) s
  let n ← Text.Digit.number? base ds
  if n < 0x8000000000000000 then some (.integer n, rest) else none

/-- The whole part of a decimal number: a zero alone, or digits that do not start with one. -/
def wholeDigits : List Char → Option (List Char × List Char)
  | '0' :: rest => some (['0'], rest)
  | s => someDigits Char.isDigit s

def exponentPart : List Char → Option (Option Int × List Char)
  | c :: rest =>
    if c = 'e' ∨ c = 'E' then do
      let (negative, body) := Decimal.readSign rest
      let (ds, rest) ← someDigits Char.isDigit body
      let n : Int := Decimal.ofDigits 0 ds
      some (some (if negative then -n else n), rest)
    else some (none, c :: rest)
  | [] => some (none, [])

def fractionPart : List Char → Option (Option (List Char) × List Char)
  | '.' :: rest => (someDigits Char.isDigit rest).map fun (ds, rest) => (some ds, rest)
  | rest => some (none, rest)

/-- A decimal number: a whole one within a signed word, or a double that is not beyond all. -/
def decimal (negative : Bool) (s : List Char) : Option (Toml × List Char) := do
  let (whole, rest) ← wholeDigits s
  let (fraction, rest) ← fractionPart rest
  let (e, rest) ← exponentPart rest
  match fraction, e with
  | none, none =>
    let n : Int := Decimal.ofDigits 0 whole
    let n := if negative then -n else n
    if -0x8000000000000000 ≤ n ∧ n < 0x8000000000000000 then some (.integer n, rest) else none
  | _, _ =>
    let x : Decimal.Numeral := ⟨negative, whole, fraction.getD [], e.getD 0⟩
    if x.nearest = .infinite false then none else some (.float, rest)

def special : List Char → Option (List Char)
  | 'i' :: 'n' :: 'f' :: rest => some rest
  | 'n' :: 'a' :: 'n' :: rest => some rest
  | _ => none

def number : List Char → Option (Toml × List Char)
  | '0' :: 'x' :: rest => radixInteger 16 rest
  | '0' :: 'o' :: rest => radixInteger 8 rest
  | '0' :: 'b' :: rest => radixInteger 2 rest
  | s =>
    let (negative, body) := Decimal.readSign s
    match special body with
    | some rest => some (.float, rest)
    | none => decimal negative body

def twoDigits (low high : Nat) : List Char → Option (Nat × List Char)
  | a :: b :: rest =>
    let n := Decimal.ofDigits 0 [a, b]
    if a.isDigit && b.isDigit && low ≤ n && n ≤ high then some (n, rest) else none
  | _ => none

def isLeap (year : Nat) : Bool := year % 4 = 0 && (year % 100 ≠ 0 || year % 400 = 0)

def daysIn (year month : Nat) : Nat :=
  if month = 2 then (if isLeap year then 29 else 28)
  else if month = 4 ∨ month = 6 ∨ month = 9 ∨ month = 11 then 30 else 31

/-- A date, if the text has its first five characters. -/
def startsDate : List Char → Bool
  | a :: b :: c :: d :: '-' :: _ => a.isDigit && b.isDigit && c.isDigit && d.isDigit
  | _ => false

def startsTime (s : List Char) : Bool :=
  match twoDigits 0 23 s with
  | some (_, ':' :: _) => true
  | _ => false

def date (s : List Char) : Option (List Char) := do
  let year := Decimal.ofDigits 0 (s.take 4)
  let (month, rest) ← twoDigits 1 12 (s.drop 5)
  match rest with
  | '-' :: rest =>
    let (_, rest) ← twoDigits 1 (daysIn year month) rest
    some rest
  | _ => none

def time (s : List Char) : Option (List Char) := do
  let (_, rest) ← twoDigits 0 23 s
  let (_, rest) ← twoDigits 0 59 (rest.drop 1)
  match rest with
  | ':' :: rest =>
    let (_, rest) ← twoDigits 0 60 rest
    match rest with
    | '.' :: d :: more =>
      some (if d.isDigit then more.dropWhile Char.isDigit else rest)
    | _ => some rest
  | _ => none

def zone : List Char → Option (List Char)
  | 'Z' :: rest => some rest
  | 'z' :: rest => some rest
  | c :: rest =>
    if c = '+' ∨ c = '-' then do
      let (_, rest) ← twoDigits 0 23 rest
      match rest with
      | ':' :: rest =>
        let (_, rest) ← twoDigits 0 59 rest
        some rest
      | _ => none
    else some (c :: rest)
  | [] => some []

/-- What follows a date: a time and perhaps a zone, if a separator and an hour follow. -/
def afterDate : List Char → Option (List Char)
  | c :: rest =>
    if (c = 'T' ∨ c = 't' ∨ c = ' ') ∧ startsTime rest then (time rest).bind zone
    else some (c :: rest)
  | [] => some []

def numberOrDate (s : List Char) : Option (Toml × List Char) :=
  if startsDate s then ((date s).bind afterDate).map (.datetime, ·)
  else if startsTime s then (time s).map (.datetime, ·)
  else number s

end ResourceApi.Toml.Lexeme
