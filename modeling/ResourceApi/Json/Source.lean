import ResourceApi.Decimal.Reading
import ResourceApi.Json.Basic
import ResourceApi.Text.Digit

/-!
The grammar of JSON text. A `Source` is what the grammar alone sees: strings still hold their
escapes as code units, numbers their digits, objects every member that was written. What a value
may be beyond the grammar (paired surrogates, a number within range, a bounded nesting) is decided
where a `Source` becomes a value, so that a part that nobody reads is only held to the grammar.
-/

namespace ResourceApi.Json

/-- A character of a string literal, or a code unit written as `\uXXXX`. -/
inductive Piece where
  | char (c : Char)
  | unit (n : Nat)
  deriving DecidableEq, Repr

structure NumberText where
  numeral : Decimal.Numeral
  /-- Neither a fraction nor an exponent was written. -/
  integral : Bool
  deriving DecidableEq, Repr

inductive Source where
  | null
  | bool (value : Bool)
  | number (text : NumberText)
  | string (pieces : List Piece)
  | array (items : List Source)
  | object (members : List (List Piece × Source))
  deriving Repr

namespace Source

def isSpace (c : Char) : Bool := c = ' ' || c = '\t' || c = '\n' || c = '\r'

def skip (s : List Char) : List Char := s.dropWhile isSpace

def unescape? : Char → Option Char
  | '"' => some '"'
  | '\\' => some '\\'
  | '/' => some '/'
  | 'b' => some '\x08'
  | 'f' => some '\x0c'
  | 'n' => some '\n'
  | 'r' => some '\r'
  | 't' => some '\t'
  | _ => none

def readPieces : List Char → Option (List Piece × List Char)
  | [] => none
  | '"' :: rest => some ([], rest)
  | '\\' :: 'u' :: a :: b :: c :: d :: rest => do
    let n ← Text.Digit.number? 16 [a, b, c, d]
    let (ps, rest) ← readPieces rest
    some (.unit n :: ps, rest)
  | '\\' :: c :: rest => do
    let e ← unescape? c
    let (ps, rest) ← readPieces rest
    some (.char e :: ps, rest)
  | c :: rest =>
    if c.toNat < 0x20 || c = '\\' then none
    else do
      let (ps, rest) ← readPieces rest
      some (.char c :: ps, rest)

/-- A zero, or digits that do not start with one. -/
def wholeDigits (s : List Char) : Option (List Char × List Char) :=
  match Decimal.spanDigits s with
  | ([], _) => none
  | ('0' :: _ :: _, _) => none
  | (ds, rest) => some (ds, rest)

def fractionDigits : List Char → Option (List Char × List Char)
  | '.' :: rest => match Decimal.spanDigits rest with
    | ([], _) => none
    | (ds, rest) => some (ds, rest)
  | rest => some ([], rest)

def readNumber (s : List Char) : Option (NumberText × List Char) := do
  let (negative, body) := match s with
    | '-' :: rest => (true, rest)
    | rest => (false, rest)
  let (whole, rest) ← wholeDigits body
  let (fraction, rest') ← fractionDigits rest
  let (e, rest'') ← Decimal.readExponent rest'
  some (⟨⟨negative, whole, fraction, e⟩, rest''.length == rest.length⟩, rest'')

mutual

/-- Reads one value; the first argument bounds the number of steps. -/
def readValue : Nat → List Char → Option (Source × List Char)
  | 0, _ => none
  | n + 1, s => match skip s with
    | '"' :: rest => (readPieces rest).map fun (ps, rest) => (.string ps, rest)
    | '[' :: rest => match skip rest with
      | ']' :: rest => some (.array [], rest)
      | rest => (readItems n rest).map fun (vs, rest) => (.array vs, rest)
    | '\x7b' :: rest => match skip rest with
      | '\x7d' :: rest => some (.object [], rest)
      | rest => (readMembers n rest).map fun (ms, rest) => (.object ms, rest)
    | 't' :: 'r' :: 'u' :: 'e' :: rest => some (.bool true, rest)
    | 'f' :: 'a' :: 'l' :: 's' :: 'e' :: rest => some (.bool false, rest)
    | 'n' :: 'u' :: 'l' :: 'l' :: rest => some (.null, rest)
    | rest => (readNumber rest).map fun (x, rest) => (.number x, rest)

def readItems : Nat → List Char → Option (List Source × List Char)
  | 0, _ => none
  | n + 1, s => do
    let (v, rest) ← readValue n s
    match skip rest with
    | ',' :: rest => (readItems n rest).map fun (vs, rest) => (v :: vs, rest)
    | ']' :: rest => some ([v], rest)
    | _ => none

def readMembers : Nat → List Char → Option (List (List Piece × Source) × List Char)
  | 0, _ => none
  | n + 1, s => match skip s with
    | '"' :: rest => do
      let (k, rest) ← readPieces rest
      match skip rest with
      | ':' :: rest =>
        let (v, rest) ← readValue n rest
        match skip rest with
        | ',' :: rest => (readMembers n rest).map fun (ms, rest) => ((k, v) :: ms, rest)
        | '\x7d' :: rest => some ([(k, v)], rest)
        | _ => none
      | _ => none
    | _ => none

end

/-- Reads a whole text. Two steps for each character are more than any value takes. -/
def ofChars? (s : List Char) : Option Source := do
  let (v, rest) ← readValue (2 * s.length + 2) s
  if (skip rest).isEmpty then some v else none

end Source

end ResourceApi.Json
