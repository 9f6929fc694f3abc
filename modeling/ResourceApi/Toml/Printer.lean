import ResourceApi.Text.Digit
import ResourceApi.Toml.Basic

/-!
Text in TOML. Of the five ways to quote a text the first that shows it plainly is taken: in double
quotes, in single quotes, in three double quotes, in three single quotes; only where none of these
can hold it without escapes it is escaped.
-/

namespace ResourceApi.Toml.Printer

inductive Quoting where
  | basic | literal | multiBasic | multiLiteral
  deriving DecidableEq, Repr

/-- Controls that no form holds as they are; tabs and line ends are not among them. -/
def isControl (c : Char) : Bool := (c.toNat < 0x20 && c != '\t' && c != '\n') || c.toNat = 0x7F

/-- Length of the longest stretch of a character; the argument is the stretch that ends here. -/
def longestRun (q : Char) : Nat → List Char → Nat
  | run, [] => run
  | run, c :: rest => if c = q then longestRun q (run + 1) rest else max run (longestRun q 0 rest)

def hasControl (s : List Char) : Bool := s.any isControl

def hasLineEnd (s : List Char) : Bool := s.contains '\n'

def Quoting.holds (q : Quoting) (s : List Char) : Bool :=
  !hasControl s && match q with
    | .basic => !s.contains '\\' && !s.contains '"' && !hasLineEnd s
    | .literal => !s.contains '\'' && !hasLineEnd s
    | .multiBasic => !s.contains '\\' && longestRun '"' 0 s ≤ 2
    | .multiLiteral => longestRun '\'' 0 s ≤ 2

def quoting (s : List Char) : Quoting :=
  ([.basic, .literal, .multiBasic, .multiLiteral].find? (·.holds s)).getD
    (if hasLineEnd s then .multiBasic else .basic)

def Quoting.isMulti : Quoting → Bool
  | .basic | .literal => false
  | .multiBasic | .multiLiteral => true

def Quoting.delimiter : Quoting → List Char
  | .basic => ['"']
  | .literal => ['\'']
  | .multiBasic => ['"', '"', '"']
  | .multiLiteral => ['\'', '\'', '\'']

/-- The escape of a character other than a quote, if it has one. -/
def escape? (multi : Bool) (c : Char) : Option (List Char) :=
  match c with
  | '\x08' => some ['\\', 'b']
  | '\t' => some ['\\', 't']
  | '\n' => if multi then none else some ['\\', 'n']
  | '\x0c' => some ['\\', 'f']
  | '\r' => some ['\\', 'r']
  | '\\' => some ['\\', '\\']
  | c =>
    if isControl c then
      some (['\\', 'u', '0', '0'] ++ [c.toNat / 16, c.toNat % 16].map Text.Digit.capital)
    else none

/-- Escapes a text; up to two quotes in a row stay in the form over several lines. The number is
that of the quotes just written as they are. -/
def escaped (multi : Bool) : Nat → List Char → List Char
  | _, [] => []
  | quotes, c :: rest =>
    if c = '"' then
      if multi && quotes < 2 then '"' :: escaped multi (quotes + 1) rest
      else '\\' :: '"' :: escaped multi 0 rest
    else match escape? multi c with
      | some e => e ++ escaped multi 0 rest
      | none => c :: escaped multi 0 rest

def content (q : Quoting) (s : List Char) : List Char :=
  match q with
  | .basic | .multiBasic => escaped q.isMulti 0 s
  | .literal | .multiLiteral => s

/-- A quoted text. Over several lines it starts on a line of its own. -/
def render (s : List Char) : List Char :=
  let q := quoting s
  let start := if q.isMulti && hasLineEnd s then ['\n'] else []
  q.delimiter ++ start ++ content q s ++ q.delimiter

def quote (s : String) : String := String.ofList (render s.toList)

end ResourceApi.Toml.Printer
