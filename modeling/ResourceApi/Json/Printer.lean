import ResourceApi.Decimal.Layout
import ResourceApi.Json.Basic
import ResourceApi.Text.Digit

/-!
JSON text, compact and indented. Strings escape the quote, the backslash and the controls below
U+0020; everything else is written as it is.
-/

namespace ResourceApi.Json

/-- Numbers from `1e-5` up to `1e16` are positional, whole ones end in `.0`, and a half goes to the
even neighbour. -/
def number : Decimal.Layout := ⟨some (-5, 16), true, .even⟩

def escapeChar (c : Char) : List Char :=
  match c with
  | '"' => ['\\', '"']
  | '\\' => ['\\', '\\']
  | '\x08' => ['\\', 'b']
  | '\t' => ['\\', 't']
  | '\n' => ['\\', 'n']
  | '\x0c' => ['\\', 'f']
  | '\r' => ['\\', 'r']
  | c =>
    if c.toNat < 0x20 then
      ['\\', 'u', '0', '0', Text.Digit.small (c.toNat / 16), Text.Digit.small (c.toNat % 16)]
    else [c]

def renderString (s : String) : List Char := '"' :: s.toList.flatMap escapeChar ++ ['"']

mutual

def render : Json → List Char
  | .null => "null".toList
  | .bool b => if b then "true".toList else "false".toList
  | .int n => (toString n).toList
  | .double x => number.write x
  | .string s => renderString s
  | .array [] => ['[', ']']
  | .array (v :: rest) => '[' :: render v ++ renderItems rest ++ [']']
  | .object [] => ['\x7b', '\x7d']
  | .object ((k, v) :: rest) =>
    '\x7b' :: renderString k ++ ':' :: render v ++ renderMembers rest ++ ['\x7d']

def renderItems : List Json → List Char
  | [] => []
  | v :: rest => ',' :: render v ++ renderItems rest

def renderMembers : List (String × Json) → List Char
  | [] => []
  | (k, v) :: rest => ',' :: renderString k ++ ':' :: render v ++ renderMembers rest

end

def text (v : Json) : String := String.ofList (render v)

def newline (depth : Nat) : List Char := '\n' :: List.replicate (2 * depth) ' '

mutual

/-- Indented text, two spaces for each level. -/
def layOut (depth : Nat) : Json → List Char
  | .array (v :: rest) =>
    '[' :: newline (depth + 1) ++ layOut (depth + 1) v ++ layOutItems (depth + 1) rest
      ++ newline depth ++ [']']
  | .object ((k, v) :: rest) =>
    '\x7b' :: newline (depth + 1) ++ renderString k ++ ':' :: ' ' :: layOut (depth + 1) v
      ++ layOutMembers (depth + 1) rest ++ newline depth ++ ['\x7d']
  | v => render v

def layOutItems (depth : Nat) : List Json → List Char
  | [] => []
  | v :: rest => ',' :: newline depth ++ layOut depth v ++ layOutItems depth rest

def layOutMembers (depth : Nat) : List (String × Json) → List Char
  | [] => []
  | (k, v) :: rest =>
    ',' :: newline depth ++ renderString k ++ ':' :: ' ' :: layOut depth v
      ++ layOutMembers depth rest

end

def indented (v : Json) : String := String.ofList (layOut 0 v)

end ResourceApi.Json
