import ResourceApi.Text.Invisible

/-!
Text in double quotes for messages: quotes, backslashes and the usual controls by a backslash,
and each character that would not show by its code point.
-/

namespace ResourceApi.Text.Quoted

def digits (base n : Nat) : List Char := Nat.toDigits base n

def encodeChar (c : Char) : List Char :=
  match c with
  | '"' => ['\\', '"']
  | '\\' => ['\\', '\\']
  | '\n' => ['\\', 'n']
  | '\r' => ['\\', 'r']
  | '\t' => ['\\', 't']
  | '\x00' => ['\\', '0']
  | c => if isInvisible c then ['\\', 'u', '\x7b'] ++ digits 16 c.toNat ++ ['\x7d'] else [c]

def encode (s : List Char) : List Char := '"' :: s.flatMap encodeChar ++ ['"']

def quote (s : String) : String := String.ofList (encode s.toList)

end ResourceApi.Text.Quoted
