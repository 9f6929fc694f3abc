import ResourceApi.Text.Digit
import ResourceApi.Text.Utf8

/-!
Percent encoding of query values and path segments. Besides letters and digits the characters
`- _ . ~ ! * ' ( )` stay as they are, which keeps filter expressions readable; every other
character becomes `%XX` for each byte of its UTF-8 form. Decoding is the left inverse, stated on
its own: it does not consult the set of characters that encoding keeps.
-/

namespace ResourceApi.Text.Percent

def kept (c : Char) : Bool :=
  c.isAlphanum || ['-', '_', '.', '~', '!', '*', '\'', '(', ')'].contains c

def encodeByte (b : UInt8) : List Char :=
  ['%', Digit.capital (b.toNat / 16), Digit.capital (b.toNat % 16)]

def encodeChar (c : Char) : List Char :=
  if kept c then [c] else (String.utf8EncodeChar c).flatMap encodeByte

/-- One query value or one path segment. -/
def encode (s : List Char) : List Char := s.flatMap encodeChar

@[simp] theorem encode_nil : encode [] = [] := rfl
@[simp] theorem encode_cons (c : Char) (s : List Char) :
    encode (c :: s) = encodeChar c ++ encode s := by simp [encode]
@[simp] theorem encode_append (s t : List Char) : encode (s ++ t) = encode s ++ encode t := by
  simp [encode]

/-- A list of values: the commas between items are literal, those inside items are not. -/
def encodeAll (items : List (List Char)) : List Char := [','].intercalate (items.map encode)

def bytes : List Char → List UInt8
  | '%' :: a :: b :: rest => match Digit.value? a, Digit.value? b with
    | some m, some n => UInt8.ofNat (16 * m + n) :: bytes rest
    | _, _ => Text.Utf8.encode ['%'] ++ bytes (a :: b :: rest)
  | c :: rest => String.utf8EncodeChar c ++ bytes rest
  | [] => []

def decode (s : List Char) : Option (List Char) := Text.Utf8.decode (bytes s)

def component (s : String) : String := String.ofList (encode s.toList)

end ResourceApi.Text.Percent
