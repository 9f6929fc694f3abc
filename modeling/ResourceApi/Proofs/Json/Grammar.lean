import ResourceApi.Json.Reader

/-!
The grammar of JSON texts, as a relation between texts and values. Blanks stand around values and
marks, a string is spelled character by character, and a number without fraction and exponent is
whole if a word of 64 bits holds it. Which double a decimal stands for is left open, and so is how
deep containers may be nested.
-/

namespace ResourceApi.Json

def IsBlank (s : List Char) : Prop := ∀ c ∈ s, c ∈ [' ', '\t', '\n', '\r']

/-! ### Strings -/

/-- Escapes of one letter, with the characters that they stand for. -/
def escapes : List (Char × Char) :=
  [('"', '"'), ('\\', '\\'), ('/', '/'), ('b', '\x08'), ('f', '\x0c'), ('n', '\n'), ('r', '\r'),
    ('t', '\t')]

/-- A hexadecimal digit, in a letter of either case above nine. -/
def IsHexDigit (c : Char) (n : Nat) : Prop :=
  "0123456789abcdef".toList[n]? = some c ∨ "0123456789ABCDEF".toList[n]? = some c

/-- Four hexadecimal digits with the code unit that they spell. -/
inductive SpellsUnit : List Char → Nat → Prop where
  | intro {a b c d : Char} {i j k l : Nat} (ha : IsHexDigit a i) (hb : IsHexDigit b j)
      (hc : IsHexDigit c k) (hd : IsHexDigit d l) :
      SpellsUnit [a, b, c, d] (((i * 16 + j) * 16 + k) * 16 + l)

/-- One character between the quotes. Surrogates stand in pairs only. -/
inductive SpellsChar : List Char → Char → Prop where
  | plain {c : Char} (hc : 0x20 ≤ c.toNat) (hquote : c ≠ '"') (hslash : c ≠ '\\') :
      SpellsChar [c] c
  | escape {e c : Char} (h : (e, c) ∈ escapes) : SpellsChar ['\\', e] c
  | unit {ds : List Char} {n : Nat} (h : SpellsUnit ds n) (hn : n < 0xD800 ∨ 0xE000 ≤ n) :
      SpellsChar ('\\' :: 'u' :: ds) (Char.ofNat n)
  | pair {ds ds' : List Char} {high low : Nat} (h : SpellsUnit ds high) (h' : SpellsUnit ds' low)
      (hhigh : 0xD800 ≤ high ∧ high < 0xDC00) (hlow : 0xDC00 ≤ low ∧ low < 0xE000) :
      SpellsChar ('\\' :: 'u' :: ds ++ '\\' :: 'u' :: ds')
        (Char.ofNat (0x10000 + (high - 0xD800) * 1024 + (low - 0xDC00)))

inductive SpellsChars : List Char → List Char → Prop where
  | nil : SpellsChars [] []
  | cons {t ts cs : List Char} {c : Char} (h : SpellsChar t c) (hs : SpellsChars ts cs) :
      SpellsChars (t ++ ts) (c :: cs)

inductive SpellsString : List Char → String → Prop where
  | intro {t cs : List Char} (h : SpellsChars t cs) :
      SpellsString ('"' :: t ++ ['"']) (String.ofList cs)

/-! ### Numbers -/

def IsDigits (s : List Char) : Prop := s ≠ [] ∧ ∀ c ∈ s, c.isDigit = true

/-- Digits of which the first is no zero, unless it is the only one. -/
def IsWhole (s : List Char) : Prop := IsDigits s ∧ (s.head? = some '0' → s = ['0'])

/-- A point and digits, or nothing. -/
inductive SpellsFraction : List Char → List Char → Prop where
  | absent : SpellsFraction [] []
  | digits {ds : List Char} (h : IsDigits ds) : SpellsFraction ('.' :: ds) ds

/-- A power of ten, or nothing. -/
inductive SpellsExponent : List Char → Int → Prop where
  | absent : SpellsExponent [] 0
  | plain {e : Char} {ds : List Char} (he : e = 'e' ∨ e = 'E') (h : IsDigits ds) :
      SpellsExponent (e :: ds) (Nat.ofDigitChars 10 ds 0)
  | plus {e : Char} {ds : List Char} (he : e = 'e' ∨ e = 'E') (h : IsDigits ds) :
      SpellsExponent (e :: '+' :: ds) (Nat.ofDigitChars 10 ds 0)
  | minus {e : Char} {ds : List Char} (he : e = 'e' ∨ e = 'E') (h : IsDigits ds) :
      SpellsExponent (e :: '-' :: ds) (-(Nat.ofDigitChars 10 ds 0 : Int))

/-- A number with the parts that are written. -/
inductive SpellsNumeral : List Char → Decimal.Numeral → Prop where
  | intro {whole t fraction u : List Char} {e : Int} (negative : Bool) (hw : IsWhole whole)
      (hf : SpellsFraction t fraction) (he : SpellsExponent u e) :
      SpellsNumeral ((if negative then ['-'] else []) ++ whole ++ t ++ u)
        ⟨negative, whole, fraction, e⟩

/-- A whole number that a word of 64 bits holds. A zero with a sign is none. -/
inductive SpellsInt : List Char → Int → Prop where
  | natural {ds : List Char} (h : IsWhole ds)
      (hn : Nat.ofDigitChars 10 ds 0 < 0x10000000000000000) :
      SpellsInt ds (Nat.ofDigitChars 10 ds 0)
  | negative {ds : List Char} (h : IsWhole ds) (hpos : 0 < Nat.ofDigitChars 10 ds 0)
      (hn : Nat.ofDigitChars 10 ds 0 ≤ 0x8000000000000000) :
      SpellsInt ('-' :: ds) (-(Nat.ofDigitChars 10 ds 0 : Int))

/-! ### Values -/

/-- What a stretch of JSON text may be: a value, a value with blanks around it, items between
commas, a member of an object, or members between commas. -/
inductive Phrase where
  | value (v : Json)
  | item (v : Json)
  | items (vs : List Json)
  | member (m : String × Json)
  | members (ms : List (String × Json))

/-- The texts of phrases in which at most so many containers are nested, for doubles that are
related to numerals in the given way. -/
inductive Spells (double : Decimal.Numeral → Decimal.Binary64 → Prop) :
    Nat → Phrase → List Char → Prop where
  | null {d : Nat} : Spells double d (.value .null) ['n', 'u', 'l', 'l']
  | true {d : Nat} : Spells double d (.value (.bool true)) ['t', 'r', 'u', 'e']
  | false {d : Nat} : Spells double d (.value (.bool false)) ['f', 'a', 'l', 's', 'e']
  | int {d : Nat} {t : List Char} {n : Int} (h : SpellsInt t n) :
      Spells double d (.value (.int n)) t
  | double {d : Nat} {t : List Char} {x : Decimal.Numeral} {y : Decimal.Binary64}
      (hx : SpellsNumeral t x) (hint : ∀ n, ¬SpellsInt t n) (hy : double x y) :
      Spells double d (.value (.double y)) t
  | string {d : Nat} {t : List Char} {s : String} (h : SpellsString t s) :
      Spells double d (.value (.string s)) t
  | noItems {d : Nat} {b : List Char} (hb : IsBlank b) :
      Spells double (d + 1) (.value (.array [])) ('[' :: b ++ [']'])
  | array {d : Nat} {t : List Char} {vs : List Json} (h : Spells double d (.items vs) t) :
      Spells double (d + 1) (.value (.array vs)) ('[' :: t ++ [']'])
  | noMembers {d : Nat} {b : List Char} (hb : IsBlank b) :
      Spells double (d + 1) (.value (.object [])) ('\x7b' :: b ++ ['\x7d'])
  | object {d : Nat} {t : List Char} {ms : List (String × Json)}
      (h : Spells double d (.members ms) t) :
      Spells double (d + 1) (.value (.object (Ordered.ofPairs ms))) ('\x7b' :: t ++ ['\x7d'])
  | item {d : Nat} {a t b : List Char} {v : Json} (ha : IsBlank a)
      (h : Spells double d (.value v) t) (hb : IsBlank b) :
      Spells double d (.item v) (a ++ t ++ b)
  | lastItem {d : Nat} {t : List Char} {v : Json} (h : Spells double d (.item v) t) :
      Spells double d (.items [v]) t
  | moreItems {d : Nat} {t rest : List Char} {v : Json} {vs : List Json}
      (h : Spells double d (.item v) t) (hs : Spells double d (.items vs) rest) :
      Spells double d (.items (v :: vs)) (t ++ ',' :: rest)
  | member {d : Nat} {a k b t : List Char} {key : String} {v : Json} (ha : IsBlank a)
      (hk : SpellsString k key) (hb : IsBlank b) (h : Spells double d (.item v) t) :
      Spells double d (.member (key, v)) (a ++ k ++ b ++ ':' :: t)
  | lastMember {d : Nat} {t : List Char} {m : String × Json} (h : Spells double d (.member m) t) :
      Spells double d (.members [m]) t
  | moreMembers {d : Nat} {t rest : List Char} {m : String × Json} {ms : List (String × Json)}
      (h : Spells double d (.member m) t) (hs : Spells double d (.members ms) rest) :
      Spells double d (.members (m :: ms)) (t ++ ',' :: rest)

/-- Doubles are read in two steps, as `Decimal.Numeral.stepwise` does. -/
def ReadsDouble (x : Decimal.Numeral) (y : Decimal.Binary64) : Prop := x.stepwise = some y

/-- A whole text for a value, with at most 127 nested containers. -/
def IsTextOf (v : Json) (s : List Char) : Prop := Spells ReadsDouble 127 (.item v) s

end ResourceApi.Json
