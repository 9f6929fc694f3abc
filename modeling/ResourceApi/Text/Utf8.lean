/-!
UTF-8 as bytes. Decoding goes unit by unit: a unit is either a character or a maximal piece that
starts one and does not finish it. Strict decoding refuses such a piece; lossy decoding puts one
replacement character for each, so that no input is refused and no valid character is lost.
-/

namespace ResourceApi.Text.Utf8

def encode (s : List Char) : List UInt8 := s.flatMap String.utf8EncodeChar

@[simp] theorem encode_nil : encode [] = [] := rfl
@[simp] theorem encode_cons (c : Char) (s : List Char) :
    encode (c :: s) = String.utf8EncodeChar c ++ encode s := by simp [encode]
@[simp] theorem encode_append (s t : List Char) : encode (s ++ t) = encode s ++ encode t := by
  simp [encode]

/-- What a first byte beyond ASCII announces: the bits it carries, the range of the second byte,
and the number of bytes after that. -/
structure Lead where
  bits : Nat
  low : Nat
  high : Nat
  more : Nat
  deriving DecidableEq, Repr

/-- The second byte is restricted where a longer form, a surrogate or a code point beyond the
last would otherwise be spelled. -/
def Lead.ofByte (b : Nat) : Option Lead :=
  if b < 0xC2 then none
  else if b < 0xE0 then some ⟨b - 0xC0, 0x80, 0xBF, 0⟩
  else if b = 0xE0 then some ⟨0, 0xA0, 0xBF, 1⟩
  else if b = 0xED then some ⟨0xD, 0x80, 0x9F, 1⟩
  else if b < 0xF0 then some ⟨b - 0xE0, 0x80, 0xBF, 1⟩
  else if b = 0xF0 then some ⟨0, 0x90, 0xBF, 2⟩
  else if b < 0xF4 then some ⟨b - 0xF0, 0x80, 0xBF, 2⟩
  else if b = 0xF4 then some ⟨4, 0x80, 0x8F, 2⟩
  else none

/-- Reads so many more continuation bytes, and stops in front of the first that is none. -/
def continuation : Nat → Nat → List UInt8 → Option Nat × List UInt8
  | 0, bits, rest => (some bits, rest)
  | _ + 1, _, [] => (none, [])
  | n + 1, bits, b :: rest =>
    if 0x80 ≤ b.toNat ∧ b.toNat ≤ 0xBF then continuation n (bits * 64 + (b.toNat - 0x80)) rest
    else (none, b :: rest)

theorem length_continuation (n bits : Nat) (bs : List UInt8) :
    (continuation n bits bs).2.length ≤ bs.length := by
  induction n generalizing bits bs with
  | zero => simp [continuation]
  | succ n ih =>
    cases bs with
    | nil => simp [continuation]
    | cons b rest =>
      simp only [continuation]
      split
      · exact Nat.le_succ_of_le (ih _ rest)
      · simp

def unit (b : UInt8) (rest : List UInt8) : Option Char × List UInt8 :=
  if b.toNat < 0x80 then (some (Char.ofNat b.toNat), rest)
  else match Lead.ofByte b.toNat, rest with
    | none, _ => (none, rest)
    | some _, [] => (none, [])
    | some l, c :: rest' =>
      if l.low ≤ c.toNat ∧ c.toNat ≤ l.high then
        let read := continuation l.more (l.bits * 64 + (c.toNat - 0x80)) rest'
        (read.1.map Char.ofNat, read.2)
      else (none, rest)

theorem length_unit (b : UInt8) (rest : List UInt8) : (unit b rest).2.length ≤ rest.length := by
  unfold unit
  split
  · simp
  · split
    · simp
    · simp
    · split
      · exact Nat.le_succ_of_le (length_continuation ..)
      · simp

def units : List UInt8 → List (Option Char)
  | [] => []
  | b :: rest => (unit b rest).1 :: units (unit b rest).2
  termination_by bs => bs.length
  decreasing_by
    have := length_unit b rest
    simp only [List.length_cons]
    omega

def decode (bs : List UInt8) : Option (List Char) := (units bs).mapM id

/-- Lossy decoding, one U+FFFD for each piece that is no character. -/
def decodeLossy (bs : List UInt8) : List Char := (units bs).map (·.getD (Char.ofNat 0xFFFD))

end ResourceApi.Text.Utf8
