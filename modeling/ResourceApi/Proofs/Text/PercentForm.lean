import ResourceApi.Proofs.Text.Percent

/-!
What percent encoding writes, byte by byte: a letter, a digit or one of nine marks for itself, and
every other byte of the UTF-8 form as a percent sign with two digits, capitals above nine. A plus
sign is never written, so a reader that takes it for a blank finds the same text.
-/

namespace ResourceApi.Text.Percent

/-- Characters of ASCII that stand for themselves. -/
def IsPlain (c : Char) : Prop := c.isAlphanum = true ∨ c ∈ "-_.~!*'()".toList

def hexDigits : List Char := "0123456789ABCDEF".toList

/-- Encoded texts with the bytes they spell: plain characters for their own bytes, and triplets for
all others. -/
inductive Spells : List Char → List UInt8 → Prop where
  | nil : Spells [] []
  | plain {c : Char} {s : List Char} {bs : List UInt8} (hc : IsPlain c) (h : Spells s bs) :
      Spells (c :: s) (c.toUInt8 :: bs)
  | triplet {b : UInt8} {high low : Char} {s : List Char} {bs : List UInt8}
      (hb : ∀ c, IsPlain c → c.toUInt8 ≠ b) (hhigh : hexDigits[b.toNat / 16]? = some high)
      (hlow : hexDigits[b.toNat % 16]? = some low) (h : Spells s bs) :
      Spells ('%' :: high :: low :: s) (b :: bs)

/-- Decoding as forms do it, where a plus sign is a blank. -/
def decodeForm (s : List Char) : Option (List Char) :=
  decode (s.map fun c => if c = '+' then ' ' else c)

theorem kept_iff {c : Char} : kept c = true ↔ IsPlain c := by
  simp [kept, IsPlain]

/-! ### The bytes of a character -/

theorem utf8EncodeChar_of_lt {c : Char} (h : c.toNat < 128) :
    String.utf8EncodeChar c = [c.toUInt8] := by
  have hle : c.val.toNat ≤ 127 := Nat.le_of_lt_succ h
  rw [String.utf8EncodeChar, if_pos hle, UInt8.ofNat_uInt32ToNat]
  rfl

/-- Beyond ASCII first bytes are at least `0xC0`, and all others at least `0x80`. -/
theorem le_of_mem_utf8EncodeChar {c : Char} (h : 128 ≤ c.toNat) :
    ∀ b ∈ String.utf8EncodeChar c, 128 ≤ b.toNat := by
  have hle : ¬c.val.toNat ≤ 127 := Nat.not_le_of_lt h
  simp only [String.utf8EncodeChar, if_neg hle]
  -- The cases are those of two, three and four bytes.
  repeat' split
  all_goals
    simp only [List.mem_cons, List.not_mem_nil, or_false, forall_eq_or_imp, forall_eq,
      UInt8.toNat_ofNat']
    omega

theorem toNat_toUInt8 {c : Char} (h : c.toNat < 128) : c.toUInt8.toNat = c.toNat := by
  have hval : c.toUInt8.toNat = c.toNat % 256 := rfl
  omega

theorem ne_of_mem_utf8EncodeChar {c d : Char} (hc : kept c = false) (hd : IsPlain d) {b : UInt8}
    (hb : b ∈ String.utf8EncodeChar c) : d.toUInt8 ≠ b := by
  rintro rfl
  have hdlt : d.toNat < 128 := toNat_lt_of_kept (kept_iff.2 hd)
  by_cases hlt : c.toNat < 128
  · rw [utf8EncodeChar_of_lt hlt, List.mem_singleton] at hb
    have hval : d.toNat = c.toNat := by
      rw [← toNat_toUInt8 hdlt, hb, toNat_toUInt8 hlt]
    obtain rfl : d = c := Char.toNat_inj.1 hval
    simp [kept_iff.2 hd] at hc
  · have hle := le_of_mem_utf8EncodeChar (Nat.le_of_not_lt hlt) _ hb
    rw [toNat_toUInt8 hdlt] at hle
    omega

/-! ### Encoded texts -/

theorem hexDigits_capital {n : Nat} (h : n < 16) : hexDigits[n]? = some (Digit.capital n) := by
  have all : ∀ m : Fin 16, hexDigits[m.val]? = some (Digit.capital m) := by decide
  exact all ⟨n, h⟩

theorem Spells.bytes {s : List Char} {bs cs : List UInt8} (h : Spells s cs)
    (hbs : ∀ b ∈ bs, ∀ c, IsPlain c → c.toUInt8 ≠ b) :
    Spells (bs.flatMap encodeByte ++ s) (bs ++ cs) := by
  induction bs with
  | nil => exact h
  | cons b bs ih =>
    obtain ⟨hb, hbs⟩ := List.forall_mem_cons.1 hbs
    have hlt : b.toNat < 256 := b.toNat_lt
    exact .triplet hb (hexDigits_capital (by omega)) (hexDigits_capital (by omega)) (ih hbs)

theorem spells_encode (s : List Char) : Spells (encode s) (Utf8.encode s) := by
  induction s with
  | nil => exact .nil
  | cons c s ih =>
    rw [encode_cons, Utf8.encode_cons, encodeChar]
    split
    · rename_i hc
      rw [utf8EncodeChar_of_lt (toNat_lt_of_kept hc)]
      exact .plain (kept_iff.1 hc) ih
    · rename_i hc
      exact ih.bytes fun b hb d hd => ne_of_mem_utf8EncodeChar (by simpa using hc) hd hb

theorem toUTF8_eq (s : String) : s.toUTF8.data.toList = Utf8.encode s.toList := by
  have h : s.toList.utf8Encode = s.toUTF8 := String.utf8Encode_toList
  rw [← h, List.utf8Encode, List.data_toByteArray]
  rfl

theorem decodeForm_encode (s : List Char) : decodeForm (encode s) = some s := by
  have hplus : ∀ c ∈ encode s, (if c = '+' then ' ' else c) = c := by
    intro c hc
    have hne : c ≠ '+' := fun heq => not_mem_encode (by decide) s (heq ▸ hc)
    rw [if_neg hne]
  rw [decodeForm, List.map_congr_left hplus, List.map_id', decode_encode]

/-- Pieces of an encoded list, read by a decoder. -/
def items? (read : List Char → Option (List Char)) (s : List Char) : Option (List (List Char)) :=
  (s.splitOn ',').mapM read

theorem items?_encodeAll {read : List Char → Option (List Char)}
    (hread : ∀ s, read (encode s) = some s) {items : List (List Char)} (h : items ≠ []) :
    items? read (encodeAll items) = some items := by
  rw [items?, splitOn_encodeAll h, mapM_map_encode hread]

/-- Encoding writes the form of the bytes, part by part, and both ways of decoding invert it, on
single texts and on lists. -/
theorem encoding_is_invertible (s t item : String) (more : List String) :
    Spells (component s).toList s.toUTF8.data.toList ∧
      decode (component s).toList = some s.toList ∧
      decodeForm (component s).toList = some s.toList ∧
      component (s ++ t) = component s ++ component t ∧
      items? decode (encodeAll ((item :: more).map String.toList)) =
        some ((item :: more).map String.toList) ∧
      items? decodeForm (encodeAll ((item :: more).map String.toList)) =
        some ((item :: more).map String.toList) := by
  have hs : (component s).toList = encode s.toList := String.toList_ofList
  have hne : (item :: more).map String.toList ≠ [] := List.cons_ne_nil _ _
  rw [hs, toUTF8_eq]
  refine ⟨spells_encode _, decode_encode _, decodeForm_encode _, ?_,
    items?_encodeAll decode_encode hne, items?_encodeAll decodeForm_encode hne⟩
  simp [component, String.ofList_append]

end ResourceApi.Text.Percent
