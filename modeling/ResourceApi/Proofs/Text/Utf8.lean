import ResourceApi.Text.Utf8

/-!
Strict decoding takes back what encoding made of a text, and refuses all other bytes. A character
beyond ASCII has a first byte that announces it and one to three trailing bytes of six bits each; by
the ranges that a first byte admits for the second one, the reading does not stop in between, and no
character is read from bytes that are not its encoding.
-/

namespace ResourceApi.Text.Utf8

/-! ### Trailing bytes -/

theorem toNat_trailing (x : Nat) : (UInt8.ofNat (x % 64 + 0x80)).toNat = x % 64 + 0x80 := by
  have hx : x % 64 < 64 := Nat.mod_lt _ (by decide)
  simp only [UInt8.toNat_ofNat']
  omega

theorem continuation_trailing (n bits x : Nat) (rest : List UInt8) :
    continuation (n + 1) bits (UInt8.ofNat (x % 64 + 0x80) :: rest) =
      continuation n (bits * 64 + x % 64) rest := by
  have hx : x % 64 < 64 := Nat.mod_lt _ (by decide)
  rw [continuation, toNat_trailing, if_pos (by omega), Nat.add_sub_cancel]

/-! ### First bytes -/

theorem unit_ascii {v : Nat} (h : v < 0x80) (rest : List UInt8) :
    unit (UInt8.ofNat v) rest = (some (Char.ofNat v), rest) := by
  have hv : (UInt8.ofNat v).toNat = v := by
    simp only [UInt8.toNat_ofNat']
    omega
  simp only [unit, hv, if_pos h]

/-- A first byte announces some bits and so many bytes after a second one that it admits. -/
def Announces (b bits second more : Nat) : Prop :=
  0x80 ≤ b ∧ ∃ low high, Lead.ofByte b = some ⟨bits, low, high, more⟩ ∧
    low ≤ second % 64 + 0x80 ∧ second % 64 + 0x80 ≤ high

theorem unit_of_announces {b : UInt8} {bits second more : Nat}
    (h : Announces b.toNat bits second more) (rest : List UInt8) :
    unit b (UInt8.ofNat (second % 64 + 0x80) :: rest) =
      ((continuation more (bits * 64 + second % 64) rest).1.map Char.ofNat,
        (continuation more (bits * 64 + second % 64) rest).2) := by
  obtain ⟨hb, low, high, hlead, hlow, hhigh⟩ := h
  have hb' : ¬b.toNat < 0x80 := by omega
  simp only [unit, if_neg hb', hlead, toNat_trailing, hlow, hhigh, and_self, if_true,
    Nat.add_sub_cancel]

theorem units_of_announces {b : UInt8} {bits second more v : Nat} {tail rest : List UInt8}
    (h : Announces b.toNat bits second more)
    (hread : continuation more (bits * 64 + second % 64) tail = (some v, rest)) :
    units (b :: UInt8.ofNat (second % 64 + 0x80) :: tail) =
      some (Char.ofNat v) :: units rest := by
  rw [units, unit_of_announces h, hread, Option.map_some]

/-- Below `0x80` a second byte would be needless. -/
theorem announces_two {v : Nat} (low : 0x80 ≤ v) (high : v < 0x800) :
    Announces (v / 64 + 0xC0) (v / 64) v 0 := by
  refine ⟨by omega, 0x80, 0xBF, ?_, by omega, by omega⟩
  rw [Lead.ofByte, if_neg (by omega), if_pos (by omega), Nat.add_sub_cancel]

/-- Below `0x800` a third byte would be needless, and surrogates are no characters. -/
theorem announces_three {v : Nat} (low : 0x800 ≤ v) (high : v < 0x10000)
    (scalar : v < 0xD800 ∨ 0xE000 ≤ v) :
    Announces (v / 4096 + 0xE0) (v / 4096) (v / 64) 1 := by
  refine ⟨by omega, ?_⟩
  rw [Lead.ofByte, if_neg (by omega), if_neg (by omega)]
  by_cases hfirst : v / 4096 = 0
  · refine ⟨0xA0, 0xBF, ?_, by omega, by omega⟩
    rw [if_pos (by omega), hfirst]
  by_cases hlast : v / 4096 = 0xD
  · refine ⟨0x80, 0x9F, ?_, by omega, by omega⟩
    rw [if_neg (by omega), if_pos (by omega), hlast]
  · refine ⟨0x80, 0xBF, ?_, by omega, by omega⟩
    rw [if_neg (by omega), if_neg (by omega), if_pos (by omega), Nat.add_sub_cancel]

/-- Below `0x10000` a fourth byte would be needless, and `0x10FFFF` is the last character. -/
theorem announces_four {v : Nat} (low : 0x10000 ≤ v) (high : v < 0x110000) :
    Announces (v / 262144 + 0xF0) (v / 262144) (v / 4096) 2 := by
  refine ⟨by omega, ?_⟩
  rw [Lead.ofByte, if_neg (by omega), if_neg (by omega), if_neg (by omega), if_neg (by omega),
    if_neg (by omega)]
  by_cases hfirst : v / 262144 = 0
  · refine ⟨0x90, 0xBF, ?_, by omega, by omega⟩
    rw [if_pos (by omega), hfirst]
  by_cases hlast : v / 262144 = 4
  · refine ⟨0x80, 0x8F, ?_, by omega, by omega⟩
    rw [if_neg (by omega), if_neg (by omega), if_pos (by omega), hlast]
  · refine ⟨0x80, 0xBF, ?_, by omega, by omega⟩
    rw [if_neg (by omega), if_pos (by omega), Nat.add_sub_cancel]

/-! ### Characters and texts -/

/-- A character in front of a text is its first unit. -/
theorem units_encodeChar (c : Char) (rest : List UInt8) :
    units (String.utf8EncodeChar c ++ rest) = some c :: units rest := by
  have hscalar : c.toNat < 0xD800 ∨ 0xDFFF < c.toNat ∧ c.toNat < 0x110000 := c.valid
  have hc : Char.ofNat c.toNat = c := Char.ofNat_toNat c
  have hval : c.val.toNat = c.toNat := rfl
  simp only [String.utf8EncodeChar, hval]
  generalize c.toNat = v at hscalar hc
  -- The cases are those of the encoding: one, two, three and four bytes.
  split
  · rw [List.singleton_append, units, unit_ascii (by omega), hc]
  split
  · have hb : (UInt8.ofNat (v / 64 % 0x20 + 0xC0)).toNat = v / 64 + 0xC0 := by
      simp only [UInt8.toNat_ofNat']
      omega
    have hread : continuation 0 (v / 64 * 64 + v % 64) rest = (some v, rest) := by
      have hsum : v / 64 * 64 + v % 64 = v := by omega
      rw [hsum, continuation]
    rw [← hc]
    exact units_of_announces (hb ▸ announces_two (by omega) (by omega)) hread
  split
  · have hb : (UInt8.ofNat (v / 4096 % 0x10 + 0xE0)).toNat = v / 4096 + 0xE0 := by
      simp only [UInt8.toNat_ofNat']
      omega
    have hread : continuation 1 (v / 4096 * 64 + v / 64 % 64)
        (UInt8.ofNat (v % 64 + 0x80) :: rest) = (some v, rest) := by
      have hsum : (v / 4096 * 64 + v / 64 % 64) * 64 + v % 64 = v := by omega
      rw [continuation_trailing, hsum, continuation]
    rw [← hc]
    exact units_of_announces (hb ▸ announces_three (by omega) (by omega) (by omega)) hread
  · have hb : (UInt8.ofNat (v / 262144 % 0x08 + 0xF0)).toNat = v / 262144 + 0xF0 := by
      simp only [UInt8.toNat_ofNat']
      omega
    have hread : continuation 2 (v / 262144 * 64 + v / 4096 % 64)
        (UInt8.ofNat (v / 64 % 64 + 0x80) :: UInt8.ofNat (v % 64 + 0x80) :: rest) =
        (some v, rest) := by
      have hsum : ((v / 262144 * 64 + v / 4096 % 64) * 64 + v / 64 % 64) * 64 + v % 64 = v := by
        omega
      rw [continuation_trailing, continuation_trailing, hsum, continuation]
    rw [← hc]
    exact units_of_announces (hb ▸ announces_four (by omega) (by omega)) hread

theorem units_encode (s : List Char) : units (encode s) = s.map some := by
  induction s with
  | nil => rw [encode_nil, units, List.map_nil]
  | cons c s ih => rw [encode_cons, units_encodeChar, ih, List.map_cons]

/-- Decoding takes back what encoding made. -/
theorem decode_encode (s : List Char) : decode (encode s) = some s := by
  rw [decode, units_encode, List.mapM_map]
  simpa using List.mapM_pure (m := Option) (f := id) (l := s)

/-! ### What a unit was made of -/

/-- Trailing bytes that were read stand for six bits each. -/
theorem continuation_eq_some {n bits v : Nat} {bs rest : List UInt8}
    (h : continuation (n + 1) bits bs = (some v, rest)) :
    ∃ x < 64, ∃ tail, bs = UInt8.ofNat (x + 0x80) :: tail ∧
      continuation n (bits * 64 + x) tail = (some v, rest) := by
  cases bs with
  | nil => cases h
  | cons b tail =>
    rw [continuation] at h
    split at h
    · refine ⟨b.toNat - 0x80, by omega, tail, ?_, h⟩
      have hb : b.toNat - 0x80 + 0x80 = b.toNat := by omega
      rw [hb, UInt8.ofNat_toNat]
    · cases h

/-- Scalar values are the values of characters. -/
theorem val_ofNat {v : Nat} (h : v < 0xD800 ∨ 0xE000 ≤ v ∧ v < 0x110000) :
    (Char.ofNat v).val.toNat = v := by
  have hv : v.isValidChar := by
    simp only [Nat.isValidChar]
    omega
  rw [Char.ofNat, dif_pos hv]
  rfl

theorem encodeChar_of_ascii {v : Nat} (h : v < 0x80) :
    String.utf8EncodeChar (Char.ofNat v) = [UInt8.ofNat v] := by
  simp only [String.utf8EncodeChar, val_ofNat (.inl (by omega) : v < 0xD800 ∨ _)]
  rw [if_pos (by omega)]

theorem encodeChar_of_two {bits x : Nat} (h : 2 ≤ bits ∧ bits < 0x20) (hx : x < 64) :
    String.utf8EncodeChar (Char.ofNat (bits * 64 + x)) =
      [UInt8.ofNat (bits + 0xC0), UInt8.ofNat (x + 0x80)] := by
  simp only [String.utf8EncodeChar,
    val_ofNat (.inl (by omega) : bits * 64 + x < 0xD800 ∨ _)]
  have hbits : (bits * 64 + x) / 64 % 0x20 = bits := by omega
  have hx' : (bits * 64 + x) % 64 = x := by omega
  rw [if_neg (by omega), if_pos (by omega), hbits, hx']

theorem encodeChar_of_three {bits x y : Nat} (h : bits < 0x10) (hx : x < 64) (hy : y < 64)
    (low : bits = 0 → 0x20 ≤ x) (high : bits = 0xD → x < 0x20) :
    String.utf8EncodeChar (Char.ofNat ((bits * 64 + x) * 64 + y)) =
      [UInt8.ofNat (bits + 0xE0), UInt8.ofNat (x + 0x80), UInt8.ofNat (y + 0x80)] := by
  have hscalar : (bits * 64 + x) * 64 + y < 0xD800 ∨
      0xE000 ≤ (bits * 64 + x) * 64 + y ∧ (bits * 64 + x) * 64 + y < 0x110000 := by omega
  simp only [String.utf8EncodeChar, val_ofNat hscalar]
  have hbits : ((bits * 64 + x) * 64 + y) / 4096 % 0x10 = bits := by omega
  have hx' : ((bits * 64 + x) * 64 + y) / 64 % 64 = x := by omega
  have hy' : ((bits * 64 + x) * 64 + y) % 64 = y := by omega
  rw [if_neg (by omega), if_neg (by omega), if_pos (by omega), hbits, hx', hy']

theorem encodeChar_of_four {bits x y z : Nat} (h : bits ≤ 4) (hx : x < 64) (hy : y < 64)
    (hz : z < 64) (low : bits = 0 → 0x10 ≤ x) (high : bits = 4 → x < 0x10) :
    String.utf8EncodeChar (Char.ofNat (((bits * 64 + x) * 64 + y) * 64 + z)) =
      [UInt8.ofNat (bits + 0xF0), UInt8.ofNat (x + 0x80), UInt8.ofNat (y + 0x80),
        UInt8.ofNat (z + 0x80)] := by
  have hscalar : ((bits * 64 + x) * 64 + y) * 64 + z < 0xD800 ∨
      0xE000 ≤ ((bits * 64 + x) * 64 + y) * 64 + z ∧
        ((bits * 64 + x) * 64 + y) * 64 + z < 0x110000 := by omega
  simp only [String.utf8EncodeChar, val_ofNat hscalar]
  have hbits : (((bits * 64 + x) * 64 + y) * 64 + z) / 262144 % 0x08 = bits := by omega
  have hx' : (((bits * 64 + x) * 64 + y) * 64 + z) / 4096 % 64 = x := by omega
  have hy' : (((bits * 64 + x) * 64 + y) * 64 + z) / 64 % 64 = y := by omega
  have hz' : (((bits * 64 + x) * 64 + y) * 64 + z) % 64 = z := by omega
  rw [if_neg (by omega), if_neg (by omega), if_neg (by omega), hbits, hx', hy', hz']

/-- What first bytes announce: the form with as many bytes, and what it admits for the second one.
-/
theorem Lead.ofByte_eq_some {b : Nat} {l : Lead} (h : Lead.ofByte b = some l) :
    0x80 ≤ l.low ∧ l.high ≤ 0xBF ∧
      (l.more = 0 ∧ b = l.bits + 0xC0 ∧ 2 ≤ l.bits ∧ l.bits < 0x20 ∨
      l.more = 1 ∧ b = l.bits + 0xE0 ∧ l.bits < 0x10 ∧ (l.bits = 0 → l.low = 0xA0) ∧
        (l.bits = 0xD → l.high = 0x9F) ∨
      l.more = 2 ∧ b = l.bits + 0xF0 ∧ l.bits ≤ 4 ∧ (l.bits = 0 → l.low = 0x90) ∧
        (l.bits = 4 → l.high = 0x8F)) := by
  rw [Lead.ofByte] at h
  repeat' split at h
  all_goals
    first
    | obtain rfl := Option.some.inj h
      dsimp only
      omega
    | exact absurd h (Option.some_ne_none l).symm

/-- Behind the two bytes at its head, what is left of a form is read up to its end. The forms have
two, three and four bytes. -/
theorem eq_encodeChar_append_of_continuation {b : UInt8} {l : Lead} {x v : Nat}
    {tail rest : List UInt8} (hlead : Lead.ofByte b.toNat = some l) (hx : x < 64)
    (hlow : l.low ≤ x + 0x80) (hhigh : x + 0x80 ≤ l.high)
    (h : continuation l.more (l.bits * 64 + x) tail = (some v, rest)) :
    b :: UInt8.ofNat (x + 0x80) :: tail = String.utf8EncodeChar (Char.ofNat v) ++ rest := by
  have hb : b = UInt8.ofNat b.toNat := UInt8.ofNat_toNat.symm
  obtain ⟨-, -, hforms⟩ := Lead.ofByte_eq_some hlead
  obtain ⟨hmore, hbyte, hbits⟩ | ⟨hmore, hbyte, hbits, hzero, hlast⟩ |
    ⟨hmore, hbyte, hbits, hzero, hlast⟩ := hforms
  · rw [hmore, continuation] at h
    cases h
    rw [hb, hbyte, encodeChar_of_two ⟨by omega, by omega⟩ hx]
    rfl
  · rw [hmore] at h
    obtain ⟨y, hy, tail, rfl, h'⟩ := continuation_eq_some h
    cases h'
    rw [hb, hbyte, encodeChar_of_three hbits hx hy (by omega) (by omega)]
    rfl
  · rw [hmore] at h
    obtain ⟨y, hy, tail, rfl, h'⟩ := continuation_eq_some h
    obtain ⟨z, hz, tail, rfl, h''⟩ := continuation_eq_some h'
    cases h''
    rw [hb, hbyte, encodeChar_of_four hbits hx hy hz (by omega) (by omega)]
    rfl

/-- A unit that is a character is the encoding of this character. -/
theorem eq_encodeChar_append_of_unit {b : UInt8} {rest rest' : List UInt8} {c : Char}
    (h : unit b rest = (some c, rest')) : b :: rest = String.utf8EncodeChar c ++ rest' := by
  unfold unit at h
  split at h
  · rename_i hb
    cases h
    rw [encodeChar_of_ascii hb, UInt8.ofNat_toNat, List.singleton_append]
  split at h
  · cases h
  · cases h
  · rename_i l second tail hlead
    split at h
    · rename_i hsecond
      obtain ⟨hlow, hhigh, -⟩ := Lead.ofByte_eq_some hlead
      obtain ⟨hread, hrest⟩ := Prod.mk.inj h
      obtain ⟨v, hv, rfl⟩ := Option.map_eq_some_iff.1 hread
      have hbyte : second.toNat - 0x80 + 0x80 = second.toNat := by omega
      have heq := eq_encodeChar_append_of_continuation hlead (by omega) (by omega) (by omega)
        (Prod.ext hv hrest)
      rwa [hbyte, UInt8.ofNat_toNat] at heq
    · cases h

theorem mapM_id_cons (u : Option Char) (us : List (Option Char)) :
    (u :: us).mapM id = u.bind fun c => (us.mapM id).map (c :: ·) := by
  cases u <;> cases h : us.mapM id <;> simp [List.mapM_cons, h]

/-- What decoding makes of bytes is encoded as these bytes. -/
theorem encode_of_decode {bs : List UInt8} {s : List Char} (h : decode bs = some s) :
    encode s = bs := by
  unfold decode at h
  induction bs using units.induct generalizing s with
  | case1 =>
    rw [units] at h
    cases h
    rfl
  | case2 b rest ih =>
    rw [units, mapM_id_cons] at h
    obtain ⟨c, hc, h⟩ := Option.bind_eq_some_iff.1 h
    obtain ⟨s', hs', rfl⟩ := Option.map_eq_some_iff.1 h
    rw [encode_cons, ih hs', ← eq_encodeChar_append_of_unit (Prod.ext hc rfl)]

theorem decode_eq_some_iff {bs : List UInt8} {s : List Char} :
    decode bs = some s ↔ encode s = bs :=
  ⟨encode_of_decode, fun h => h ▸ decode_encode s⟩

end ResourceApi.Text.Utf8
