import ResourceApi.Proofs.Text.Utf8
import ResourceApi.Text.Letter
import ResourceApi.Text.Percent

/-!
Percent encoding loses nothing and writes only the characters that it keeps and percent signs.
Hence a separator that is neither of them stands in no encoded text, and encoded texts that are
joined with it come apart again.
-/

namespace ResourceApi.Text.Percent

/-! ### Decoding -/

theorem bytes_of_ne {c : Char} (h : c ≠ '%') (rest : List Char) :
    bytes (c :: rest) = String.utf8EncodeChar c ++ bytes rest := by
  rw [bytes]
  intro a b more hc
  exact absurd hc h

theorem bytes_encodeByte (b : UInt8) (rest : List Char) :
    bytes (encodeByte b ++ rest) = b :: bytes rest := by
  have hb : b.toNat < 256 := b.toNat_lt
  have hhigh : Digit.value? (Digit.capital (b.toNat / 16)) = some (b.toNat / 16) :=
    Digit.value?_capital (by omega)
  have hlow : Digit.value? (Digit.capital (b.toNat % 16)) = some (b.toNat % 16) :=
    Digit.value?_capital (by omega)
  have hsum : 16 * (b.toNat / 16) + b.toNat % 16 = b.toNat := Nat.div_add_mod ..
  simp only [encodeByte, List.cons_append, List.nil_append, bytes, hhigh, hlow, hsum,
    UInt8.ofNat_toNat]

theorem bytes_flatMap_encodeByte (bs : List UInt8) (rest : List Char) :
    bytes (bs.flatMap encodeByte ++ rest) = bs ++ bytes rest := by
  induction bs with
  | nil => rfl
  | cons b bs ih => rw [List.flatMap_cons, List.append_assoc, bytes_encodeByte, ih,
      List.cons_append]

theorem bytes_encodeChar (c : Char) (rest : List Char) :
    bytes (encodeChar c ++ rest) = String.utf8EncodeChar c ++ bytes rest := by
  rw [encodeChar]
  split
  · rename_i hkept
    have hc : c ≠ '%' := by
      rintro rfl
      exact absurd hkept (by decide)
    exact bytes_of_ne hc rest
  · exact bytes_flatMap_encodeByte _ rest

theorem bytes_encode (s : List Char) : bytes (encode s) = Utf8.encode s := by
  induction s with
  | nil => rfl
  | cons c s ih => rw [encode_cons, bytes_encodeChar, ih, Utf8.encode_cons]

/-- Decoding takes back what encoding made. -/
theorem decode_encode (s : List Char) : decode (encode s) = some s := by
  rw [decode, bytes_encode, Utf8.decode_encode]

/-! ### Separators -/

/-- Characters that no encoded text contains. -/
def isSeparator (c : Char) : Bool := !kept c && c != '%'

theorem toNat_lt_of_kept {c : Char} (h : kept c = true) : c.toNat < 128 := by
  rcases Bool.or_eq_true_iff.1 h with halnum | hmark
  · exact toNat_lt_of_isAlphanum halnum
  · simp only [List.contains_eq_mem, List.mem_cons, List.not_mem_nil, or_false,
      decide_eq_true_eq] at hmark
    rcases hmark with rfl | rfl | rfl | rfl | rfl | rfl | rfl | rfl | rfl <;> decide

theorem kept_capital {n : Nat} (h : n < 16) : kept (Digit.capital n) = true := by
  have all : ∀ m : Fin 16, kept (Digit.capital m) = true := by decide
  exact all ⟨n, h⟩

theorem kept_of_mem_encodeByte {b : UInt8} {c : Char} (h : c ∈ encodeByte b) :
    c = '%' ∨ kept c = true := by
  have hb : b.toNat < 256 := b.toNat_lt
  simp only [encodeByte, List.mem_cons, List.not_mem_nil, or_false] at h
  rcases h with rfl | rfl | rfl
  · exact .inl rfl
  · exact .inr (kept_capital (by omega))
  · exact .inr (kept_capital (by omega))

theorem kept_of_mem_encode {s : List Char} {c : Char} (h : c ∈ encode s) :
    c = '%' ∨ kept c = true := by
  obtain ⟨d, -, hc⟩ := List.mem_flatMap.1 h
  rw [encodeChar] at hc
  split at hc
  · rename_i hkept
    rw [List.mem_singleton.1 hc]
    exact .inr hkept
  · obtain ⟨b, -, hb⟩ := List.mem_flatMap.1 hc
    exact kept_of_mem_encodeByte hb

theorem not_mem_encode {sep : Char} (hsep : isSeparator sep = true) (s : List Char) :
    sep ∉ encode s := by
  intro h
  rcases kept_of_mem_encode h with rfl | hkept
  · exact absurd hsep (by decide)
  · simp [isSeparator, hkept] at hsep

theorem not_mem_encodeAll {sep : Char} (hsep : isSeparator sep = true) (hcomma : sep ≠ ',')
    (items : List (List Char)) : sep ∉ encodeAll items := by
  induction items with
  | nil => simp [encodeAll]
  | cons s items ih =>
    have hs := not_mem_encode hsep s
    cases items with
    | nil => simpa [encodeAll] using hs
    | cons t items =>
      rw [encodeAll] at ih ⊢
      rw [List.map_cons, List.map_cons, List.intercalate_cons_cons]
      simpa [hs, hcomma] using ih

/-- Items come apart at the commas between them, whatever they hold. -/
theorem splitOn_encodeAll {items : List (List Char)} (h : items ≠ []) :
    (encodeAll items).splitOn ',' = items.map encode := by
  refine List.splitOn_intercalate ',' ?_ (by simpa using h)
  intro l hl
  obtain ⟨s, -, rfl⟩ := List.mem_map.1 hl
  exact not_mem_encode (by decide) s

theorem mapM_map_encode {read : List Char → Option (List Char)}
    (hread : ∀ s, read (encode s) = some s) (items : List (List Char)) :
    (items.map encode).mapM read = some items := by
  have hinverse : read ∘ encode = some := funext hread
  rw [List.mapM_map, hinverse]
  simpa using List.mapM_pure (m := Option) (f := id) (l := items)

theorem mapM_decode_map_encode (items : List (List Char)) :
    (items.map encode).mapM decode = some items :=
  mapM_map_encode decode_encode items

end ResourceApi.Text.Percent
