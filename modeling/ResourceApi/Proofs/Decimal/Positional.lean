import ResourceApi.Decimal.Layout
import ResourceApi.Decimal.Reading

/-!
Decimals without a power of ten: digits, with a point and more digits or without, after a minus sign
or none. Whole numbers and doubles in the plain layout are written so, and every such text is a
numeral.
-/

namespace ResourceApi.Decimal

/-- At least one digit, and then perhaps a point and digits. -/
inductive IsUnsigned : List Char → Prop where
  | whole {ds : List Char} (hne : ds ≠ []) (hd : ∀ c ∈ ds, c.isDigit = true) : IsUnsigned ds
  | point {ds fs : List Char} (hne : ds ≠ []) (hd : ∀ c ∈ ds, c.isDigit = true)
      (hf : ∀ c ∈ fs, c.isDigit = true) : IsUnsigned (ds ++ '.' :: fs)

def IsPositional (s : List Char) : Prop := IsUnsigned s ∨ ∃ t, s = '-' :: t ∧ IsUnsigned t

theorem IsUnsigned.ne_nil {s : List Char} (h : IsUnsigned s) : s ≠ [] := by
  cases h with
  | whole hne _ => exact hne
  | point hne _ _ => simp

/-- A number without a sign has digits and points only. -/
theorem IsUnsigned.mem {s : List Char} (h : IsUnsigned s) {c : Char} (hc : c ∈ s) :
    c.isDigit = true ∨ c = '.' := by
  cases h with
  | whole _ hd => exact .inl (hd c hc)
  | point _ hd hf =>
    rcases List.mem_append.1 hc with hc | hc
    · exact .inl (hd c hc)
    · rcases List.mem_cons.1 hc with hc | hc
      · exact .inr hc
      · exact .inl (hf c hc)

theorem IsPositional.ne_nil {s : List Char} (h : IsPositional s) : s ≠ [] := by
  rcases h with h | ⟨t, rfl, _⟩
  · exact h.ne_nil
  · simp

/-- A positional number has digits, points and signs only. -/
theorem IsPositional.mem {s : List Char} (h : IsPositional s) {c : Char} (hc : c ∈ s) :
    c.isDigit = true ∨ c = '.' ∨ c = '-' := by
  rcases h with h | ⟨t, rfl, h⟩
  · exact (h.mem hc).imp_right .inl
  · rcases List.mem_cons.1 hc with hc | hc
    · exact .inr (.inr hc)
    · exact (h.mem hc).imp_right .inl

/-- A stretch of digits is taken up to the first character that is none. -/
theorem spanDigits_append {ds rest : List Char} (hd : ∀ c ∈ ds, c.isDigit = true)
    (hr : ∀ c ∈ rest.head?, c.isDigit = false) : spanDigits (ds ++ rest) = (ds, rest) := by
  rw [spanDigits, List.takeWhile_append_of_pos hd, List.dropWhile_append_of_pos hd]
  cases rest with
  | nil => simp
  | cons c rest => simp [hr c rfl]

theorem spanDigits_all {ds : List Char} (hd : ∀ c ∈ ds, c.isDigit = true) :
    spanDigits ds = (ds, []) := by
  have h : spanDigits (ds ++ []) = (ds, []) := spanDigits_append hd (by simp)
  simpa using h

/-! ### Every positional text is a numeral -/

/-- What is read after the sign. -/
theorem isSome_body {s : List Char} (h : IsUnsigned s) (negative : Bool) :
    ∃ whole fraction, (∀ t, readSign t = (negative, s) →
      Numeral.ofText? t = some ⟨negative, whole, fraction, 0⟩) := by
  cases h with
  | whole hne hd =>
    refine ⟨s, [], fun t ht => ?_⟩
    simp [Numeral.ofText?, ht, spanDigits_all hd, readExponent, hne]
  | @point ds fs hne hd hf =>
    have hspan : spanDigits (ds ++ '.' :: fs) = (ds, '.' :: fs) := spanDigits_append hd (by simp)
    refine ⟨ds, fs, fun t ht => ?_⟩
    simp [Numeral.ofText?, ht, hspan, spanDigits_all hf, readExponent, hne]

theorem readSign_of_isUnsigned {s : List Char} (h : IsUnsigned s) : readSign s = (false, s) := by
  cases s with
  | nil => rfl
  | cons c s =>
    have hc := h.mem (c := c) (by simp)
    have hplus : c ≠ '+' := by rintro rfl; revert hc; decide
    have hminus : c ≠ '-' := by rintro rfl; revert hc; decide
    unfold readSign
    split
    · rename_i heq; exact absurd (List.cons.inj heq).1 hplus
    · rename_i heq; exact absurd (List.cons.inj heq).1 hminus
    · rfl

/-- A positional number is read as a numeral. -/
theorem IsPositional.isNumeral {s : List Char} (h : IsPositional s) :
    (Numeral.ofText? s).isSome = true := by
  rcases h with h | ⟨t, rfl, h⟩
  · obtain ⟨whole, fraction, hread⟩ := isSome_body h false
    simp [hread s (readSign_of_isUnsigned h)]
  · obtain ⟨whole, fraction, hread⟩ := isSome_body h true
    simp [hread ('-' :: t) rfl]

/-! ### Whole numbers and plain doubles are positional -/

theorem isDigit_toDigits (n : Nat) : ∀ c ∈ Nat.toDigits 10 n, c.isDigit = true :=
  fun _ hc => Nat.isDigit_of_mem_toDigits (by decide) (by decide) hc

theorem isUnsigned_toDigits (n : Nat) : IsUnsigned (Nat.toDigits 10 n) :=
  .whole Nat.toDigits_ne_nil (isDigit_toDigits n)

theorem ofDigits_eq_ofDigitChars (n : Nat) (ds : List Char) :
    ofDigits n ds = Nat.ofDigitChars 10 ds n := by
  induction ds generalizing n with
  | nil => rw [ofDigits.eq_def, Nat.ofDigitChars_nil]
  | cons c ds ih =>
    rw [ofDigits.eq_def, Nat.ofDigitChars_cons]
    exact ih _

/-- The digits of a number are read as this number. -/
theorem ofDigits_toDigits (n : Nat) : ofDigits 0 (Nat.toDigits 10 n) = n := by
  rw [ofDigits_eq_ofDigitChars, Nat.ofDigitChars_ten_toDigits]

/-- No number but zero starts with a zero. -/
theorem head_toDigits {n : Nat} (h : 0 < n) : (Nat.toDigits 10 n).head? ≠ some '0' := by
  induction n using Nat.strongRecOn with
  | ind n ih =>
    by_cases hlt : n < 10
    · have all : ∀ m : Fin 10, 0 < m.val → m.val.digitChar ≠ '0' := by decide
      rw [Nat.toDigits_of_lt_base hlt]
      simpa using all ⟨n, hlt⟩ h
    · have hne : Nat.toDigits 10 (n / 10) ≠ [] := Nat.toDigits_ne_nil
      have hrest := ih (n / 10) (by omega) (by omega)
      rw [Nat.toDigits_of_base_le (by decide) (by omega)]
      cases hds : Nat.toDigits 10 (n / 10) with
      | nil => exact absurd hds hne
      | cons c ds => simpa [hds] using hrest

/-- A whole number is written positionally. -/
theorem isPositional_int (n : Int) : IsPositional (toString n).toList := by
  rw [Int.toString_eq_repr, Int.repr_eq_if]
  split
  · exact .inl (by simpa using isUnsigned_toDigits n.toNat)
  · exact .inr ⟨Nat.toDigits 10 (-n).toNat, by simp, isUnsigned_toDigits _⟩

theorem isDigit_replicate (n : Nat) : ∀ c ∈ List.replicate n '0', c.isDigit = true := by
  intro c hc
  rw [(List.mem_replicate.1 hc).2]
  decide

/-- Wherever the point falls among digits, the result is positional. -/
theorem isUnsigned_place {ds : List Char} (hne : ds ≠ []) (hd : ∀ c ∈ ds, c.isDigit = true)
    (e : Int) : IsUnsigned (plain.place ds e) := by
  have hz := isDigit_replicate
  have hpoint : plain.pointZero = false := rfl
  rw [Layout.place]
  by_cases he : e < 0
  · have hf : ∀ c ∈ List.replicate (-e - 1).toNat '0' ++ ds, c.isDigit = true := by
      intro c hc
      exact (List.mem_append.1 hc).elim (hz _ c) (hd c)
    rw [if_pos he]
    exact (.point (by simp) (hz 1) hf : IsUnsigned (['0'] ++ '.' :: _))
  rw [if_neg he]
  simp only [hpoint, Bool.false_eq_true, if_false, List.append_nil]
  by_cases hl : ds.length ≤ e.toNat + 1
  · rw [if_pos hl]
    refine .whole (by simp [hne]) fun c hc => ?_
    exact (List.mem_append.1 hc).elim (hd c) (hz _ c)
  · rw [if_neg hl]
    refine .point (by simp [hne]) (fun c hc => hd c (List.mem_of_mem_take hc)) fun c hc => ?_
    exact hd c (List.mem_of_mem_drop hc)

theorem isPositional_sign {t : List Char} (h : IsUnsigned t) (negative : Bool) :
    IsPositional ((if negative then ['-'] else []) ++ t) := by
  cases negative with
  | false => exact .inl h
  | true => exact .inr ⟨t, rfl, h⟩

/-- The plain layout of a finite double is positional. -/
theorem isPositional_plain {x : Binary64} (h : x.isFinite = true) :
    IsPositional (plain.write x) := by
  cases x with
  | finite s m q =>
    rw [Layout.write]
    split
    · exact isPositional_sign (.whole (by decide) (isDigit_replicate 1)) s
    · exact isPositional_sign (isUnsigned_place Nat.toDigits_ne_nil (isDigit_toDigits _) _) s
  | infinite s => simp [Binary64.isFinite] at h
  | nan => simp [Binary64.isFinite] at h

end ResourceApi.Decimal
