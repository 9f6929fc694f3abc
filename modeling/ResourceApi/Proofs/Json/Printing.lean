import ResourceApi.Proofs.Json.Doubles
import ResourceApi.Proofs.Json.Reading
import ResourceApi.Proofs.Ordered

/-!
Printed values are texts of the grammar, compact and indented. This takes whole numbers that a word
holds, objects with each key once, and a bounded nesting; of the doubles it only matters how they
are written. So a value whose doubles come back is read again as it was printed.
-/

namespace ResourceApi.Json

/-- What a value is that can be printed, for doubles of a kind. -/
inductive Fits (double : Decimal.Binary64 → Prop) : Nat → Json → Prop where
  | null {d : Nat} : Fits double d .null
  | bool {d : Nat} (b : Bool) : Fits double d (.bool b)
  | int {d : Nat} {n : Int} (hn : -0x8000000000000000 ≤ n ∧ n < 0x10000000000000000) :
      Fits double d (.int n)
  | double {d : Nat} {y : Decimal.Binary64} (hy : double y) : Fits double d (.double y)
  | string {d : Nat} (s : String) : Fits double d (.string s)
  | array {d : Nat} {vs : List Json} (h : ∀ v ∈ vs, Fits double d v) :
      Fits double (d + 1) (.array vs)
  | object {d : Nat} {ms : List (String × Json)} (hkeys : (Ordered.keys ms).Nodup)
      (h : ∀ m ∈ ms, Fits double d m.2) : Fits double (d + 1) (.object ms)

theorem Fits.mono {double double' : Decimal.Binary64 → Prop} {d d' : Nat} {v : Json}
    (h : Fits double d v) (hd : d ≤ d') (hdouble : ∀ y, double y → double' y) :
    Fits double' d' v := by
  induction h generalizing d' with
  | null => exact .null
  | bool b => exact .bool b
  | int hn => exact .int hn
  | double hy => exact .double (hdouble _ hy)
  | string s => exact .string s
  | array _ ih =>
    obtain ⟨d', rfl⟩ := Nat.exists_eq_add_one.2 (Nat.zero_lt_of_lt hd)
    exact .array fun v hv => ih v hv (Nat.le_of_succ_le_succ hd)
  | object hkeys _ ih =>
    obtain ⟨d', rfl⟩ := Nat.exists_eq_add_one.2 (Nat.zero_lt_of_lt hd)
    exact .object hkeys fun m hm => ih m hm (Nat.le_of_succ_le_succ hd)

/-! ### Whole numbers and strings -/

theorem spellsInt_toString {n : Int} (hn : -0x8000000000000000 ≤ n ∧ n < 0x10000000000000000) :
    SpellsInt (toString n).toList n := by
  have hwhole (k : Nat) : IsWhole (Nat.toDigits 10 k) := by
    rcases k.eq_zero_or_pos with rfl | hk
    · exact isWhole_zero
    · exact isWhole_toDigits hk
  rw [Int.toString_eq_repr, Int.repr_eq_if]
  split
  · have h := SpellsInt.natural (hwhole n.toNat) (by rw [Nat.ofDigitChars_ten_toDigits]; omega)
    rw [Nat.ofDigitChars_ten_toDigits, Int.toNat_of_nonneg ‹_›] at h
    simpa using h
  · have h := SpellsInt.negative (hwhole (-n).toNat) (by rw [Nat.ofDigitChars_ten_toDigits]; omega)
      (by rw [Nat.ofDigitChars_ten_toDigits]; omega)
    rw [Nat.ofDigitChars_ten_toDigits, Int.toNat_of_nonneg (by omega), Int.neg_neg] at h
    simpa using h

/-- A control is written with two zeros and its two hexadecimal digits. -/
theorem spellsChar_control {c : Char} (hc : c.toNat < 0x20) :
    SpellsChar ['\\', 'u', '0', '0', Text.Digit.small (c.toNat / 16),
      Text.Digit.small (c.toNat % 16)] c := by
  have hzero : IsHexDigit '0' 0 := .inl rfl
  have hhigh := isHexDigit_iff.2 (Text.Digit.value?_small (show c.toNat / 16 < 16 by omega))
  have hlow := isHexDigit_iff.2 (Text.Digit.value?_small (show c.toNat % 16 < 16 by omega))
  have hunit := SpellsUnit.intro hzero hzero hhigh hlow
  have hvalue : ((0 * 16 + 0) * 16 + c.toNat / 16) * 16 + c.toNat % 16 = c.toNat := by omega
  rw [hvalue] at hunit
  have h := SpellsChar.unit hunit (.inl (by omega))
  rwa [Char.ofNat_toNat] at h

theorem spellsChar_escapeChar (c : Char) : SpellsChar (escapeChar c) c := by
  unfold escapeChar
  split
  iterate 7 exact .escape (by decide)
  rename_i hquote hslash _ _ _ _ _
  split
  · exact spellsChar_control ‹_›
  · exact .plain (by omega) hquote hslash

/-- A string literal is written with escapes for what needs one. -/
theorem spellsString_render (s : String) : SpellsString (renderString s) s := by
  have hchars : ∀ cs : List Char, SpellsChars (cs.flatMap escapeChar) cs := by
    intro cs
    induction cs with
    | nil => exact .nil
    | cons c cs ih =>
      rw [List.flatMap_cons]
      exact .cons (spellsChar_escapeChar c) ih
  have h := SpellsString.intro (hchars s.toList)
  rwa [String.ofList_toList] at h

/-! ### Values -/

section

variable {double : Decimal.Numeral → Decimal.Binary64 → Prop} {d : Nat}

theorem isBlank_nil : IsBlank [] := nofun

theorem isBlank_newline (n : Nat) : IsBlank (newline n) := by
  intro c hc
  rcases List.mem_cons.1 hc with rfl | hc
  · decide
  · rw [(List.mem_replicate.1 hc).2]
    decide

theorem isBlank_space : IsBlank [' '] := by
  intro c hc
  rw [List.mem_singleton.1 hc]
  decide

/-- Items with the same blanks in front of each, and blanks behind the last one. -/
theorem spells_separated {a b : List Char} (ha : IsBlank a) (hb : IsBlank b)
    {text : Json → List Char} {v : Json} {vs : List Json}
    (h : ∀ w ∈ v :: vs, Spells double d (.value w) (text w)) :
    Spells double d (.items (v :: vs))
      (a ++ text v ++ vs.flatMap (fun w => ',' :: (a ++ text w)) ++ b) := by
  induction vs generalizing v with
  | nil =>
    rw [List.flatMap_nil, List.append_nil]
    exact .lastItem (.item ha (h v List.mem_cons_self) hb)
  | cons w vs ih =>
    obtain ⟨hv, hvs⟩ := List.forall_mem_cons.1 h
    have hitem := Spells.item ha hv isBlank_nil
    have hitems := Spells.moreItems hitem (ih hvs)
    simpa [List.flatMap_cons] using hitems

/-- Members with the same blanks in front of each key and each value, and blanks behind the last
one. -/
theorem spells_separated_members {a b c : List Char} (ha : IsBlank a) (hb : IsBlank b)
    (hc : IsBlank c) {text : Json → List Char} {m : String × Json} {ms : List (String × Json)}
    (h : ∀ n ∈ m :: ms, Spells double d (.value n.2) (text n.2)) :
    Spells double d (.members (m :: ms))
      (a ++ renderString m.1 ++ ':' :: (c ++ text m.2) ++
        ms.flatMap (fun n => ',' :: (a ++ renderString n.1 ++ ':' :: (c ++ text n.2))) ++ b) := by
  have hkey (k : String) := spellsString_render k
  induction ms generalizing m with
  | nil =>
    have hmember := Spells.member ha (hkey m.1) isBlank_nil
      (.item hc (h m List.mem_cons_self) hb)
    simpa using Spells.lastMember hmember
  | cons n ms ih =>
    obtain ⟨hm, hms⟩ := List.forall_mem_cons.1 h
    have hmember := Spells.member ha (hkey m.1) isBlank_nil (.item hc hm isBlank_nil)
    have hmembers := Spells.moreMembers hmember (ih hms)
    simpa [List.flatMap_cons] using hmembers

/-! ### Compact text -/

theorem renderItems_eq (vs : List Json) :
    renderItems vs = vs.flatMap fun w => ',' :: ([] ++ render w) := by
  induction vs with
  | nil => rfl
  | cons v vs ih => rw [renderItems, ih, List.flatMap_cons, List.nil_append]

theorem renderMembers_eq (ms : List (String × Json)) :
    renderMembers ms =
      ms.flatMap fun m => ',' :: ([] ++ renderString m.1 ++ ':' :: ([] ++ render m.2)) := by
  induction ms with
  | nil => rfl
  | cons m ms ih =>
    obtain ⟨k, v⟩ := m
    rw [renderMembers, ih, List.flatMap_cons]
    simp

/-- What is written for doubles of this kind is a text for them. -/
def IsWritten (double : Decimal.Numeral → Decimal.Binary64 → Prop) (y : Decimal.Binary64) : Prop :=
  WritesDouble double (number.write y) y

/-- Compact text, by cases of the value. -/
theorem spells_render {v : Json} (h : Fits (IsWritten double) d v) :
    Spells double d (.value v) (render v) := by
  induction h with
  | null => exact .null
  | bool b =>
    cases b with
    | true => exact .true
    | false => exact .false
  | int hn => exact .int (spellsInt_toString hn)
  | double hy =>
    obtain ⟨x, hx, hdouble⟩ := hy.numeral
    exact .double hx hy.noInt hdouble
  | string s => exact .string (spellsString_render s)
  | @array d vs _ ih =>
    cases vs with
    | nil => exact .noItems isBlank_nil
    | cons v vs =>
      have hitems := spells_separated isBlank_nil isBlank_nil ih
      rw [List.append_nil, ← renderItems_eq, List.nil_append] at hitems
      rw [render]
      exact .array hitems
  | @object d ms hkeys _ ih =>
    cases ms with
    | nil => exact .noMembers isBlank_nil
    | cons m ms =>
      have hmembers := spells_separated_members isBlank_nil isBlank_nil isBlank_nil ih
      rw [List.append_nil, ← renderMembers_eq, List.nil_append, List.nil_append] at hmembers
      have hobject := Spells.object hmembers
      rw [Ordered.ofPairs_eq_self hkeys] at hobject
      obtain ⟨k, v⟩ := m
      rw [render]
      simpa using hobject

/-! ### Indented text -/

theorem layOutItems_eq (n : Nat) (vs : List Json) :
    layOutItems n vs = vs.flatMap fun w => ',' :: (newline n ++ layOut n w) := by
  induction vs with
  | nil => rfl
  | cons v vs ih =>
    rw [layOutItems, ih, List.flatMap_cons]
    simp

theorem layOutMembers_eq (n : Nat) (ms : List (String × Json)) :
    layOutMembers n ms =
      ms.flatMap fun m =>
        ',' :: (newline n ++ renderString m.1 ++ ':' :: ([' '] ++ layOut n m.2)) := by
  induction ms with
  | nil => rfl
  | cons m ms ih =>
    obtain ⟨k, v⟩ := m
    rw [layOutMembers, ih, List.flatMap_cons]
    simp

/-- Indented text, by cases of the value. -/
theorem spells_layOut {v : Json} (h : Fits (IsWritten double) d v) (n : Nat) :
    Spells double d (.value v) (layOut n v) := by
  induction h generalizing n with
  | null => exact .null
  | bool b => exact spells_render (.bool b)
  | int hn => exact spells_render (.int hn)
  | double hy => exact spells_render (.double hy)
  | string s => exact spells_render (.string s)
  | @array d vs _ ih =>
    cases vs with
    | nil => exact .noItems isBlank_nil
    | cons v vs =>
      have hitems := spells_separated (isBlank_newline (n + 1)) (isBlank_newline n)
        fun w hw => ih w hw (n + 1)
      rw [← layOutItems_eq] at hitems
      rw [layOut]
      simpa using Spells.array hitems
  | @object d ms hkeys _ ih =>
    cases ms with
    | nil => exact .noMembers isBlank_nil
    | cons m ms =>
      have hmembers := spells_separated_members (isBlank_newline (n + 1)) (isBlank_newline n)
        isBlank_space fun w hw => ih w hw (n + 1)
      rw [← layOutMembers_eq] at hmembers
      have hobject := Spells.object hmembers
      rw [Ordered.ofPairs_eq_self hkeys] at hobject
      obtain ⟨k, v⟩ := m
      rw [layOut]
      simpa using hobject

end

/-! ### Whole texts -/

/-- A JSON text for the value, in which each double is the one nearest to its numeral. -/
def IsPrintOf (v : Json) (s : List Char) : Prop := Spells NearestDouble 127 (.item v) s

/-- Compact or indented, with the end of the last line, what is printed for a value is a text for
it. -/
theorem isPrintOf_printed {v : Json} (h : Fits Decimal.Binary64.IsKept 127 v) :
    IsPrintOf v (render v) ∧ IsPrintOf v (layOut 0 v ++ ['\n']) := by
  have hwritten := h.mono (Nat.le_refl _) fun _ hy => writesDouble_write hy
  constructor
  · have htext := Spells.item isBlank_nil (spells_render hwritten) isBlank_nil
    rwa [List.append_nil] at htext
  · exact .item isBlank_nil (spells_layOut hwritten 0) (isBlank_newline 0)

/-- A value whose doubles come back is read as it was printed, compact or indented. -/
theorem ofChars?_printed {v : Json} (h : Fits (IsWritten ReadsDouble) 127 v) :
    ofChars? (render v) = some v ∧ ofChars? (layOut 0 v ++ ['\n']) = some v := by
  constructor
  · have htext := Spells.item isBlank_nil (spells_render h) isBlank_nil
    rw [List.append_nil] at htext
    exact ofChars?_eq_some_iff.2 htext
  · exact ofChars?_eq_some_iff.2 (.item isBlank_nil (spells_layOut h 0) (isBlank_newline 0))

end ResourceApi.Json
