import ResourceApi.Proofs.Json.Numbers
import ResourceApi.Proofs.Json.Strings

/-!
JSON texts are read exactly. A text is read if and only if it is one by the grammar, and as the
value that the grammar gives it; so a text has one value at most. The reading skips blanks in front
of what it reads and leaves those behind it.
-/

namespace ResourceApi.Json

/-! ### Blanks -/

namespace Source

theorem isSpace_iff {c : Char} : isSpace c = true ↔ c ∈ [' ', '\t', '\n', '\r'] := by
  simp [isSpace, or_assoc]

theorem skip_append {b : List Char} (hb : IsBlank b) (s : List Char) : skip (b ++ s) = skip s :=
  List.dropWhile_append_of_pos fun c hc => isSpace_iff.2 (hb c hc)

theorem skip_of_head {s : List Char} (h : ∀ c ∈ s.head?, isSpace c = false) : skip s = s := by
  cases s with
  | nil => rfl
  | cons c s => exact List.dropWhile_cons_of_neg (by simp [h c rfl])

theorem exists_eq_append_skip (s : List Char) : ∃ b, s = b ++ skip s ∧ IsBlank b := by
  refine ⟨s.takeWhile isSpace, List.takeWhile_append_dropWhile.symm, fun c hc => isSpace_iff.1 ?_⟩
  exact List.all_eq_true.1 List.all_takeWhile c hc

theorem skip_skip (s : List Char) : skip (skip s) = skip s := by
  refine skip_of_head fun c hc => ?_
  have hstop := List.head?_dropWhile_not isSpace s
  rw [skip] at hc
  rwa [hc] at hstop

/-! ### What is read is the same behind blanks -/

theorem readValue_skip (n : Nat) (s : List Char) : readValue n (skip s) = readValue n s := by
  cases n with
  | zero => rfl
  | succ n => rw [readValue, readValue, skip_skip]

theorem readItems_skip (n : Nat) (s : List Char) : readItems n (skip s) = readItems n s := by
  cases n with
  | zero => rfl
  | succ n => rw [readItems, readItems, readValue_skip]

theorem readMembers_skip (n : Nat) (s : List Char) : readMembers n (skip s) = readMembers n s := by
  cases n with
  | zero => rfl
  | succ n => rw [readMembers, readMembers, skip_skip]

/-! ### Values of what is read -/

def value? (d : Nat) (x : Source) : Option Json := (x.json? d).map merged

def itemValues? (d : Nat) (xs : List Source) : Option (List Json) :=
  (jsonItems? d xs).map mergedItems

def memberValues? (d : Nat) (ms : List (List Piece × Source)) : Option (List (String × Json)) :=
  (jsonMembers? d ms).map mergedMembers

theorem value?_string (d : Nat) (ps : List Piece) :
    value? d (.string ps) = (Piece.string? ps).map .string := by
  rw [value?, json?, Option.map_map]
  rfl

theorem value?_number (d : Nat) (x : NumberText) : value? d (.number x) = x.json? := by
  rw [value?, json?, NumberText.json?]
  split
  · rfl
  split
  · rfl
  · rw [Option.map_map]
    rfl

theorem value?_array (d : Nat) (xs : List Source) :
    value? (d + 1) (.array xs) = (itemValues? d xs).map .array := by
  rw [value?, json?, if_neg (Nat.succ_ne_zero d), Nat.add_sub_cancel, itemValues?, Option.map_map,
    Option.map_map]
  rfl

theorem value?_object (d : Nat) (ms : List (List Piece × Source)) :
    value? (d + 1) (.object ms) =
      (memberValues? d ms).map fun ms => .object (Ordered.ofPairs ms) := by
  rw [value?, json?, if_neg (Nat.succ_ne_zero d), Nat.add_sub_cancel, memberValues?,
    Option.map_map, Option.map_map]
  rfl

theorem itemValues?_cons (d : Nat) (x : Source) (xs : List Source) :
    itemValues? d (x :: xs) = (value? d x).bind fun v => (itemValues? d xs).map (v :: ·) := by
  rw [itemValues?, jsonItems?, value?, itemValues?]
  cases json? d x <;> cases jsonItems? d xs <;> rfl

theorem itemValues?_cons_eq_some {d : Nat} {x : Source} {xs : List Source} {vs : List Json}
    (h : itemValues? d (x :: xs) = some vs) :
    ∃ v vs', value? d x = some v ∧ itemValues? d xs = some vs' ∧ vs = v :: vs' := by
  rw [itemValues?_cons] at h
  obtain ⟨v, hv, h⟩ := Option.bind_eq_some_iff.1 h
  obtain ⟨vs', hvs', rfl⟩ := Option.map_eq_some_iff.1 h
  exact ⟨v, vs', hv, hvs', rfl⟩

theorem memberValues?_cons (d : Nat) (k : List Piece) (x : Source)
    (ms : List (List Piece × Source)) : memberValues? d ((k, x) :: ms) =
      (Piece.string? k).bind fun k => (value? d x).bind fun v =>
        (memberValues? d ms).map ((k, v) :: ·) := by
  rw [memberValues?, jsonMembers?, value?, memberValues?]
  cases Piece.string? k <;> cases json? d x <;> cases jsonMembers? d ms <;> rfl

theorem memberValues?_cons_eq_some {d : Nat} {k : List Piece} {x : Source}
    {ms : List (List Piece × Source)} {vs : List (String × Json)}
    (h : memberValues? d ((k, x) :: ms) = some vs) :
    ∃ key v vs', Piece.string? k = some key ∧ value? d x = some v ∧
      memberValues? d ms = some vs' ∧ vs = (key, v) :: vs' := by
  rw [memberValues?_cons] at h
  obtain ⟨key, hkey, h⟩ := Option.bind_eq_some_iff.1 h
  obtain ⟨v, hv, h⟩ := Option.bind_eq_some_iff.1 h
  obtain ⟨vs', hvs', rfl⟩ := Option.map_eq_some_iff.1 h
  exact ⟨key, v, vs', hkey, hv, hvs', rfl⟩

/-! ### The two kinds of containers -/

theorem readValue_of_array {s u : List Char} (h : skip s = '[' :: u) (n : Nat) :
    readValue (n + 1) s = match skip u with
      | ']' :: rest => some (.array [], rest)
      | rest => (readItems n rest).map fun r => (.array r.1, r.2) := by
  rw [readValue, h]
  rfl

theorem readValue_of_object {s u : List Char} (h : skip s = '\x7b' :: u) (n : Nat) :
    readValue (n + 1) s = match skip u with
      | '\x7d' :: rest => some (.object [], rest)
      | rest => (readMembers n rest).map fun r => (.object r.1, r.2) := by
  rw [readValue, h]
  rfl

/-! ### What is read is spelled -/

/-- With so many steps, only values that are spelled are read. -/
def SpelledValues (n : Nat) : Prop := ∀ s rest x d v, readValue n s = some (x, rest) →
  value? d x = some v → ∃ b t, s = b ++ (t ++ rest) ∧ IsBlank b ∧ Spells ReadsDouble d (.value v) t

def SpelledItems (n : Nat) : Prop := ∀ s rest xs d vs, readItems n s = some (xs, rest) →
  itemValues? d xs = some vs → ∃ t, s = t ++ ']' :: rest ∧ Spells ReadsDouble d (.items vs) t

def SpelledMembers (n : Nat) : Prop := ∀ s rest ms d vs, readMembers n s = some (ms, rest) →
  memberValues? d ms = some vs →
    ∃ t, s = t ++ '\x7d' :: rest ∧ Spells ReadsDouble d (.members vs) t

/-- A number that is read stands for the value of its text. -/
theorem spells_of_isNumberOf {d : Nat} {t : List Char} {x : Decimal.Numeral} {v : Json}
    (hx : SpellsNumeral t x) (h : IsNumberOf t x v) : Spells ReadsDouble d (.value v) t := by
  obtain ⟨n, hn, rfl⟩ | ⟨hint, y, hy, rfl⟩ := h
  · exact .int hn
  · exact .double hx hint hy

theorem spells_of_readArray {n d : Nat} {s u rest : List Char} {x : Source} {v : Json}
    (hitems : SpelledItems n) (hskip : skip s = '[' :: u)
    (h : readValue (n + 1) s = some (x, rest)) (hv : value? d x = some v) :
    ∃ t, skip s = t ++ rest ∧ Spells ReadsDouble d (.value v) t := by
  rw [readValue_of_array hskip] at h
  obtain ⟨b, hu, hb⟩ := exists_eq_append_skip u
  split at h
  · rename_i r hclose
    cases h
    cases d with
    | zero => cases hv
    | succ d =>
      cases hv
      exact ⟨'[' :: b ++ [']'], by rw [hskip, hu, hclose]; simp, .noItems hb⟩
  · obtain ⟨⟨xs, r⟩, hxs, h⟩ := Option.map_eq_some_iff.1 h
    cases h
    cases d with
    | zero => cases hv
    | succ d =>
      rw [readItems_skip] at hxs
      rw [value?_array] at hv
      obtain ⟨vs, hvs, rfl⟩ := Option.map_eq_some_iff.1 hv
      obtain ⟨t, rfl, ht⟩ := hitems _ _ _ _ _ hxs hvs
      exact ⟨'[' :: t ++ [']'], by simp [hskip], .array ht⟩

theorem spells_of_readObject {n d : Nat} {s u rest : List Char} {x : Source} {v : Json}
    (hmembers : SpelledMembers n) (hskip : skip s = '\x7b' :: u)
    (h : readValue (n + 1) s = some (x, rest)) (hv : value? d x = some v) :
    ∃ t, skip s = t ++ rest ∧ Spells ReadsDouble d (.value v) t := by
  rw [readValue_of_object hskip] at h
  obtain ⟨b, hu, hb⟩ := exists_eq_append_skip u
  split at h
  · rename_i r hclose
    cases h
    cases d with
    | zero => cases hv
    | succ d =>
      cases hv
      exact ⟨'\x7b' :: b ++ ['\x7d'], by rw [hskip, hu, hclose]; simp, .noMembers hb⟩
  · obtain ⟨⟨ms, r⟩, hms, h⟩ := Option.map_eq_some_iff.1 h
    cases h
    cases d with
    | zero => cases hv
    | succ d =>
      rw [readMembers_skip] at hms
      rw [value?_object] at hv
      obtain ⟨vs, hvs, rfl⟩ := Option.map_eq_some_iff.1 hv
      obtain ⟨t, rfl, ht⟩ := hmembers _ _ _ _ _ hms hvs
      exact ⟨'\x7b' :: t ++ ['\x7d'], by simp [hskip], .object ht⟩

theorem spelledValues_succ {n : Nat} (hitems : SpelledItems n) (hmembers : SpelledMembers n) :
    SpelledValues (n + 1) := by
  intro s rest x d v hread hv
  obtain ⟨b, hs, hb⟩ := exists_eq_append_skip s
  suffices ∃ t, skip s = t ++ rest ∧ Spells ReadsDouble d (.value v) t by
    obtain ⟨t, hskip, ht⟩ := this
    exact ⟨b, t, hskip ▸ hs, hb, ht⟩
  have h := hread
  rw [readValue] at h
  -- The cases are those of the first characters behind the blanks.
  split at h
  · rename_i u hskip
    obtain ⟨⟨ps, r⟩, hps, h⟩ := Option.map_eq_some_iff.1 h
    cases h
    rw [value?_string] at hv
    obtain ⟨key, hkey, rfl⟩ := Option.map_eq_some_iff.1 hv
    obtain ⟨t, ht, hstring⟩ := spellsString_of_read hps hkey
    exact ⟨t, hskip.trans ht, .string hstring⟩
  · rename_i u hskip
    exact spells_of_readArray hitems hskip hread hv
  · rename_i u hskip
    exact spells_of_readObject hmembers hskip hread hv
  · rename_i hskip
    cases h
    cases hv
    exact ⟨['t', 'r', 'u', 'e'], hskip, .true⟩
  · rename_i hskip
    cases h
    cases hv
    exact ⟨['f', 'a', 'l', 's', 'e'], hskip, .false⟩
  · rename_i hskip
    cases h
    cases hv
    exact ⟨['n', 'u', 'l', 'l'], hskip, .null⟩
  · obtain ⟨⟨y, r⟩, hy, h⟩ := Option.map_eq_some_iff.1 h
    cases h
    rw [value?_number] at hv
    obtain ⟨t, z, hskip, hz, hmeans⟩ := spells_of_readNumber hy
    exact ⟨t, hskip, spells_of_isNumberOf hz ((hmeans v).1 hv)⟩

theorem spelledItems_succ {n : Nat} (hvalues : SpelledValues n) (hitems : SpelledItems n) :
    SpelledItems (n + 1) := by
  intro s rest xs d vs h hvs
  rw [readItems, Option.bind_eq_bind, Option.bind_eq_some_iff] at h
  obtain ⟨⟨x, r⟩, hx, h⟩ := h
  obtain ⟨b', hr, hb'⟩ := exists_eq_append_skip r
  dsimp only at h
  split at h
  · rename_i r' hcomma
    obtain ⟨⟨xs', r''⟩, hxs, h⟩ := Option.map_eq_some_iff.1 h
    cases h
    obtain ⟨v, vs', hv, hvs', rfl⟩ := itemValues?_cons_eq_some hvs
    obtain ⟨b, t, rfl, hb, ht⟩ := hvalues _ _ _ _ _ hx hv
    obtain ⟨u, rfl, hu⟩ := hitems _ _ _ _ _ hxs hvs'
    exact ⟨b ++ t ++ b' ++ ',' :: u, by rw [hr, hcomma]; simp, .moreItems (.item hb ht hb') hu⟩
  · rename_i r' hclose
    cases h
    obtain ⟨v, _, hv, ⟨⟩, rfl⟩ := itemValues?_cons_eq_some hvs
    obtain ⟨b, t, rfl, hb, ht⟩ := hvalues _ _ _ _ _ hx hv
    exact ⟨b ++ t ++ b', by rw [hr, hclose]; simp, .lastItem (.item hb ht hb')⟩
  · cases h

theorem spelledMembers_succ {n : Nat} (hvalues : SpelledValues n) (hmembers : SpelledMembers n) :
    SpelledMembers (n + 1) := by
  intro s rest ms d vs h hvs
  obtain ⟨a, hs, ha⟩ := exists_eq_append_skip s
  rw [readMembers] at h
  split at h
  · rename_i u hquote
    rw [Option.bind_eq_bind, Option.bind_eq_some_iff] at h
    obtain ⟨⟨k, r⟩, hk, h⟩ := h
    obtain ⟨b, hr, hb⟩ := exists_eq_append_skip r
    dsimp only at h
    split at h
    · rename_i r' hcolon
      rw [Option.bind_eq_bind, Option.bind_eq_some_iff] at h
      obtain ⟨⟨x, r''⟩, hx, h⟩ := h
      obtain ⟨e, hr'', he⟩ := exists_eq_append_skip r''
      dsimp only at h
      generalize skip r'' = z at h hr''
      subst hr''
      -- The first member is spelled whether others follow it or not.
      have hmember : ∀ {key v}, Piece.string? k = some key → value? d x = some v →
          ∃ t, s = t ++ z ∧ Spells ReadsDouble d (.member (key, v)) t := by
        intro key v hkey hv
        obtain ⟨t, ht, hstring⟩ := spellsString_of_read hk hkey
        obtain ⟨c, w, rfl, hc, hw⟩ := hvalues _ _ _ _ _ hx hv
        refine ⟨a ++ t ++ b ++ ':' :: (c ++ w ++ e), ?_, .member ha hstring hb (.item hc hw he)⟩
        rw [hs, hquote, ht, hr, hcolon]
        simp
      split at h
      · rename_i r₃
        obtain ⟨⟨ms', r₁⟩, hms, h⟩ := Option.map_eq_some_iff.1 h
        cases h
        obtain ⟨key, v, vs', hkey, hv, hvs', rfl⟩ := memberValues?_cons_eq_some hvs
        obtain ⟨t, hst, ht⟩ := hmember hkey hv
        obtain ⟨w, rfl, hw⟩ := hmembers _ _ _ _ _ hms hvs'
        exact ⟨t ++ ',' :: w, by rw [hst]; simp, .moreMembers ht hw⟩
      · rename_i r₃
        cases h
        obtain ⟨key, v, _, hkey, hv, ⟨⟩, rfl⟩ := memberValues?_cons_eq_some hvs
        obtain ⟨t, hst, ht⟩ := hmember hkey hv
        exact ⟨t, hst, .lastMember ht⟩
      · cases h
    · cases h
  · cases h

/-- Whatever is read in some steps is spelled, by induction on the steps. -/
theorem spelled_of_steps (n : Nat) : SpelledValues n ∧ SpelledItems n ∧ SpelledMembers n := by
  induction n with
  | zero => exact ⟨nofun, nofun, nofun⟩
  | succ n ih =>
    obtain ⟨hvalues, hitems, hmembers⟩ := ih
    exact ⟨spelledValues_succ hitems hmembers, spelledItems_succ hvalues hitems,
      spelledMembers_succ hvalues hmembers⟩

/-! ### What is spelled is read -/

/-- What may follow an item: the end of the text, a comma or a closing bracket. -/
def EndsItem (s : List Char) : Prop := ∀ c ∈ s.head?, c ∈ [',', ']', '\x7d']

theorem EndsItem.skip {s : List Char} (h : EndsItem s) : skip s = s := by
  refine skip_of_head fun c hc => ?_
  have hmem := h c hc
  simp only [List.mem_cons, List.not_mem_nil, or_false] at hmem
  rcases hmem with rfl | rfl | rfl <;> rfl

theorem EndsItem.endsNumber {s : List Char} (h : EndsItem s) : EndsNumber s := by
  intro c hc
  have hmem := h c hc
  simp only [List.mem_cons, List.not_mem_nil, or_false] at hmem
  rcases hmem with rfl | rfl | rfl <;> decide

theorem EndsItem.endsNumber_append {b s : List Char} (hb : IsBlank b) (h : EndsItem s) :
    EndsNumber (b ++ s) := by
  cases b with
  | nil => exact h.endsNumber
  | cons c b =>
    rintro _ ⟨⟩
    have hmem := hb c List.mem_cons_self
    simp only [List.mem_cons, List.not_mem_nil, or_false] at hmem
    rcases hmem with rfl | rfl | rfl | rfl <;> decide

/-- A phrase is read in front of what may follow it, with two steps for each of its characters. -/
def IsRead (d : Nat) : Phrase → List Char → Prop
  | .value v, t => ∀ n s, 2 * t.length ≤ n → EndsNumber s →
      ∃ x, readValue n (t ++ s) = some (x, s) ∧ value? d x = some v
  | .item v, t => ∀ n s, 2 * t.length ≤ n → EndsItem s →
      ∃ x r, readValue n (t ++ s) = some (x, r) ∧ skip r = s ∧ value? d x = some v
  | .items vs, t => ∀ n s, 2 * t.length < n →
      ∃ xs, readItems n (t ++ ']' :: s) = some (xs, s) ∧ itemValues? d xs = some vs
  | .member (key, v), t => ∀ n s, 2 * t.length ≤ n → EndsItem s →
      ∃ u k r r' x r'', skip (t ++ s) = '"' :: u ∧ readPieces u = some (k, r) ∧
        skip r = ':' :: r' ∧ readValue n r' = some (x, r'') ∧ skip r'' = s ∧
        Piece.string? k = some key ∧ value? d x = some v
  | .members vs, t => ∀ n s, 2 * t.length < n →
      ∃ ms, readMembers n (t ++ '\x7d' :: s) = some (ms, s) ∧ memberValues? d ms = some vs

theorem readValue_of_number {c : Char} (hc : c = '-' ∨ c.isDigit = true) (n : Nat)
    (s : List Char) : readValue (n + 1) (c :: s) =
      (readNumber (c :: s)).map fun r => (.number r.1, r.2) := by
  have hskip : skip (c :: s) = c :: s := by
    refine skip_of_head ?_
    rintro _ ⟨⟩
    rw [Bool.eq_false_iff, ne_eq, isSpace_iff]
    intro hmem
    simp only [List.mem_cons, List.not_mem_nil, or_false] at hmem
    rcases hmem with rfl | rfl | rfl | rfl <;> simp at hc
  rw [readValue, hskip]
  split
  -- None of the other values begins so.
  iterate 6
    rename_i heq
    cases heq
    simp at hc
  rfl

theorem SpellsNumeral.exists_eq_cons {t : List Char} {x : Decimal.Numeral}
    (h : SpellsNumeral t x) : ∃ c u, t = c :: u ∧ (c = '-' ∨ c.isDigit = true) := by
  cases h with
  | intro negative hw ht hu =>
    cases negative with
    | true => exact ⟨'-', _, rfl, .inl rfl⟩
    | false =>
      obtain ⟨c, whole, rfl⟩ := List.exists_cons_of_ne_nil hw.1.1
      exact ⟨c, _, rfl, .inr (hw.1.2 c List.mem_cons_self)⟩

theorem isRead_number {d : Nat} {t : List Char} {x : Decimal.Numeral} {v : Json}
    (hx : SpellsNumeral t x) (h : IsNumberOf t x v) : IsRead d (.value v) t := by
  intro n s hn hs
  obtain ⟨y, hy, hmeans⟩ := readNumber_append hx hs
  obtain ⟨c, u, rfl, hc⟩ := SpellsNumeral.exists_eq_cons hx
  obtain ⟨n, rfl⟩ : ∃ m, n = m + 1 := Nat.exists_eq_add_one.2 (Nat.lt_of_lt_of_le (by simp) hn)
  refine ⟨.number y, ?_, by rw [value?_number, (hmeans v).2 h]⟩
  rw [List.cons_append] at hy ⊢
  rw [readValue_of_number hc, hy, Option.map_some]

theorem isRead_string {d : Nat} {t : List Char} {key : String} (h : SpellsString t key) :
    IsRead d (.value (.string key)) t := by
  intro n s hn _
  obtain ⟨u, ps, ht, hps, hkey⟩ := readString_of_spells (s := s) h
  obtain ⟨n, rfl⟩ : ∃ m, n = m + 1 := by
    refine Nat.exists_eq_add_one.2 (Nat.lt_of_lt_of_le ?_ hn)
    cases h
    simp
  have hskip : skip ('"' :: u) = '"' :: u := rfl
  refine ⟨.string ps, ?_, by rw [value?_string, hkey, Option.map_some]⟩
  rw [ht, readValue, hskip]
  simp only [hps, Option.map_some]

/-- A closing bracket is no item. -/
theorem readItems_of_close {s r : List Char} (h : skip s = ']' :: r) (n : Nat) :
    readItems n s = none := by
  match n with
  | 0 => rfl
  | 1 => rfl
  | n + 2 =>
    rw [readItems, readValue, h]
    rfl

/-- A comma must not stand in front of a closing brace. -/
theorem readMembers_of_close {s r : List Char} (h : skip s = '\x7d' :: r) (n : Nat) :
    readMembers n s = none := by
  cases n with
  | zero => rfl
  | succ n =>
    rw [readMembers, h]
    rfl

theorem isRead_noItems {d : Nat} {b : List Char} (hb : IsBlank b) :
    IsRead (d + 1) (.value (.array [])) ('[' :: b ++ [']']) := by
  intro n s hn _
  obtain ⟨n, rfl⟩ : ∃ m, n = m + 1 := Nat.exists_eq_add_one.2 (Nat.lt_of_lt_of_le (by simp) hn)
  have htext : '[' :: b ++ [']'] ++ s = '[' :: (b ++ ']' :: s) := by simp
  have hclose : skip (b ++ ']' :: s) = ']' :: s := skip_append hb _
  refine ⟨.array [], ?_, rfl⟩
  rw [htext, readValue_of_array rfl, hclose]
  rfl

theorem isRead_array {d : Nat} {t : List Char} {vs : List Json} (h : IsRead d (.items vs) t) :
    IsRead (d + 1) (.value (.array vs)) ('[' :: t ++ [']']) := by
  intro n s hn _
  obtain ⟨n, rfl⟩ : ∃ m, n = m + 1 := Nat.exists_eq_add_one.2 (Nat.lt_of_lt_of_le (by simp) hn)
  simp only [List.length_append, List.length_cons, List.length_nil] at hn
  obtain ⟨xs, hxs, hvs⟩ := h n s (by omega)
  have htext : '[' :: t ++ [']'] ++ s = '[' :: (t ++ ']' :: s) := by simp
  refine ⟨.array xs, ?_, by rw [value?_array, hvs, Option.map_some]⟩
  rw [htext, readValue_of_array rfl]
  split
  · rename_i hclose
    rw [readItems_of_close hclose] at hxs
    cases hxs
  · rw [readItems_skip, hxs, Option.map_some]

theorem isRead_noMembers {d : Nat} {b : List Char} (hb : IsBlank b) :
    IsRead (d + 1) (.value (.object [])) ('\x7b' :: b ++ ['\x7d']) := by
  intro n s hn _
  obtain ⟨n, rfl⟩ : ∃ m, n = m + 1 := Nat.exists_eq_add_one.2 (Nat.lt_of_lt_of_le (by simp) hn)
  have htext : '\x7b' :: b ++ ['\x7d'] ++ s = '\x7b' :: (b ++ '\x7d' :: s) := by simp
  have hclose : skip (b ++ '\x7d' :: s) = '\x7d' :: s := skip_append hb _
  refine ⟨.object [], ?_, rfl⟩
  rw [htext, readValue_of_object rfl, hclose]
  rfl

theorem isRead_object {d : Nat} {t : List Char} {ms : List (String × Json)}
    (h : IsRead d (.members ms) t) :
    IsRead (d + 1) (.value (.object (Ordered.ofPairs ms))) ('\x7b' :: t ++ ['\x7d']) := by
  intro n s hn _
  obtain ⟨n, rfl⟩ : ∃ m, n = m + 1 := Nat.exists_eq_add_one.2 (Nat.lt_of_lt_of_le (by simp) hn)
  simp only [List.length_append, List.length_cons, List.length_nil] at hn
  obtain ⟨xs, hxs, hvs⟩ := h n s (by omega)
  have htext : '\x7b' :: t ++ ['\x7d'] ++ s = '\x7b' :: (t ++ '\x7d' :: s) := by simp
  refine ⟨.object xs, ?_, by rw [value?_object, hvs, Option.map_some]⟩
  rw [htext, readValue_of_object rfl]
  split
  · rename_i hclose
    rw [readMembers_of_close hclose] at hxs
    cases hxs
  · rw [readMembers_skip, hxs, Option.map_some]

theorem isRead_item {d : Nat} {a t b : List Char} {v : Json} (ha : IsBlank a)
    (h : IsRead d (.value v) t) (hb : IsBlank b) : IsRead d (.item v) (a ++ t ++ b) := by
  intro n s hn hs
  simp only [List.length_append] at hn
  obtain ⟨x, hx, hv⟩ := h n (b ++ s) (by omega) (hs.endsNumber_append hb)
  refine ⟨x, b ++ s, ?_, by rw [skip_append hb, hs.skip], hv⟩
  rw [← readValue_skip, List.append_assoc, List.append_assoc, skip_append ha, readValue_skip, hx]

theorem isRead_lastItem {d : Nat} {t : List Char} {v : Json} (h : IsRead d (.item v) t) :
    IsRead d (.items [v]) t := by
  intro n s hn
  obtain ⟨n, rfl⟩ : ∃ m, n = m + 1 := Nat.exists_eq_add_one.2 (Nat.zero_lt_of_lt hn)
  obtain ⟨x, r, hx, hskip, hv⟩ := h n (']' :: s) (by omega) (by simp [EndsItem])
  refine ⟨[x], ?_, by rw [itemValues?_cons, hv]; rfl⟩
  rw [readItems, hx]
  simp only [Option.bind_eq_bind, Option.bind_some, hskip]

/-- Items are read one after the other, up to the bracket. -/
theorem isRead_moreItems {d : Nat} {t rest : List Char} {v : Json} {vs : List Json}
    (h : IsRead d (.item v) t) (hs : IsRead d (.items vs) rest) :
    IsRead d (.items (v :: vs)) (t ++ ',' :: rest) := by
  intro n s hn
  obtain ⟨n, rfl⟩ : ∃ m, n = m + 1 := Nat.exists_eq_add_one.2 (Nat.zero_lt_of_lt hn)
  simp only [List.length_append, List.length_cons] at hn
  obtain ⟨x, r, hx, hskip, hv⟩ := h n (',' :: (rest ++ ']' :: s)) (by omega) (by simp [EndsItem])
  obtain ⟨xs, hxs, hvs⟩ := hs n s (by omega)
  refine ⟨x :: xs, ?_, by rw [itemValues?_cons, hv, hvs]; rfl⟩
  rw [List.append_assoc, List.cons_append, readItems, hx]
  simp only [Option.bind_eq_bind, Option.bind_some, hskip, hxs, Option.map_some]

theorem isRead_member {d : Nat} {a k b t : List Char} {key : String} {v : Json} (ha : IsBlank a)
    (hk : SpellsString k key) (hb : IsBlank b) (h : IsRead d (.item v) t) :
    IsRead d (.member (key, v)) (a ++ k ++ b ++ ':' :: t) := by
  intro n s hn hs
  simp only [List.length_append, List.length_cons] at hn
  obtain ⟨x, r, hx, hskip, hv⟩ := h n s (by omega) hs
  obtain ⟨u, ps, hu, hps, hkey⟩ := readString_of_spells (s := b ++ ':' :: (t ++ s)) hk
  refine ⟨u, ps, _, t ++ s, x, r, ?_, hps, ?_, hx, hskip, hkey, hv⟩
  · have htext : a ++ k ++ b ++ ':' :: t ++ s = a ++ '"' :: u := by
      rw [← hu]
      simp
    rw [htext, skip_append ha]
    rfl
  · rw [skip_append hb]
    rfl

theorem isRead_lastMember {d : Nat} {t : List Char} {m : String × Json}
    (h : IsRead d (.member m) t) : IsRead d (.members [m]) t := by
  intro n s hn
  obtain ⟨n, rfl⟩ : ∃ m, n = m + 1 := Nat.exists_eq_add_one.2 (Nat.zero_lt_of_lt hn)
  obtain ⟨u, k, r, r', x, r'', hquote, hk, hcolon, hx, hskip, hkey, hv⟩ :=
    h n ('\x7d' :: s) (by omega) (by simp [EndsItem])
  refine ⟨[(k, x)], ?_, by rw [memberValues?_cons, hkey, hv]; rfl⟩
  rw [readMembers, hquote]
  simp only [Option.bind_eq_bind, Option.bind_some, hk, hcolon, hx, hskip]

theorem isRead_moreMembers {d : Nat} {t rest : List Char} {m : String × Json}
    {ms : List (String × Json)} (h : IsRead d (.member m) t) (hs : IsRead d (.members ms) rest) :
    IsRead d (.members (m :: ms)) (t ++ ',' :: rest) := by
  intro n s hn
  obtain ⟨n, rfl⟩ : ∃ m, n = m + 1 := Nat.exists_eq_add_one.2 (Nat.zero_lt_of_lt hn)
  simp only [List.length_append, List.length_cons] at hn
  obtain ⟨u, k, r, r', x, r'', hquote, hk, hcolon, hx, hskip, hkey, hv⟩ :=
    h n (',' :: (rest ++ '\x7d' :: s)) (by omega) (by simp [EndsItem])
  obtain ⟨xs, hxs, hvs⟩ := hs n s (by omega)
  refine ⟨(k, x) :: xs, ?_, by rw [memberValues?_cons, hkey, hv, hvs]; rfl⟩
  rw [List.append_assoc, List.cons_append, readMembers, hquote]
  simp only [Option.bind_eq_bind, Option.bind_some, hk, hcolon, hx, hskip, hxs, Option.map_some]

theorem SpellsInt.exists_numeral {t : List Char} {n : Int} (h : SpellsInt t n) :
    ∃ x, SpellsNumeral t x := by
  cases h with
  | natural h _ =>
    have hx := SpellsNumeral.intro false h .absent .absent
    exact ⟨_, by simpa using hx⟩
  | negative h _ _ =>
    have hx := SpellsNumeral.intro true h .absent .absent
    exact ⟨_, by simpa using hx⟩

/-- Whatever is spelled is read, by induction on the grammar. -/
theorem isRead_of_spells {d : Nat} {p : Phrase} {t : List Char} (h : Spells ReadsDouble d p t) :
    IsRead d p t := by
  have hsteps {n k : Nat} (hn : 2 * (k + 1) ≤ n) : ∃ m, n = m + 1 :=
    Nat.exists_eq_add_one.2 (by omega)
  induction h with
  | null =>
    intro n s hn _
    obtain ⟨n, rfl⟩ := hsteps hn
    exact ⟨.null, rfl, rfl⟩
  | true =>
    intro n s hn _
    obtain ⟨n, rfl⟩ := hsteps hn
    exact ⟨.bool true, rfl, rfl⟩
  | false =>
    intro n s hn _
    obtain ⟨n, rfl⟩ := hsteps hn
    exact ⟨.bool false, rfl, rfl⟩
  | int h =>
    obtain ⟨x, hx⟩ := SpellsInt.exists_numeral h
    exact isRead_number hx (.inl ⟨_, h, rfl⟩)
  | double hx hint hy => exact isRead_number hx (.inr ⟨hint, _, hy, rfl⟩)
  | string h => exact isRead_string h
  | noItems hb => exact isRead_noItems hb
  | array _ ih => exact isRead_array ih
  | noMembers hb => exact isRead_noMembers hb
  | object _ ih => exact isRead_object ih
  | item ha _ hb ih => exact isRead_item ha ih hb
  | lastItem _ ih => exact isRead_lastItem ih
  | moreItems _ _ ih ihs => exact isRead_moreItems ih ihs
  | member ha hk hb _ ih => exact isRead_member ha hk hb ih
  | lastMember _ ih => exact isRead_lastMember ih
  | moreMembers _ _ ih ihs => exact isRead_moreMembers ih ihs

end Source

/-! ### Whole texts -/

theorem value?_of_ofChars? (s : List Char) :
    ofChars? s = (Source.ofChars? s).bind (Source.value? 127) := by
  rw [ofChars?, Option.map_bind]
  rfl

/-- Exactly the texts of the grammar are read, each as its value. -/
theorem ofChars?_eq_some_iff {s : List Char} {v : Json} : ofChars? s = some v ↔ IsTextOf v s := by
  rw [value?_of_ofChars?]
  constructor
  · intro h
    obtain ⟨x, hx, hv⟩ := Option.bind_eq_some_iff.1 h
    rw [Source.ofChars?, Option.bind_eq_bind, Option.bind_eq_some_iff] at hx
    obtain ⟨⟨y, rest⟩, hread, hx⟩ := hx
    dsimp only at hx
    split at hx
    · rename_i hend
      cases hx
      obtain ⟨b, t, rfl, hb, ht⟩ := (Source.spelled_of_steps _).1 _ _ _ _ _ hread hv
      obtain ⟨e, hrest, he⟩ := Source.exists_eq_append_skip rest
      rw [List.isEmpty_iff.1 hend, List.append_nil] at hrest
      rw [hrest, ← List.append_assoc]
      exact .item hb ht he
    · cases hx
  · intro h
    obtain ⟨x, r, hread, hskip, hv⟩ :=
      Source.isRead_of_spells h (2 * s.length + 2) [] (by omega) (by simp [Source.EndsItem])
    rw [List.append_nil] at hread
    rw [Source.ofChars?, hread]
    simp [hskip, hv]

/-- A text is not read exactly if it has no value. -/
theorem ofChars?_eq_none_iff {s : List Char} : ofChars? s = none ↔ ¬∃ v, IsTextOf v s := by
  simp only [← ofChars?_eq_some_iff, Option.eq_none_iff_forall_ne_some, not_exists, ne_eq]

/-- Texts of values are read as these values, and nothing else is read. -/
theorem ofText?_eq_some_iff {s : String} {v : Json} :
    ofText? s = some v ↔ IsTextOf v s.toList := ofChars?_eq_some_iff

/-- Only what is a text of no value is refused. -/
theorem ofText?_eq_none_iff {s : String} :
    ofText? s = none ↔ ¬∃ v, IsTextOf v s.toList := ofChars?_eq_none_iff

/-- A text has one value at most. -/
theorem IsTextOf.unique {s : List Char} {v w : Json} (h : IsTextOf v s) (h' : IsTextOf w s) :
    v = w :=
  Option.some.inj ((ofChars?_eq_some_iff.2 h).symm.trans (ofChars?_eq_some_iff.2 h'))

end ResourceApi.Json
