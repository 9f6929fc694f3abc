import ResourceApi.Proofs.Manifest.TypeText

/-!
The reader of types ends on every text. What it takes off the front is never empty, so each of its
steps is left with less to read, and there are no more steps within each other than the text has
characters: a reader that may take more of them finds the same.
-/

namespace ResourceApi.Name

open Text

variable {s rest : List Char} {m n : Nat}

/-! ### What is left is shorter -/

theorem length_skipBlanks_le (s : List Char) : (skipBlanks s).length ≤ s.length :=
  (List.dropWhile_suffix _).length_le

theorem length_of_identifier? (h : identifier? s = some rest) : rest.length < s.length := by
  obtain ⟨w, hw, rfl⟩ := identifier?_sound h
  have hpos := (IsPath.one hw).length_pos
  rw [List.length_append]
  omega

theorem length_of_identifiers? (h : identifiers? n s = some rest) : rest.length < s.length := by
  obtain ⟨p, hp, rfl⟩ := identifiers?_sound h
  have hpos := hp.length_pos
  rw [List.length_append]
  omega

theorem Spells.length_pos {t : List Char} (h : Spells .type t) : 0 < t.length := by
  cases h with
  | plain hp => exact hp.length_pos
  | applied hp =>
    have hpos := hp.length_pos
    rw [List.length_append]
    omega

theorem length_of_type? (h : type? n s = some rest) : rest.length < s.length := by
  obtain ⟨t, b, ht, -, rfl⟩ := (type?_arguments?_sound n).1 s rest h
  have hpos := ht.length_pos
  simp only [List.length_append]
  omega

/-- Behind a sign that stands first but for blanks there is less than there was. -/
theorem length_of_skipBlanks {c : Char} {more : List Char} (h : skipBlanks s = c :: more) :
    (skipBlanks more).length < s.length := by
  have hs := length_skipBlanks_le s
  have hmore := length_skipBlanks_le more
  rw [h, List.length_cons] at hs
  omega

/-! ### More steps change nothing -/

theorem identifiers?_of_length_le_zero (h : s.length ≤ 0) (n : Nat) : identifiers? n s = none := by
  obtain rfl := List.length_eq_zero_iff.1 (Nat.le_zero.1 h)
  cases n <;> rfl

theorem type?_of_length_le_zero (h : s.length ≤ 0) (n : Nat) : type? n s = none := by
  cases n with
  | zero => rfl
  | succ n =>
    rw [type?, identifiers?_of_length_le_zero h]
    rfl

theorem identifiers?_congr (hm : s.length ≤ m) (hn : s.length ≤ n) :
    identifiers? m s = identifiers? n s := by
  induction m generalizing n s with
  | zero => rw [identifiers?_of_length_le_zero hm, identifiers?_of_length_le_zero hm]
  | succ m ih =>
    cases n with
    | zero => rw [identifiers?_of_length_le_zero hn, identifiers?_of_length_le_zero hn]
    | succ n =>
      rw [identifiers?, identifiers?]
      split
      · rename_i more hword
        have hmore := length_of_identifier? hword
        simp only [List.length_cons] at hmore
        exact ih (by omega) (by omega)
      · rfl

/-- The steps that a type takes are at most as many as its text has characters, and those of
arguments at most one more. -/
theorem type?_arguments?_congr (m : Nat) :
    (∀ n s, s.length ≤ m → s.length ≤ n → type? m s = type? n s) ∧
    (∀ n s, s.length < m → s.length < n → arguments? m s = arguments? n s) := by
  induction m with
  | zero =>
    refine ⟨fun n s hm _ => ?_, fun n s hm _ => absurd hm (Nat.not_lt_zero _)⟩
    rw [type?_of_length_le_zero hm, type?_of_length_le_zero hm]
  | succ m ih =>
    obtain ⟨ihType, ihArguments⟩ := ih
    constructor
    · intro n s hm hn
      cases n with
      | zero => rw [type?_of_length_le_zero hn, type?_of_length_le_zero hn]
      | succ n =>
        rw [type?, type?]
        cases hpath : identifiers? s.length s with
        | none => rfl
        | some after =>
          have hafter := length_of_identifiers? hpath
          simp only [Option.bind_eq_bind, Option.bind_some]
          split
          · rename_i inside hopen
            have hinside := length_of_skipBlanks hopen
            exact ihArguments n _ (by omega) (by omega)
          · rfl
    · intro n s hm hn
      cases n with
      | zero => exact absurd hn (Nat.not_lt_zero _)
      | succ n =>
        -- The type in front is read from the same text, so it is here that a step more is taken.
        rw [arguments?, arguments?, ihType n s (by omega) (by omega)]
        cases htype : type? n s with
        | none => rfl
        | some after =>
          have hafter := length_of_type? htype
          simp only [Option.bind_eq_bind, Option.bind_some]
          split
          · rename_i more hcomma
            have hmore := length_of_skipBlanks hcomma
            exact ihArguments n _ (by omega) (by omega)
          · rfl
          · rfl

/-- The reader of types takes the texts of types and no others, and within as many steps as a text
has characters it has come to its end: with more of them it finds the same. -/
theorem isTypeText_ends_on_types (s : String) :
    (isTypeText s = true ↔ IsTypeText s) ∧
      (∀ n, s.length ≤ n →
        type? n (skipBlanks s.toList) = type? s.length (skipBlanks s.toList) ∧
        isTypeText s = (type? n (skipBlanks s.toList)).any fun rest => rest.all isBlank) ∧
      ∀ t n, t.length ≤ n → identifiers? n t = identifiers? t.length t := by
  have hlength : (skipBlanks s.toList).length ≤ s.length := by
    rw [← String.length_toList]
    exact length_skipBlanks_le _
  have hsteps : ∀ m n, s.length ≤ m → s.length ≤ n →
      type? m (skipBlanks s.toList) = type? n (skipBlanks s.toList) :=
    fun m n hm hn => (type?_arguments?_congr m).1 n _ (hlength.trans hm) (hlength.trans hn)
  refine ⟨isTypeText_iff, fun n hn => ⟨hsteps n s.length hn le_rfl, ?_⟩,
    fun t n hn => identifiers?_congr hn le_rfl⟩
  rw [isTypeText, hsteps (2 * s.length + 2) n (by omega) hn]
  cases type? n (skipBlanks s.toList) <;> rfl

/-- A text with arguments in arguments and blanks wherever they may stand, and one that breaks off.
-/
theorem nested_types_end :
    IsTypeText " Map < crate::Key , Vec <Item> > " ∧ ¬IsTypeText "Vec<Vec<Item>" ∧
    "Vec<Vec<Item>".length ≤ 100 ∧
    type? 100 (skipBlanks "Vec<Vec<Item>".toList) =
      type? "Vec<Vec<Item>".length (skipBlanks "Vec<Vec<Item>".toList) := by
  obtain ⟨hclosed, -⟩ := isTypeText_ends_on_types " Map < crate::Key , Vec <Item> > "
  obtain ⟨hopen, hsteps, -⟩ := isTypeText_ends_on_types "Vec<Vec<Item>"
  have hlength : "Vec<Vec<Item>".length ≤ 100 := by decide
  refine ⟨hclosed.1 (by decide +kernel), fun h => ?_, hlength, (hsteps 100 hlength).1⟩
  exact absurd (hopen.2 h) (by decide +kernel)

end ResourceApi.Name
