import ResourceApi.Column
import ResourceApi.Proofs.Filter.Lexer

/-!
Which names give columns that are words. Upper-casing makes words of word characters and leaves
white space, quotes and parentheses as they are; separators are dropped, the blank among them. So a
column is a word exactly if its name holds something besides separators, and no other white space,
no quote and no parenthesis.
-/

namespace ResourceApi.Filter

open Text

/-! ### Capital forms -/

/-- A stretch of code points without white space, quotes and parentheses. -/
def isWordRange (first last : Nat) : Bool :=
  (blankRuns.all fun r => decide (last < r.first) || decide (r.last < first)) &&
    (decide (last < 39) || decide (41 < first))

theorem isWordChar_of_isWordRange {first last : Nat} {c : Char} (h : isWordRange first last = true)
    (hfirst : first ≤ c.toNat) (hlast : c.toNat ≤ last) : isWordChar c = true := by
  simp only [isWordRange, Bool.and_eq_true, List.all_eq_true, Bool.or_eq_true,
    decide_eq_true_eq] at h
  obtain ⟨hblank, hmark⟩ := h
  have hb : isBlank c = false := by
    rw [← Bool.not_eq_true, isBlank, inRuns_iff]
    rintro ⟨r, hr, hc⟩
    have hcovers := Run.covers_iff.1 hc
    have hapart := hblank r hr
    omega
  have hne : ∀ d : Char, 39 ≤ d.toNat ∧ d.toNat ≤ 41 → c ≠ d := by
    rintro d hd rfl
    omega
  have hq := hne '\'' (by decide)
  have ho := hne '(' (by decide)
  have hc := hne ')' (by decide)
  simp [isWordChar, hb, hq, ho, hc]

/-- Characters of words that do not separate words of a name. -/
def IsLetter (c : Char) : Prop := isWordChar c = true ∧ Column.isSeparator c = false

/-- A stretch of code points of such characters. -/
def isLetterRange (first last : Nat) : Bool :=
  isWordRange first last &&
    (decide (46 < first) && (decide (last < 95) || decide (95 < first)))

theorem isLetter_of_isLetterRange {first last : Nat} {c : Char}
    (h : isLetterRange first last = true) (hfirst : first ≤ c.toNat) (hlast : c.toNat ≤ last) :
    IsLetter c := by
  simp only [isLetterRange, Bool.and_eq_true, Bool.or_eq_true, decide_eq_true_eq] at h
  obtain ⟨hword, habove, hapart⟩ := h
  have hne : ∀ d : Char, d.toNat ≤ 46 ∨ d.toNat = 95 → c ≠ d := by
    rintro d hd rfl
    omega
  have hunderscore := hne '_' (by decide)
  have hhyphen := hne '-' (by decide)
  have hdot := hne '.' (by decide)
  have hspace := hne ' ' (by decide)
  refine ⟨isWordChar_of_isWordRange hword hfirst hlast, ?_⟩
  simp [Column.isSeparator, hunderscore, hhyphen, hdot, hspace]

theorem isLetter_ofNat {first last n : Nat} (h : isLetterRange first last = true)
    (hfirst : first ≤ n) (hlast : n ≤ last) : IsLetter (Char.ofNat n) := by
  rcases toNat_ofNat_or n with hc | hc
  · exact isLetter_of_isLetterRange h (by omega) (by omega)
  · rw [hc]
    exact ⟨by decide, by decide⟩

/-- The table of capital forms leads from such stretches to such stretches. -/
theorem isLetterRange_capitalShifts : ∀ s ∈ capitalShifts,
    isLetterRange s.first s.last = true ∧ isLetterRange s.target (s.image s.last) = true := by
  decide +kernel

theorem isLetterRange_capitalExpansions : ∀ p ∈ capitalExpansions,
    isLetterRange p.1 p.1 = true ∧ p.2 ≠ [] ∧ ∀ n ∈ p.2, isLetterRange n n = true := by
  decide +kernel

/-- A character that is not its own capital form is a letter, and so is all of that form. -/
theorem capitals_letters (c : Char) :
    capitals c = [c] ∨ IsLetter c ∧ capitals c ≠ [] ∧ ∀ d ∈ capitals c, IsLetter d := by
  rcases capitals_forms c with ⟨-, heq⟩ | ⟨points, hmem, heq⟩ | ⟨s, hs, hfound, heq⟩ | heq
  · rw [heq]
    rcases toUpper_cases c with hsame | ⟨⟨hfirst, hlast⟩, hfirst', hlast'⟩
    · exact .inl (by rw [hsame])
    · have hsmall : isLetterRange 97 122 = true := by decide
      have hcapital : isLetterRange 65 90 = true := by decide
      exact .inr ⟨isLetter_of_isLetterRange hsmall hfirst hlast, List.cons_ne_nil _ _,
        List.forall_mem_singleton.2 (isLetter_of_isLetterRange hcapital hfirst' hlast')⟩
  · obtain ⟨hfirst, hne, hpoints⟩ := isLetterRange_capitalExpansions _ hmem
    rw [heq]
    refine .inr ⟨isLetter_of_isLetterRange hfirst (Nat.le_refl _) (Nat.le_refl _),
      by simpa using hne, ?_⟩
    intro d hd
    obtain ⟨n, hn, rfl⟩ := List.mem_map.1 hd
    exact isLetter_ofNat (hpoints n hn) (Nat.le_refl n) (Nat.le_refl n)
  · have hcovers := Run.covers_iff.1 hfound
    obtain ⟨hsource, htarget⟩ := isLetterRange_capitalShifts s hs
    have himage : IsLetter (Char.ofNat (s.image c.toNat)) := by
      apply isLetter_ofNat htarget
      · simp [Shift.image]
      · simp only [Shift.image]
        omega
    rw [heq]
    exact .inr ⟨isLetter_of_isLetterRange hsource hcovers.1 hcovers.2.1, List.cons_ne_nil _ _,
      List.forall_mem_singleton.2 himage⟩
  · exact .inl heq

/-- The capital form of a character of words is a word; any other character is its own. -/
theorem capitals_cases (c : Char) : isWordChar c = true ∧ IsWord (capitals c) ∨
    isWordChar c = false ∧ capitals c = [c] := by
  rcases capitals_letters c with heq | ⟨hc, hne, hforms⟩
  · rw [heq]
    cases hc : isWordChar c with
    | true => exact .inl ⟨rfl, by simpa [IsWord] using hc⟩
    | false => exact .inr ⟨rfl, rfl⟩
  · exact .inl ⟨hc.1, hne, fun d hd => (hforms d hd).1⟩

/-! ### Columns -/

/-- Names with something besides separators, in which all other characters are those of words. -/
def IsColumnName (name : List Char) : Prop :=
  (∃ c ∈ name, Column.isSeparator c = false) ∧
    ∀ c ∈ name, Column.isSeparator c = false → isWordChar c = true

instance (name : List Char) : Decidable (IsColumnName name) :=
  decidable_of_iff (name.any (fun c => !Column.isSeparator c) = true ∧
      name.all (fun c => Column.isSeparator c || isWordChar c) = true)
    (by simp [IsColumnName, or_iff_not_imp_left])

/-- The words of a name hold its characters besides separators. -/
theorem flatten_words (before : Option Char) (name : List Char) :
    (Column.words before name).flatten = name.filter fun c => !Column.isSeparator c := by
  induction name generalizing before with
  | nil => rfl
  | cons c rest ih =>
    have hrest := ih (some c)
    cases hw : Column.words (some c) rest with
    | nil => exact absurd hw (Column.words_ne_nil _ _)
    | cons word more =>
      rw [hw, List.flatten_cons] at hrest
      simp only [Column.words, hw]
      split
      · rename_i hc
        simp [hc, hrest]
      · rename_i hc
        have hkeep : (c :: rest).filter (fun c => !Column.isSeparator c) =
            c :: (word ++ more.flatten) := by
          simp [hc, hrest]
        rw [hkeep]
        split <;> simp

theorem mem_intercalate {α : Type} {a s : α} {ps : List (List α)} (h : a ∈ [s].intercalate ps) :
    a = s ∨ ∃ p ∈ ps, a ∈ p := by
  induction ps with
  | nil => exact absurd h List.not_mem_nil
  | cons p ps ih =>
    cases ps with
    | nil => exact .inr ⟨p, by simp, by simpa using h⟩
    | cons q ps =>
      rw [List.intercalate_cons_cons, List.mem_append, List.mem_append] at h
      rcases h with (h | h) | h
      · exact .inr ⟨p, by simp, h⟩
      · exact .inl (List.mem_singleton.1 h)
      · obtain h | ⟨r, hr, ha⟩ := ih h
        · exact .inl h
        · exact .inr ⟨r, List.mem_cons_of_mem _ hr, ha⟩

theorem mem_parts {name p : List Char} : p ∈ Column.parts name ↔
    ∃ w ∈ Column.words none name, w ≠ [] ∧ w.flatMap capitals = p := by
  simp [Column.parts, and_assoc]

theorem mem_of_mem_words {name w : List Char} {c : Char} (hw : w ∈ Column.words none name)
    (hc : c ∈ w) : c ∈ name ∧ Column.isSeparator c = false := by
  have hname : c ∈ name.filter fun c => !Column.isSeparator c := by
    rw [← flatten_words none]
    exact List.mem_flatten.2 ⟨w, hw, hc⟩
  simpa using List.mem_filter.1 hname

/-- What a column is made of: capital forms, with underscores between them. -/
theorem mem_fold {name : List Char} {d : Char} (h : d ∈ Column.fold name) :
    d = '_' ∨ ∃ c ∈ name, Column.isSeparator c = false ∧ d ∈ capitals c := by
  rcases mem_intercalate h with h | ⟨p, hp, hd⟩
  · exact .inl h
  · obtain ⟨w, hw, -, rfl⟩ := mem_parts.1 hp
    obtain ⟨c, hc, hd⟩ := List.mem_flatMap.1 hd
    obtain ⟨hname, hsep⟩ := mem_of_mem_words hw hc
    exact .inr ⟨c, hname, hsep, hd⟩

/-- Nothing of a name is lost besides separators. -/
theorem mem_fold_of_mem {name : List Char} {c d : Char} (hc : c ∈ name)
    (hsep : Column.isSeparator c = false) (hd : d ∈ capitals c) : d ∈ Column.fold name := by
  have hname : c ∈ (Column.words none name).flatten := by
    rw [flatten_words]
    exact List.mem_filter.2 ⟨hc, by simp [hsep]⟩
  obtain ⟨w, hw, hcw⟩ := List.mem_flatten.1 hname
  have hp : w.flatMap capitals ∈ Column.parts name :=
    mem_parts.2 ⟨w, hw, List.ne_nil_of_mem hcw, rfl⟩
  exact (isInfix_intercalate hp).subset (List.mem_flatMap.2 ⟨c, hcw, hd⟩)

/-- Separators alone give no column. -/
theorem exists_of_fold_ne_nil {name : List Char} (h : Column.fold name ≠ []) :
    ∃ c ∈ name, Column.isSeparator c = false := by
  have hparts : Column.parts name ≠ [] := by
    intro hnil
    apply h
    rw [Column.fold, hnil, List.intercalate_nil]
  obtain ⟨p, hp⟩ := List.exists_mem_of_ne_nil _ hparts
  obtain ⟨w, hw, hne, -⟩ := mem_parts.1 hp
  obtain ⟨c, hc⟩ := List.exists_mem_of_ne_nil _ hne
  exact ⟨c, mem_of_mem_words hw hc⟩

/-- The columns that are words, by the names that they come from. -/
theorem isWord_fold_iff {name : List Char} : IsWord (Column.fold name) ↔ IsColumnName name := by
  constructor
  · rintro ⟨hne, hword⟩
    refine ⟨exists_of_fold_ne_nil hne, ?_⟩
    intro c hc hsep
    rcases capitals_cases c with ⟨h, -⟩ | ⟨-, h⟩
    · exact h
    · exact hword c (mem_fold_of_mem hc hsep (by simp [h]))
  · rintro ⟨⟨c, hc, hsep⟩, hall⟩
    refine ⟨?_, ?_⟩
    · rcases capitals_cases c with ⟨-, h, -⟩ | ⟨h, -⟩
      · obtain ⟨d, hd⟩ := List.exists_mem_of_ne_nil _ h
        exact List.ne_nil_of_mem (mem_fold_of_mem hc hsep hd)
      · exact absurd (hall c hc hsep) (by simp [h])
    · intro d hd
      rcases mem_fold hd with rfl | ⟨e, he, hes, hde⟩
      · decide
      · rcases capitals_cases e with ⟨-, -, h⟩ | ⟨h, -⟩
        · exact h d hde
        · exact absurd (hall e he hes) (by simp [h])

/-- No column holds a blank. -/
theorem blank_notMem_fold (name : List Char) : ' ' ∉ Column.fold name := by
  intro h
  rcases mem_fold h with h | ⟨c, hc, hsep, hd⟩
  · exact absurd h (by decide)
  · rcases capitals_cases c with ⟨-, -, h⟩ | ⟨-, h⟩
    · exact absurd (h ' ' hd) (by decide)
    · obtain rfl : ' ' = c := by simpa [h] using hd
      exact absurd hsep (by decide)

end ResourceApi.Filter
