import Mathlib
import ResourceApi.Column

/-!
How a name is cut into words. What is cut off behind a character depends on that character and not
on what came before it, so a name is cut piece by piece: separators leave nothing, and a stretch
inside which no word starts is one word if a word ends with it.
-/

namespace ResourceApi.Column

open Text

variable {before : Option Char} {c : Char} {w rest : List Char}

/-! ### Letters and digits -/

theorem isSeparator_of_isAlphanum (h : c.isAlphanum = true) : isSeparator c = false := by
  have hne : ∀ d : Char, d.isAlphanum = false → c ≠ d := by
    rintro d hd rfl
    exact absurd (h.symm.trans hd) (by decide)
  have h1 := hne '_' (by decide)
  have h2 := hne '-' (by decide)
  have h3 := hne '.' (by decide)
  have h4 := hne ' ' (by decide)
  simp [isSeparator, h1, h2, h3, h4]

/-- Between letters and digits, words start at capitals only. -/
theorem startsWord_of_isUpper_eq_false {b : Char} {after : Option Char}
    (hc : c.isAlphanum = true) (h : c.isUpper = false) : startsWord b c after = false := by
  simp [startsWord, isCapital_of_lt (toNat_lt_of_isAlphanum hc), h]

/-! ### One character -/

/-- One step: a separator ends a word and is dropped, a start ends a word and begins one. -/
theorem words_cons (before : Option Char) (c : Char) (rest : List Char) :
    words before (c :: rest) =
      if isSeparator c then [] :: words (some c) rest
      else if before.any (startsWord · c rest.head?) then
        [] :: (words (some c) rest).modifyHead (c :: ·)
      else (words (some c) rest).modifyHead (c :: ·) := by
  cases hw : words (some c) rest with
  | nil => exact absurd hw (words_ne_nil _ _)
  | cons word more => simp [words, hw]

/-- A separator ends the word in front of it. -/
theorem words_separator (hc : isSeparator c = true) :
    words before (c :: rest) = [] :: words (some c) rest := by
  rw [words_cons, if_pos hc]

/-- A character that starts a word ends the word in front of it. -/
theorem words_start (hc : isSeparator c = false)
    (hstart : before.any (startsWord · c rest.head?) = true) :
    words before (c :: rest) = [] :: (words (some c) rest).modifyHead (c :: ·) := by
  rw [words_cons, if_neg (by simp [hc]), if_pos hstart]

/-- Any other character goes on with its word. -/
theorem words_continue (hc : isSeparator c = false)
    (hstart : before.any (startsWord · c rest.head?) = false) :
    words before (c :: rest) = (words (some c) rest).modifyHead (c :: ·) := by
  rw [words_cons, if_neg (by simp [hc]), if_neg (by simp [hstart])]

/-! ### Stretches -/

/-- A stretch without separators, inside which no word starts; its first character may start one,
and what stands behind the stretch counts for its last one. -/
def IsUnbroken : List Char → Option Char → Prop
  | [], _ => True
  | [c], _ => isSeparator c = false
  | c :: d :: rest, after => isSeparator c = false ∧
    startsWord c d (rest.head?.or after) = false ∧ IsUnbroken (d :: rest) after

/-- A word that has come to this character ends here. -/
def EndsBefore (c : Char) (rest : List Char) : Prop := ∃ more, words (some c) rest = [] :: more

/-- A word ends in front of a separator, and at the end of the name. -/
theorem endsBefore_separator (h : ∀ d ∈ rest.head?, isSeparator d = true) :
    EndsBefore c rest := by
  cases rest with
  | nil => exact ⟨[], rfl⟩
  | cons d rest => exact ⟨words (some d) rest, words_separator (h d rfl)⟩

/-- A word ends in front of a character that starts one. -/
theorem endsBefore_start {d : Char} (hd : isSeparator d = false)
    (hstart : startsWord c d rest.head? = true) : EndsBefore c (d :: rest) :=
  ⟨(words (some d) rest).modifyHead (d :: ·), words_start hd hstart⟩

theorem IsUnbroken.isSeparator {after : Option Char} (h : IsUnbroken (c :: w) after) :
    isSeparator c = false := by
  cases w with
  | nil => exact h
  | cons d w => exact h.1

/-- No word starts behind the first character where no capitals are. -/
theorem isUnbroken_of_tail (hc : isSeparator c = false)
    (hw : ∀ d ∈ w, d.isAlphanum = true ∧ d.isUpper = false) (after : Option Char) :
    IsUnbroken (c :: w) after := by
  induction w generalizing c with
  | nil => exact hc
  | cons d w ih =>
    obtain ⟨⟨hd, hupper⟩, hw⟩ := List.forall_mem_cons.1 hw
    exact ⟨hc, startsWord_of_isUpper_eq_false hd hupper,
      ih (isSeparator_of_isAlphanum hd) hw⟩

/-- Nor does one start among capitals and digits without small letters, unless a capital follows a
digit. -/
theorem isUnbroken_of_isChain (hw : ∀ c ∈ w, isSeparator c = false ∧ isSmall c = false)
    (hchain : w.IsChain fun c d => c.isDigit = true → isCapital d = false) {after : Option Char}
    (hafter : after.any isSmall = false) : IsUnbroken w after := by
  induction w with
  | nil => trivial
  | cons c w ih =>
    obtain ⟨⟨hc, hsmall⟩, hw⟩ := List.forall_mem_cons.1 hw
    cases w with
    | nil => exact hc
    | cons d w =>
      obtain ⟨hdigit, hchain⟩ := List.isChain_cons_cons.1 hchain
      have hnext : (w.head?.or after).any isSmall = false := by
        cases w with
        | nil => exact hafter
        | cons e w => exact (hw e (by simp)).2
      refine ⟨hc, ?_, ih hw hchain⟩
      cases hcapital : isCapital d with
      | false => simp [startsWord, hcapital]
      | true => simpa [startsWord, hsmall, hnext, hcapital] using hdigit

/-- Behind its first character, an unbroken stretch goes into the word that is open. -/
theorem words_append (h : IsUnbroken (c :: w) rest.head?) :
    words (some c) (w ++ rest) =
      (words (some (w.getLastD c)) rest).modifyHead (w ++ ·) := by
  induction w generalizing c with
  | nil => exact (congrFun List.modifyHead_id _).symm
  | cons d w ih =>
    obtain ⟨-, hstart, hw⟩ := h
    have hnext : (some c).any (startsWord · d (w ++ rest).head?) = false := by
      rw [List.head?_append]
      exact hstart
    rw [List.cons_append, words_continue hw.isSeparator hnext, ih hw, List.modifyHead_modifyHead,
      List.getLastD_cons]
    rfl

/-! ### Parts -/

/-- The parts of a column that come from the rest of a name, behind a character. -/
def partsAfter (before : Option Char) (name : List Char) : List (List Char) :=
  ((words before name).filter fun w => !w.isEmpty).map fun w => w.flatMap capitals

/-- The parts of a name are those behind no character. -/
theorem parts_eq (name : List Char) : parts name = partsAfter none name := rfl

theorem partsAfter_nil : partsAfter before [] = [] := rfl

/-- A separator adds no part. -/
theorem partsAfter_separator (hc : isSeparator c = true) :
    partsAfter before (c :: rest) = partsAfter (some c) rest := by
  rw [partsAfter, words_separator hc]
  rfl

/-- Separators leave nothing of themselves. -/
theorem partsAfter_separators {run : List Char} (hrun : ∀ c ∈ run, isSeparator c = true)
    (before : Option Char) (rest : List Char) :
    ∃ last, partsAfter before (run ++ rest) = partsAfter last rest := by
  induction run generalizing before with
  | nil => exact ⟨before, rfl⟩
  | cons c run ih =>
    obtain ⟨hc, hrun⟩ := List.forall_mem_cons.1 hrun
    rw [List.cons_append, partsAfter_separator hc]
    exact ih hrun (some c)

/-- An unbroken stretch that a word ends with is one part. -/
theorem partsAfter_append (h : IsUnbroken (c :: w) rest.head?)
    (hend : EndsBefore (w.getLastD c) rest) (before : Option Char) :
    partsAfter before (c :: w ++ rest) =
      (c :: w).flatMap capitals :: partsAfter (some (w.getLastD c)) rest := by
  obtain ⟨more, hmore⟩ := hend
  have hopen : words (some c) (w ++ rest) = w :: more := by
    rw [words_append h, hmore, List.modifyHead_cons, List.append_nil]
  rw [List.cons_append, partsAfter, partsAfter, hmore]
  cases hstart : before.any (startsWord · c (w ++ rest).head?) with
  | true => simp [words_start h.isSeparator hstart, hopen]
  | false => simp [words_continue h.isSeparator hstart, hopen]

end ResourceApi.Column
