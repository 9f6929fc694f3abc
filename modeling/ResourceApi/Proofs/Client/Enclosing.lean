import ResourceApi.Client.Compose
import ResourceApi.Proofs.Filter.Balance

/-!
Groups in balanced texts. The scan for one group finds out whether the parenthesis that matches the
first one is the last character, its depth never falls below zero before it stops, and putting a
text in parentheses once is enough.
-/

namespace ResourceApi.Compose

open ResourceApi.Filter Text

/-! ### The scan for one group -/

/-- The scan follows the depth of parentheses, with those inside literals passed over. -/
theorem isCounter_closesAtEnd : IsCounter fun d => closesAtEnd (d + 1) where
  quote d quoted rest := by simp [closesAtEnd]
  inside d c rest hc := by simp [closesAtEnd, hc]
  ordinary d c rest hc := by simp [closesAtEnd, isOrdinary_iff.1 hc]
  opening d rest := by simp [closesAtEnd]
  closing d rest := by simp [closesAtEnd]

/-- Where the matching parenthesis is found, the scan stops. -/
theorem isEnclosed_of_cut {s inner rest : List Char} (h : IsCutAt s inner rest) :
    isEnclosed s = rest.isEmpty := by
  obtain ⟨rfl, hinner⟩ := h
  have hscan := isCounter_closesAtEnd.balanced hinner 0 (')' :: rest)
  rw [List.cons_append, isEnclosed]
  exact hscan.trans (by simp [closesAtEnd])

/-- The scan says that a balanced text is one group just if it is cut at its end. -/
theorem isEnclosed_iff {s : List Char} (h : IsBalanced s) :
    isEnclosed s = true ↔ ∃ inner, IsCutAt s inner [] := by
  constructor
  · intro hs
    have hhead : s.head? = some '(' := by
      cases s with
      | nil => cases hs
      | cons c s =>
        by_cases hc : c = '('
        · rw [hc, List.head?_cons]
        · simp [isEnclosed, hc] at hs
    obtain ⟨inner, rest, hcut⟩ := h.exists_cut hhead
    obtain rfl : rest = [] := by simpa [isEnclosed_of_cut hcut] using hs
    exact ⟨inner, hcut⟩
  · rintro ⟨inner, hcut⟩
    exact isEnclosed_of_cut hcut

/-! ### The depth of the scan -/

/-- The scan with a subtraction that has no result below zero. -/
def closesAtEnd? : (depth : Nat) → (quoted : Bool) → List Char → Option Bool
  | _, _, [] => some false
  | depth, quoted, c :: rest =>
    if c = '\'' then closesAtEnd? depth (!quoted) rest
    else if quoted then closesAtEnd? depth quoted rest
    else if c = '(' then closesAtEnd? (depth + 1) quoted rest
    else if c = ')' then
      if depth = 0 then none
      else if depth - 1 = 0 then some rest.isEmpty else closesAtEnd? (depth - 1) quoted rest
    else closesAtEnd? depth quoted rest

/-- The scan of a text from its first character on, if that is a parenthesis. -/
def isEnclosed? (s : List Char) : Option Bool :=
  if s.head? = some '(' then closesAtEnd? 0 false s else some false

/-- Above zero the scan stops as soon as it comes down to zero, so it never goes below. -/
theorem closesAtEnd?_of_pos {d : Nat} (hd : 0 < d) (quoted : Bool) (s : List Char) :
    closesAtEnd? d quoted s = some (closesAtEnd d quoted s) := by
  induction s generalizing d quoted with
  | nil => rfl
  | cons c s ih =>
    simp only [closesAtEnd?, closesAtEnd]
    split_ifs with hquote hquoted hopening hclosing hzero hlast
    · exact ih hd _
    · exact ih hd _
    · exact ih (Nat.succ_pos d) _
    · exact absurd hzero hd.ne'
    · rfl
    · exact ih (Nat.pos_of_ne_zero hlast) _
    · exact ih hd _

theorem isEnclosed?_eq (s : List Char) : isEnclosed? s = some (isEnclosed s) := by
  cases s with
  | nil => rfl
  | cons c s =>
    by_cases hc : c = '('
    · subst hc
      have hscan := closesAtEnd?_of_pos Nat.one_pos false s
      simpa [isEnclosed?, closesAtEnd?, isEnclosed] using hscan
    · simp [isEnclosed?, isEnclosed, hc]

/-- A parenthesis that closes nothing takes the scan below zero. -/
example : closesAtEnd? 0 false ")".toList = none := by decide

/-! ### Enclosing -/

theorem enclose_of_blank {q : List Char} (h : q.all isBlank = true) : enclose q = [] := by
  simp [enclose, trim_eq_nil_iff.2 h]

/-- One group stays as it is, without the blanks around it. -/
theorem enclose_of_cut {q inner : List Char} (h : IsCutAt (trim q) inner []) :
    enclose q = trim q := by
  have hs : isEnclosed (trim q) = true := isEnclosed_of_cut h
  simp [enclose, hs]

/-- What is balanced but is not one group is put in parentheses. -/
theorem enclose_of_not_cut {q : List Char} (h : IsBalanced q) (hblank : q.all isBlank = false)
    (hcut : ¬∃ inner, IsCutAt (trim q) inner []) : enclose q = '(' :: trim q ++ [')'] := by
  have hne : trim q ≠ [] := fun hnil => by simp [trim_eq_nil_iff.1 hnil] at hblank
  have hs : isEnclosed (trim q) = false := by
    simpa using mt (isEnclosed_iff h.trim).1 hcut
  simp [enclose, hs, hne]

/-- What a text is enclosed in is one group. -/
theorem exists_cut_enclose {q : List Char} (h : IsBalanced q) (hblank : q.all isBlank = false) :
    ∃ inner, IsCutAt (enclose q) inner [] := by
  by_cases hcut : ∃ inner, IsCutAt (trim q) inner []
  · obtain ⟨inner, hinner⟩ := hcut
    exact ⟨inner, enclose_of_cut hinner ▸ hinner⟩
  · exact ⟨trim q, enclose_of_not_cut h hblank hcut, h.trim⟩

/-- Enclosing twice is enclosing once. -/
theorem enclose_enclose {q : List Char} (h : IsBalanced q) : enclose (enclose q) = enclose q := by
  cases hblank : q.all isBlank with
  | true =>
    rw [enclose_of_blank hblank]
    rfl
  | false =>
    obtain ⟨inner, hcut⟩ := exists_cut_enclose h hblank
    have htrim : trim (enclose q) = enclose q := hcut.trim_eq
    rw [← htrim] at hcut
    rw [enclose_of_cut hcut, htrim]

/-! ### Exactness -/

/-- A text, what the scan says of it and what it is enclosed in. -/
structure GroupsExactly (q : List Char) : Prop where
  matched : q.head? = some '(' → ∃! cut : List Char × List Char, IsCutAt q cut.1 cut.2
  scanned : isEnclosed q = true ↔ ∃ inner, IsCutAt q inner []
  above_zero : isEnclosed? q = some (isEnclosed q)
  blank : q.all isBlank = true → enclose q = []
  enclosed : q.all isBlank = false → isEnclosed (enclose q) = true
  kept : (∃ inner, IsCutAt (trim q) inner []) → enclose q = trim q
  wrapped : q.all isBlank = false → (¬∃ inner, IsCutAt (trim q) inner []) →
    enclose q = '(' :: trim q ++ [')']
  once : enclose (enclose q) = enclose q

/-- The scan never goes below zero on a balanced text, and finds the group exactly if there is one.
-/
theorem balanced_groups_exactly {q : List Char} (h : IsBalanced q) : GroupsExactly q where
  matched := by
    intro hhead
    obtain ⟨inner, rest, hcut⟩ := h.exists_cut hhead
    refine ⟨(inner, rest), hcut, fun cut hcut' => ?_⟩
    exact Prod.ext_iff.2 (hcut'.unique hcut)
  scanned := isEnclosed_iff h
  above_zero := isEnclosed?_eq q
  blank := enclose_of_blank
  enclosed := by
    intro hblank
    obtain ⟨inner, hcut⟩ := exists_cut_enclose h hblank
    exact isEnclosed_of_cut hcut
  kept := fun ⟨_, hcut⟩ => enclose_of_cut hcut
  wrapped := enclose_of_not_cut h
  once := enclose_enclose h

/-- Two groups side by side, with blanks around them and parentheses and quotes in literals. -/
def sideBySide : List Char := " (NAME eq ''')' or (A eq 1)) or (B eq '(''ß')\n".toList

/-- Groups side by side begin and end with parentheses but are not one group. -/
theorem sideBySide_groups_exactly : IsBalanced sideBySide ∧ GroupsExactly sideBySide ∧
    isEnclosed (trim sideBySide) = false :=
  have h : IsBalanced sideBySide := by decide
  ⟨h, balanced_groups_exactly h, by decide⟩

end ResourceApi.Compose
