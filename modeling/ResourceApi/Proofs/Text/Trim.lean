import Mathlib.Data.List.DropRight
import Mathlib.Data.List.TakeWhile
import ResourceApi.Text.Blank

/-!
The ends of texts. They are trimmed in either order, and once is enough; a text is as it was if
neither its first nor its last character is of the kind that is taken off.
-/

namespace ResourceApi.Text

variable {p : Char → Bool} {s : List Char}

theorem trimEndBy_eq_rdropWhile (p : Char → Bool) (s : List Char) :
    trimEndBy p s = s.rdropWhile p := rfl

theorem trimEndBy_append (p : Char → Bool) (s t : List Char) :
    trimEndBy p (s ++ t) =
      if trimEndBy p t = [] then trimEndBy p s else s ++ trimEndBy p t := by
  simp only [trimEndBy, List.reverse_append, List.dropWhile_append, List.isEmpty_iff,
    List.reverse_eq_nil_iff]
  split <;> simp

theorem trimEndBy_cons (p : Char → Bool) (c : Char) (s : List Char) :
    trimEndBy p (c :: s) =
      if trimEndBy p s = [] then (if p c then [] else [c]) else c :: trimEndBy p s := by
  have happend := trimEndBy_append p [c] s
  have hsingle : trimEndBy p [c] = if p c then [] else [c] := List.rdropWhile_singleton p c
  rwa [hsingle] at happend

theorem trimEndBy_cons_of_neg {c : Char} (hc : p c = false) (s : List Char) :
    trimEndBy p (c :: s) = c :: trimEndBy p s := by
  rw [trimEndBy_cons, hc]
  split
  · rename_i hempty
    rw [hempty]
    rfl
  · rfl

/-- What is taken off the end are characters of the kind. -/
theorem exists_trimEndBy_append (p : Char → Bool) (s : List Char) :
    ∃ t, s = trimEndBy p s ++ t ∧ ∀ c ∈ t, p c = true :=
  ⟨s.rtakeWhile p, List.rdropWhile_append_rtakeWhile.symm,
    fun _ hc => List.mem_rtakeWhile_imp hc⟩

/-- A text is as it was if its last character is not of the kind. -/
theorem trimEndBy_eq_self_iff : trimEndBy p s = s ↔ ∀ c ∈ s.getLast?, p c = false := by
  rw [trimEndBy_eq_rdropWhile, List.rdropWhile_eq_self_iff]
  by_cases hs : s = []
  · simp [hs]
  · simp [List.getLast?_eq_getLast_of_ne_nil hs, hs]

/-- The two ends are trimmed in either order. -/
theorem dropWhile_trimEndBy (p : Char → Bool) (s : List Char) :
    (trimEndBy p s).dropWhile p = trimBy p s := by
  induction s with
  | nil => rfl
  | cons c s ih =>
    rw [trimBy] at ih ⊢
    by_cases hc : p c = true
    · rw [List.dropWhile_cons_of_pos hc, ← ih, trimEndBy_cons, if_pos hc]
      split
      · rename_i hempty
        rw [hempty]
      · rw [List.dropWhile_cons_of_pos hc]
    · rw [List.dropWhile_cons_of_neg hc, trimEndBy_cons, if_neg hc]
      split
      · rw [List.dropWhile_cons_of_neg hc]
      · rw [List.dropWhile_cons_of_neg hc]

theorem trimEndBy_trimEndBy (p : Char → Bool) (s : List Char) :
    trimEndBy p (trimEndBy p s) = trimEndBy p s := List.rdropWhile_idempotent p s

theorem dropWhile_trimBy (p : Char → Bool) (s : List Char) :
    (trimBy p s).dropWhile p = trimBy p s := by
  rw [← dropWhile_trimEndBy, List.dropWhile_idempotent]

theorem trimBy_trimBy (p : Char → Bool) (s : List Char) :
    trimBy p (trimBy p s) = trimBy p s := by
  rw [trimBy, dropWhile_trimBy, trimBy, trimEndBy_trimEndBy]

theorem dropWhile_eq_self_iff_head : s.dropWhile p = s ↔ ∀ c ∈ s.head?, p c = false := by
  rw [List.dropWhile_eq_self_iff]
  cases s <;> simp

/-- A text is as it was if neither end of it is of the kind. -/
theorem trimBy_eq_self_iff :
    trimBy p s = s ↔ (∀ c ∈ s.head?, p c = false) ∧ ∀ c ∈ s.getLast?, p c = false := by
  rw [← dropWhile_eq_self_iff_head, ← trimEndBy_eq_self_iff]
  constructor
  · intro h
    have hfront : s.dropWhile p = s := by
      rw [← h, dropWhile_trimBy]
    have hend : trimEndBy p s = s := by
      rw [← h, trimBy, trimEndBy_trimEndBy]
    exact ⟨hfront, hend⟩
  · rintro ⟨hfront, hend⟩
    rw [trimBy, hfront, hend]

theorem trim_eq_nil_iff : trim s = [] ↔ s.all isBlank = true := by
  rw [trim, trimBy, trimEndBy_eq_rdropWhile, List.rdropWhile_eq_nil_iff,
    ← List.dropWhile_eq_nil_iff, List.dropWhile_idempotent, List.dropWhile_eq_nil_iff,
    List.all_eq_true]

theorem mem_of_mem_trimBy {c : Char} (h : c ∈ trimBy p s) : c ∈ s := by
  obtain ⟨t, ht, -⟩ := exists_trimEndBy_append p (s.dropWhile p)
  have hdrop : c ∈ s.dropWhile p := ht ▸ List.mem_append_left t h
  exact (List.dropWhile_suffix p).mem hdrop

/-- No piece of a split text holds a character at which it was split. -/
theorem notMem_of_mem_splitOnP {c : Char} {t : List Char} (hc : p c = true)
    (h : t ∈ s.splitOnP p) : c ∉ t := by
  induction s generalizing t with
  | nil =>
    obtain rfl : t = [] := by simpa using h
    exact List.not_mem_nil
  | cons d s ih =>
    rw [List.splitOnP_cons_eq_if_modifyHead] at h
    split at h
    · rcases List.mem_cons.1 h with rfl | h
      · exact List.not_mem_nil
      · exact ih h
    · rename_i hne
      obtain ⟨u, us, hsplit⟩ := List.exists_cons_of_ne_nil (List.splitOnP_ne_nil p s)
      rw [hsplit] at ih h
      rcases List.mem_cons.1 h with rfl | h
      · have hu : c ∉ u := ih List.mem_cons_self
        have hd : c ≠ d := fun heq => hne (heq ▸ hc)
        exact List.not_mem_cons_of_ne_of_not_mem hd hu
      · exact ih (List.mem_cons_of_mem u h)

theorem notMem_of_mem_splitOn {c : Char} {t : List Char} (h : t ∈ s.splitOn c) : c ∉ t :=
  notMem_of_mem_splitOnP (p := (· == c)) (beq_self_eq_true c) h

end ResourceApi.Text
