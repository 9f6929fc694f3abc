import Mathlib.Data.List.Infix
import ResourceApi.Proofs.Filter.Column

/-!
What a column has of its name: the capital forms of all characters besides separators, in their
order, and single underscores between them. Separators leave nothing else behind, and no capital
form brings one in.
-/

namespace ResourceApi.Column

open Text

/-! ### Capital forms -/

/-- No capital form brings a separator in. -/
theorem isSeparator_of_mem_capitals {c d : Char} (hc : isSeparator c = false)
    (hd : d ∈ capitals c) : isSeparator d = false := by
  rcases Filter.capitals_letters c with heq | ⟨-, -, hforms⟩
  · rw [heq, List.mem_singleton] at hd
    rwa [hd]
  · exact (hforms d hd).2

theorem capitals_ne_nil (c : Char) : capitals c ≠ [] := by
  rcases Filter.capitals_letters c with heq | ⟨-, hne, -⟩
  · simp [heq]
  · exact hne

/-! ### Joined words -/

/-- Text in which a character stands at neither end, and nowhere twice in a row. -/
structure IsSpaced (c : Char) (s : List Char) : Prop where
  front : s.head? ≠ some c
  back : s.getLast? ≠ some c
  single : ¬[c, c] <:+: s

section Joined

variable {c : Char} {p s : List Char} {ps : List (List Char)}

/-- A text in which a character does not occur has it nowhere twice. -/
theorem isSpaced_of_notMem (h : c ∉ p) : IsSpaced c p where
  front hhead := h (List.mem_of_head? hhead)
  back hlast := h (List.mem_of_getLast? hlast)
  single htwice := h (htwice.subset List.mem_cons_self)

/-- A part without the character in front brings no two of them together. -/
theorem not_infix_append (hp : c ∉ p) (h : ¬[c, c] <:+: c :: s) : ¬[c, c] <:+: p ++ c :: s := by
  induction p with
  | nil => exact h
  | cons d p ih =>
    obtain ⟨hd, hp⟩ := not_or.1 (mt List.mem_cons.2 hp)
    rw [List.cons_append, List.infix_cons_iff, List.cons_prefix_cons]
    rintro (⟨heq, -⟩ | htwice)
    · exact hd heq
    · exact ih hp htwice

/-- One more word in front keeps the spacing. -/
theorem IsSpaced.append_cons (h : IsSpaced c s) (hs : s ≠ []) (hp : p ≠ []) (hc : c ∉ p) :
    IsSpaced c (p ++ c :: s) where
  front := by
    rw [List.head?_append_of_ne_nil p hp]
    exact (isSpaced_of_notMem hc).front
  back := by
    obtain ⟨d, s, rfl⟩ := List.exists_cons_of_ne_nil hs
    rw [List.getLast?_append_of_ne_nil p (List.cons_ne_nil _ _), List.getLast?_cons_cons]
    exact h.back
  single := by
    refine not_infix_append hc ?_
    rw [List.infix_cons_iff, List.cons_prefix_cons]
    rintro (⟨-, t, ht⟩ | htwice)
    · exact h.front (by rw [← ht]; rfl)
    · exact h.single htwice

theorem intercalate_ne_nil (hp : p ≠ []) : [c].intercalate (p :: ps) ≠ [] := by
  obtain ⟨d, hd⟩ := List.exists_mem_of_ne_nil p hp
  exact List.ne_nil_of_mem ((Filter.isInfix_intercalate List.mem_cons_self).subset hd)

/-- Words are spaced by what joins them. -/
theorem isSpaced_intercalate (h : ∀ p ∈ ps, p ≠ [] ∧ c ∉ p) : IsSpaced c ([c].intercalate ps) := by
  induction ps with
  | nil => exact isSpaced_of_notMem List.not_mem_nil
  | cons p ps ih =>
    obtain ⟨⟨hne, hc⟩, hps⟩ := List.forall_mem_cons.1 h
    cases ps with
    | nil =>
      rw [List.intercalate_singleton]
      exact isSpaced_of_notMem hc
    | cons q ps =>
      rw [List.intercalate_cons_cons, List.append_assoc]
      exact (ih hps).append_cons (intercalate_ne_nil (hps q List.mem_cons_self).1) hne hc

/-- Without what joins them, only the words are left. -/
theorem filter_intercalate (h : ∀ p ∈ ps, c ∉ p) :
    ([c].intercalate ps).filter (· ≠ c) = ps.flatten := by
  have hkeep : ∀ p : List Char, c ∉ p → p.filter (· ≠ c) = p := fun p hp =>
    List.filter_eq_self.2 fun d hd => decide_eq_true fun heq => hp (heq ▸ hd)
  induction ps with
  | nil => rfl
  | cons p ps ih =>
    obtain ⟨hc, hps⟩ := List.forall_mem_cons.1 h
    cases ps with
    | nil => simpa using hkeep p hc
    | cons q ps =>
      rw [List.intercalate_cons_cons, List.filter_append, List.filter_append, ih hps, hkeep p hc,
        List.flatten_cons]
      simp

end Joined

/-! ### Columns -/

/-- The parts of a name are not empty and have no separators in them. -/
theorem not_separator_of_mem_parts {name p : List Char} (hp : p ∈ parts name) :
    p ≠ [] ∧ ∀ d ∈ p, isSeparator d = false := by
  obtain ⟨w, hw, hne, rfl⟩ := Filter.mem_parts.1 hp
  refine ⟨?_, fun d hd => ?_⟩
  · obtain ⟨c, hc⟩ := List.exists_mem_of_ne_nil w hne
    obtain ⟨d, hd⟩ := List.exists_mem_of_ne_nil _ (capitals_ne_nil c)
    exact List.ne_nil_of_mem (List.mem_flatMap.2 ⟨c, hc, hd⟩)
  · obtain ⟨c, hc, hd⟩ := List.mem_flatMap.1 hd
    exact isSeparator_of_mem_capitals (Filter.mem_of_mem_words hw hc).2 hd

/-- Underscores are separators, so no part holds one. -/
theorem underscore_notMem_of_mem_parts {name p : List Char} (hp : p ∈ parts name) : '_' ∉ p :=
  fun hmem => absurd ((not_separator_of_mem_parts hp).2 '_' hmem) (by decide)

/-- The parts together hold the capital forms of a name. -/
theorem flatten_parts (name : List Char) :
    (parts name).flatten = (name.filter fun c => !isSeparator c).flatMap capitals := by
  calc (parts name).flatten
      = ((words none name).filter fun w => !w.isEmpty).flatMap fun w => w.flatMap capitals := rfl
    _ = (((words none name).filter fun w => !w.isEmpty).flatMap id).flatMap capitals :=
      List.flatMap_assoc.symm
    _ = (words none name).flatten.flatMap capitals := by
      rw [List.flatMap_id, List.flatten_filter_not_isEmpty]
    _ = (name.filter fun c => !isSeparator c).flatMap capitals := by rw [Filter.flatten_words]

/-- Only a name of separators has the empty column. -/
theorem fold_eq_nil_iff (name : List Char) :
    fold name = [] ↔ ∀ c ∈ name, isSeparator c = true := by
  constructor
  · intro hnil c hc
    rw [← Bool.not_eq_false]
    intro hsep
    obtain ⟨d, hd⟩ := List.exists_mem_of_ne_nil _ (capitals_ne_nil c)
    exact absurd (Filter.mem_fold_of_mem hc hsep hd) (hnil ▸ List.not_mem_nil)
  · intro hall
    by_contra hne
    obtain ⟨c, hc, hsep⟩ := Filter.exists_of_fold_ne_nil hne
    exact absurd (hsep.symm.trans (hall c hc)) Bool.false_ne_true

/-- The column of a name is the capital forms of its characters besides separators, all of them and
in their order, with single underscores between some of them; it is empty only for separators. -/
theorem ofName_only_regroups (name : String) :
    IsSpaced '_' (ofName name).toList ∧
      (∀ c ∈ (ofName name).toList, c ≠ '-' ∧ c ≠ '.' ∧ c ≠ ' ') ∧
      (ofName name = "" ↔ ∀ c ∈ name.toList, isSeparator c = true) ∧
      (ofName name).toList.filter (· ≠ '_') =
        (name.toList.filter fun c => !isSeparator c).flatMap capitals := by
  rw [← String.toList_eq_nil_iff, ofName, String.toList_ofList]
  refine ⟨isSpaced_intercalate fun p hp => ⟨(not_separator_of_mem_parts hp).1,
    underscore_notMem_of_mem_parts hp⟩, fun c hc => ?_, fold_eq_nil_iff _, ?_⟩
  · rcases Filter.mem_fold hc with rfl | ⟨d, -, hd, hcd⟩
    · decide
    · have hsep := isSeparator_of_mem_capitals hd hcd
      refine ⟨?_, ?_, ?_⟩ <;>
        · rintro rfl
          exact absurd hsep (by decide)
  · rw [fold, filter_intercalate fun p hp => underscore_notMem_of_mem_parts hp, flatten_parts]

end ResourceApi.Column
