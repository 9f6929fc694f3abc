import ResourceApi.Manifest.Name

/-!
The names and paths that a manifest may use, said by the characters that they consist of. The
checks accept these and no others.
-/

namespace ResourceApi.Name

/-- A character of one kind, then any number of another. -/
def IsWordOf (first later : Char → Prop) : List Char → Prop
  | [] => False
  | c :: rest => first c ∧ ∀ d ∈ rest, later d

/-- A capital, then letters and digits. -/
def IsCapitalised (s : String) : Prop :=
  IsWordOf (·.isUpper = true) (·.isAlphanum = true) s.toList

/-- Small letters, digits and underscores, not starting with a digit and not an underscore alone. -/
def IsSnake (s : String) : Prop :=
  s ≠ "_" ∧ IsWordOf (fun c => c.isLower = true ∨ c = '_')
    (fun c => c.isLower = true ∨ c.isDigit = true ∨ c = '_') s.toList

/-- Such a name that the target language leaves free. -/
def IsFree (s : String) : Prop := IsSnake s ∧ s ∉ keywords

/-- One or more letters, digits, and characters of `-._~`. -/
def IsSegment (s : List Char) : Prop :=
  s ≠ [] ∧ ∀ c ∈ s, c.isAlphanum = true ∨ c ∈ ['-', '.', '_', '~']

/-- One or more segments, with a slash in front of each. -/
def IsSegmentPath (s : String) : Prop :=
  ∃ segments, segments ≠ [] ∧ (∀ g ∈ segments, IsSegment g) ∧
    s.toList = segments.flatMap ('/' :: ·)

theorem IsWordOf.forall_later {first later : Char → Prop} {s : List Char}
    (h : IsWordOf first later s) (hfirst : ∀ c, first c → later c) : ∀ c ∈ s, later c := by
  cases s with
  | nil => cases h
  | cons c s => exact List.forall_mem_cons.2 ⟨hfirst c h.1, h.2⟩

theorem isAlphanum_iff {c : Char} :
    c.isAlphanum = true ↔ c.isUpper = true ∨ c.isLower = true ∨ c.isDigit = true := by
  have hkinds : c.isAlphanum = ((c.isUpper || c.isLower) || c.isDigit) := rfl
  rw [hkinds, Bool.or_eq_true, Bool.or_eq_true, or_assoc]

theorem IsCapitalised.forall {s : String} (h : IsCapitalised s) :
    ∀ c ∈ s.toList, c.isAlphanum = true :=
  h.forall_later fun _ hc => isAlphanum_iff.2 (.inl hc)

theorem IsSnake.forall {s : String} (h : IsSnake s) :
    ∀ c ∈ s.toList, c.isLower = true ∨ c.isDigit = true ∨ c = '_' :=
  h.2.forall_later fun _ => Or.imp_right .inr

theorem isKeyword_iff {s : String} : isKeyword s = true ↔ s ∈ keywords :=
  List.contains_iff_mem

/-- The test for capitalised names is exact. -/
theorem isCapitalised_iff {s : String} : isCapitalised s = true ↔ IsCapitalised s := by
  rw [isCapitalised, IsCapitalised]
  cases s.toList with
  | nil => simp [IsWordOf]
  | cons c rest => simp [IsWordOf]

/-- The test for plain names is exact. -/
theorem isPlainName_iff {s : String} : isPlainName s = true ↔ IsFree s := by
  rw [isPlainName, IsFree, IsSnake, ← isKeyword_iff]
  cases s.toList with
  | nil => simp [IsWordOf]
  | cons c rest => grind [IsWordOf, isSnakeChar]

/-- The test for segments is exact. -/
theorem isPlain_iff {s : List Char} : isPlain s = true ↔ IsSegment s := by
  simp [isPlain, IsSegment, isSegmentChar, or_assoc]

theorem isPlainSegment_iff {s : String} : isPlainSegment s = true ↔ IsSegment s.toList :=
  isPlain_iff

theorem slash_notMem_of_isSegment {s : List Char} (h : IsSegment s) : '/' ∉ s := by
  intro hmem
  exact absurd (h.2 '/' hmem) (by decide)

/-- Joining lists and putting the separator in front once more puts it in front of each. -/
theorem cons_intercalate {α : Type} (x : α) {ls : List (List α)} (h : ls ≠ []) :
    x :: [x].intercalate ls = ls.flatMap (x :: ·) := by
  induction ls with
  | nil => contradiction
  | cons l ls ih =>
    cases ls with
    | nil => simp [List.intercalate]
    | cons l' ls =>
      rw [List.flatMap_cons, ← ih (List.cons_ne_nil _ _), List.intercalate_cons_cons]
      simp

/-- The test for paths is exact. -/
theorem isCollectionPath_iff {s : String} : isCollectionPath s = true ↔ IsSegmentPath s := by
  rw [isCollectionPath]
  constructor
  · intro h
    split at h
    · rename_i rest hs
      refine ⟨rest.splitOn '/', List.splitOn_ne_nil _ _, ?_, ?_⟩
      · intro g hg
        exact isPlain_iff.1 (List.all_eq_true.1 h g hg)
      · rw [hs, ← cons_intercalate '/' (List.splitOn_ne_nil _ _), List.intercalate_splitOn]
    · cases h
  · rintro ⟨segments, hne, hsegments, hs⟩
    have hsplit : (['/'].intercalate segments).splitOn '/' = segments :=
      List.splitOn_intercalate '/' (fun g hg => slash_notMem_of_isSegment (hsegments g hg)) hne
    rw [hs, ← cons_intercalate '/' hne]
    show ((['/'].intercalate segments).splitOn '/').all isPlain = true
    rw [hsplit, List.all_eq_true]
    exact fun g hg => isPlain_iff.2 (hsegments g hg)

end ResourceApi.Name
