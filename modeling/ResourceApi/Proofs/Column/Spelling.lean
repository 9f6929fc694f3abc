import ResourceApi.Proofs.Column.Words

/-!
Spellings of a name. The same words can be written in camel case, in Pascal case, or apart with any
runs of separators, each word in letters of either size. All of these are names of one column.
-/

namespace ResourceApi.Column

open Text

/-- Small letters, at least two, and then digits. -/
def IsPlainWord (w : List Char) : Prop :=
  ∃ letters digits, w = letters ++ digits ∧ 2 ≤ letters.length ∧
    (∀ c ∈ letters, c.isLower = true) ∧ ∀ c ∈ digits, c.isDigit = true

def capitalise : List Char → List Char
  | [] => []
  | c :: rest => c.toUpper :: rest

inductive Casing where
  | small | capitalised | capital
  deriving DecidableEq, Repr

def Casing.write : Casing → List Char → List Char
  | .small, w => w
  | .capitalised, w => capitalise w
  | .capital, w => w.map Char.toUpper

def AreSeparators (run : List Char) : Prop := ∀ c ∈ run, c ∈ ['_', '-', '.', ' ']

/-- Words with separators between them, each word in its own casing. -/
inductive IsSpelledApart : List (List Char) → List Char → Prop
  | last (casing : Casing) (w : List Char) : IsSpelledApart [w] (casing.write w)
  | more (casing : Casing) (w : List Char) {run text : List Char} {ws : List (List Char)}
      (hne : run ≠ []) (hrun : AreSeparators run) (h : IsSpelledApart ws text) :
      IsSpelledApart (w :: ws) (casing.write w ++ (run ++ text))

/-- The names that spell a list of words. -/
inductive IsSpelling : List (List Char) → List Char → Prop
  | camel (w : List Char) (ws : List (List Char)) :
      IsSpelling (w :: ws) (w ++ ws.flatMap capitalise)
  | pascal (w : List Char) (ws : List (List Char)) :
      IsSpelling (w :: ws) ((w :: ws).flatMap capitalise)
  | apart {ws : List (List Char)} {front text back : List Char} (hfront : AreSeparators front)
      (h : IsSpelledApart ws text) (hback : AreSeparators back) :
      IsSpelling ws (front ++ (text ++ back))

theorem AreSeparators.isSeparator {run : List Char} (h : AreSeparators run) :
    ∀ c ∈ run, isSeparator c = true := by
  intro c hc
  simpa [Column.isSeparator, or_assoc] using h c hc

/-! ### Characters of words -/

theorem isAlphanum_toUpper {c : Char} (h : c.isAlphanum = true) :
    c.toUpper.isAlphanum = true := by
  by_cases hc : c.isLower = true
  · simp [Char.isAlphanum, Char.isAlpha, hc]
  · rwa [Char.toUpper_eq_of_not_isLower hc]

theorem isUpper_toUpper_of_isLower {c : Char} (h : c.isLower = true) :
    c.toUpper.isUpper = true := by
  simp [Char.isAlpha, h]

theorem isDigit_toUpper_eq_false {c : Char} (h : c.isLower = true) :
    c.toUpper.isDigit = false := by
  have hupper := isUpper_toUpper_of_isLower h
  grind [Char.isUpper, Char.isDigit]

theorem isAlphanum_of_isPlain {c : Char} (h : c.isLower = true ∨ c.isDigit = true) :
    c.isAlphanum = true := by
  grind [Char.isAlphanum, Char.isAlpha]

theorem isUpper_eq_false_of_isPlain {c : Char} (h : c.isLower = true ∨ c.isDigit = true) :
    c.isUpper = false := by
  grind [Char.isUpper, Char.isLower, Char.isDigit]

/-! ### Words in their casings -/

section Word

variable {w rest : List Char}

theorem IsPlainWord.isAlphanum (h : IsPlainWord w) : ∀ c ∈ w, c.isAlphanum = true := by
  obtain ⟨letters, digits, rfl, -, hletters, hdigits⟩ := h
  intro c hc
  rcases List.mem_append.1 hc with hc | hc
  · exact isAlphanum_of_isPlain (.inl (hletters c hc))
  · exact isAlphanum_of_isPlain (.inr (hdigits c hc))

/-- A word has its letters in front of its digits. -/
theorem IsPlainWord.isChain (h : IsPlainWord w) :
    w.IsChain fun c d => c.isLower = true ∨ d.isDigit = true := by
  obtain ⟨letters, digits, rfl, -, hletters, hdigits⟩ := h
  refine List.isChain_append.2 ⟨?_, ?_, ?_⟩
  · exact (List.pairwise_of_forall_mem_list fun c hc _ _ => .inl (hletters c hc)).isChain
  · exact (List.pairwise_of_forall_mem_list fun _ _ d hd => .inr (hdigits d hd)).isChain
  · exact fun c hc _ _ => .inl (hletters c (List.mem_of_getLast? hc))

/-- Behind its first letter, a word has more, and no capitals. -/
theorem IsPlainWord.exists_cons (h : IsPlainWord w) :
    ∃ c v, w = c :: v ∧ c.isLower = true ∧ v ≠ [] ∧
      ∀ d ∈ v, d.isLower = true ∨ d.isDigit = true := by
  obtain ⟨letters, digits, rfl, hlength, hletters, hdigits⟩ := h
  match letters, hlength with
  | c :: d :: more, _ =>
    obtain ⟨hc, hmore⟩ := List.forall_mem_cons.1 hletters
    refine ⟨c, d :: more ++ digits, rfl, hc, by simp, ?_⟩
    intro e he
    rcases List.mem_append.1 he with he | he
    · exact .inl (hmore e he)
    · exact .inr (hdigits e he)

/-- However a word is cased, its capitals are the same. -/
theorem map_toUpper_write (casing : Casing) (w : List Char) :
    (casing.write w).map Char.toUpper = w.map Char.toUpper := by
  cases casing with
  | small => rfl
  | capitalised => cases w <;> simp [Casing.write, capitalise]
  | capital => simp [Casing.write]

/-- A cased word has letters and digits only. -/
theorem isAlphanum_write (h : IsPlainWord w) (casing : Casing) :
    ∀ d ∈ casing.write w, d.isAlphanum = true := by
  have hupper : ∀ d ∈ casing.write w, ∃ c ∈ w, d = c ∨ d = c.toUpper := by
    intro d hd
    cases casing with
    | small => exact ⟨d, hd, .inl rfl⟩
    | capitalised =>
      cases w with
      | nil => exact absurd hd List.not_mem_nil
      | cons c w =>
        rcases List.mem_cons.1 hd with rfl | hd
        · exact ⟨c, List.mem_cons_self, .inr rfl⟩
        · exact ⟨d, List.mem_cons_of_mem c hd, .inl rfl⟩
    | capital =>
      obtain ⟨c, hc, rfl⟩ := List.mem_map.1 hd
      exact ⟨c, hc, .inr rfl⟩
  intro d hd
  obtain ⟨c, hc, rfl | rfl⟩ := hupper d hd
  · exact h.isAlphanum d hc
  · exact isAlphanum_toUpper (h.isAlphanum c hc)

/-- The casing of a word leaves no trace in its column. -/
theorem flatMap_capitals_write (h : IsPlainWord w) (casing : Casing) :
    (casing.write w).flatMap capitals = w.map Char.toUpper := by
  rw [← map_toUpper_write casing w, List.map_eq_flatMap]
  exact List.flatMap_congr fun d hd =>
    capitals_of_lt (toNat_lt_of_isAlphanum (isAlphanum_write h casing d hd))

/-- No word starts inside a word, however it is written; in capitals, it must not be followed by a
small letter. -/
theorem isUnbroken_write (h : IsPlainWord w) (casing : Casing) {after : Option Char}
    (hafter : casing = .capital → after.any isSmall = false) :
    IsUnbroken (casing.write w) after := by
  obtain ⟨c, v, rfl, hc, -, hv⟩ := h.exists_cons
  have hfirst : c.isAlphanum = true := h.isAlphanum c List.mem_cons_self
  have htail : ∀ d ∈ v, d.isAlphanum = true ∧ d.isUpper = false := fun d hd =>
    ⟨isAlphanum_of_isPlain (hv d hd), isUpper_eq_false_of_isPlain (hv d hd)⟩
  cases casing with
  | small => exact isUnbroken_of_tail (isSeparator_of_isAlphanum hfirst) htail after
  | capitalised =>
    exact isUnbroken_of_tail (isSeparator_of_isAlphanum (isAlphanum_toUpper hfirst)) htail after
  | capital =>
    refine isUnbroken_of_isChain ?_ ?_ (hafter rfl)
    · intro d hd
      have halphanum := isAlphanum_write h .capital d hd
      refine ⟨isSeparator_of_isAlphanum halphanum, ?_⟩
      obtain ⟨e, -, rfl⟩ := List.mem_map.1 hd
      rw [isSmall_of_lt (toNat_lt_of_isAlphanum halphanum), Char.isLower_toUpper_eq_false]
    · refine (List.isChain_map Char.toUpper).2 (h.isChain.imp ?_)
      rintro d e (hd | he) hdigit
      · exact absurd hdigit (by simp [isDigit_toUpper_eq_false hd])
      · have hupper : e.isUpper = false := isUpper_eq_false_of_isPlain (.inr he)
        have hsame : e.toUpper = e :=
          Char.toUpper_eq_of_not_isLower (by grind [Char.isLower, Char.isDigit])
        rw [hsame, isCapital_of_lt (toNat_lt_of_isAlphanum (isAlphanum_of_isPlain (.inr he))),
          hupper]

/-- A word that ends in front of what stands behind it is one part of the column, however it is
written. -/
theorem partsAfter_write (h : IsPlainWord w) (casing : Casing)
    (hafter : casing = .capital → rest.head?.any isSmall = false)
    (hend : ∀ c v, casing.write w = c :: v → EndsBefore (v.getLastD c) rest)
    (before : Option Char) :
    ∃ last, partsAfter before (casing.write w ++ rest) =
      w.map Char.toUpper :: partsAfter last rest := by
  have hunbroken := isUnbroken_write h casing hafter
  have hpart := flatMap_capitals_write h casing
  cases hw : casing.write w with
  | nil =>
    obtain ⟨c, v, rfl, -⟩ := h.exists_cons
    cases casing <;> exact absurd hw (List.cons_ne_nil _ _)
  | cons c v =>
    rw [hw] at hunbroken hpart
    exact ⟨some (v.getLastD c), hpart ▸ partsAfter_append hunbroken (hend c v hw) before⟩

/-- Not all in capitals, a word ends with a small letter or a digit. -/
theorem last_write (h : IsPlainWord w) {casing : Casing} (hcasing : casing ≠ .capital) {c : Char}
    {v : List Char} (hw : casing.write w = c :: v) :
    (v.getLastD c).isLower = true ∨ (v.getLastD c).isDigit = true := by
  obtain ⟨d, u, rfl, -, hne, hu⟩ := h.exists_cons
  have hsame : v = u := by
    cases casing with
    | small => exact (List.cons.inj hw).2.symm
    | capitalised => exact (List.cons.inj hw).2.symm
    | capital => exact absurd rfl hcasing
  obtain ⟨e, u, rfl⟩ := List.exists_cons_of_ne_nil hne
  rw [hsame, List.getLastD_cons]
  exact hu _ List.getLastD_mem_cons

/-- So the capital of the next word starts that word. -/
theorem endsBefore_capitalise {c : Char} (hc : c.isLower = true ∨ c.isDigit = true)
    (h : IsPlainWord w) (rest : List Char) : EndsBefore c (capitalise w ++ rest) := by
  obtain ⟨d, v, rfl, hd, -⟩ := h.exists_cons
  have hupper := isUpper_toUpper_of_isLower hd
  have halphanum := isAlphanum_toUpper (h.isAlphanum d List.mem_cons_self)
  have hcapital : isCapital d.toUpper = true :=
    (isCapital_of_lt (toNat_lt_of_isAlphanum halphanum)).trans hupper
  have hsmall : isSmall c = c.isLower :=
    isSmall_of_lt (toNat_lt_of_isAlphanum (isAlphanum_of_isPlain hc))
  refine endsBefore_start (isSeparator_of_isAlphanum halphanum) ?_
  rcases hc with hc | hc <;> simp [startsWord, hcapital, hsmall, hc]

theorem isSmall_of_isSeparator {c : Char} (h : isSeparator c = true) : isSmall c = false := by
  simp only [isSeparator, Bool.or_eq_true, decide_eq_true_eq] at h
  rcases h with ((rfl | rfl) | rfl) | rfl <;> decide

/-- A word ends at the end of a name and at a separator. -/
theorem partsAfter_write_apart (h : IsPlainWord w) (casing : Casing)
    (hrest : ∀ d ∈ rest.head?, isSeparator d = true) (before : Option Char) :
    ∃ last, partsAfter before (casing.write w ++ rest) =
      w.map Char.toUpper :: partsAfter last rest := by
  refine partsAfter_write h casing (fun _ => ?_) (fun _ _ _ => endsBefore_separator hrest) before
  cases rest with
  | nil => rfl
  | cons d rest => exact isSmall_of_isSeparator (hrest d rfl)

end Word

/-! ### Spellings -/

/-- Words that are written apart give one part each. -/
theorem partsAfter_apart {ws : List (List Char)} {text : List Char} (h : IsSpelledApart ws text)
    (hwords : ∀ w ∈ ws, IsPlainWord w) {back : List Char} (hback : AreSeparators back)
    (before : Option Char) :
    partsAfter before (text ++ back) = ws.map fun w => w.map Char.toUpper := by
  induction h generalizing before with
  | last casing w =>
    obtain ⟨last, hw⟩ := partsAfter_write_apart (hwords w (by simp)) casing
      (fun d hd => hback.isSeparator d (List.mem_of_mem_head? hd)) before
    obtain ⟨final, hnone⟩ := partsAfter_separators hback.isSeparator last []
    rw [List.append_nil, partsAfter_nil] at hnone
    rw [hw, hnone]
    rfl
  | @more casing w run text ws hne hrun _ ih =>
    obtain ⟨hw, hwords⟩ := List.forall_mem_cons.1 hwords
    have hhead : ∀ d ∈ (run ++ (text ++ back)).head?, isSeparator d = true := by
      rw [List.head?_append_of_ne_nil _ hne]
      exact fun d hd => hrun.isSeparator d (List.mem_of_mem_head? hd)
    obtain ⟨last, hpart⟩ := partsAfter_write_apart hw casing hhead before
    obtain ⟨last', hskip⟩ := partsAfter_separators hrun.isSeparator last (text ++ back)
    rw [List.append_assoc, List.append_assoc, hpart, hskip, ih hwords]
    rfl

/-- Words that are run together, each but perhaps the first with a capital in front, give one part
each. -/
theorem partsAfter_humps {w : List Char} {ws : List (List Char)}
    (hwords : ∀ u ∈ w :: ws, IsPlainWord u) (casing : Casing) (hcasing : casing ≠ .capital)
    (before : Option Char) :
    partsAfter before (casing.write w ++ ws.flatMap capitalise) =
      (w :: ws).map fun u => u.map Char.toUpper := by
  -- On the further words: each stands in capitalised form in front of those that follow it.
  induction ws generalizing w casing before with
  | nil =>
    have hback : ∀ d ∈ ([] : List Char).head?, isSeparator d = true := by simp
    obtain ⟨last, hw⟩ := partsAfter_write_apart (hwords w (by simp)) casing hback before
    rw [List.flatMap_nil, hw, partsAfter_nil]
    rfl
  | cons u ws ih =>
    obtain ⟨hw, hmore⟩ := List.forall_mem_cons.1 hwords
    have hend : ∀ c v, casing.write w = c :: v →
        EndsBefore (v.getLastD c) ((u :: ws).flatMap capitalise) := fun c v hv =>
      endsBefore_capitalise (last_write hw hcasing hv) (hmore u List.mem_cons_self) _
    obtain ⟨last, hpart⟩ := partsAfter_write hw casing (fun h => absurd h hcasing) hend before
    have hrest : partsAfter last ((u :: ws).flatMap capitalise) =
        (u :: ws).map fun u => u.map Char.toUpper :=
      ih hmore .capitalised (by decide) last
    rw [hpart, hrest]
    rfl

/-- Each way to spell some words is divided into these words. -/
theorem parts_of_isSpelling {ws : List (List Char)} {s : List Char}
    (hwords : ∀ w ∈ ws, IsPlainWord w) (h : IsSpelling ws s) :
    parts s = ws.map fun w => w.map Char.toUpper := by
  rw [parts_eq]
  cases h with
  | camel w ws => exact partsAfter_humps hwords .small (by decide) none
  | pascal w ws => exact partsAfter_humps hwords .capitalised (by decide) none
  | apart hfront h hback =>
    obtain ⟨last, hskip⟩ := partsAfter_separators hfront.isSeparator none _
    rw [hskip, partsAfter_apart h hwords hback]

/-- Every spelling of the same words is a name of the same column: the words in capitals, joined by
single underscores. -/
theorem ofName_of_isSpelling {ws : List (List Char)} {name : String}
    (hwords : ∀ w ∈ ws, IsPlainWord w) (h : IsSpelling ws name.toList) :
    ofName name = String.ofList (['_'].intercalate (ws.map fun w => w.map Char.toUpper)) := by
  rw [ofName, fold, parts_of_isSpelling hwords h]

/-- Two words, one of them with a digit, run together and written apart in letters of both sizes. -/
theorem unitSet_spellings_agree :
    (∀ w ∈ ["unit".toList, "set1".toList], IsPlainWord w) ∧
      IsSpelling ["unit".toList, "set1".toList] "unitSet1".toList ∧
      IsSpelling ["unit".toList, "set1".toList] ".UNIT -Set1__".toList ∧
      ofName "unitSet1" = "UNIT_SET1" ∧ ofName ".UNIT -Set1__" = "UNIT_SET1" := by
  have hunit : IsPlainWord "unit".toList :=
    ⟨"unit".toList, [], rfl, by decide, List.all_eq_true.1 (by decide), by simp⟩
  have hset : IsPlainWord "set1".toList :=
    ⟨"set".toList, "1".toList, rfl, by decide, List.all_eq_true.1 (by decide),
      List.all_eq_true.1 (by decide)⟩
  have hwords : ∀ w ∈ ["unit".toList, "set1".toList], IsPlainWord w :=
    List.forall_mem_cons.2 ⟨hunit, List.forall_mem_cons.2 ⟨hset, by simp⟩⟩
  have hcamel : IsSpelling ["unit".toList, "set1".toList] "unitSet1".toList :=
    .camel "unit".toList ["set1".toList]
  have hapart : IsSpelling ["unit".toList, "set1".toList] ".UNIT -Set1__".toList := by
    have hfront : AreSeparators ['.'] := by simp [AreSeparators]
    have hrun : AreSeparators [' ', '-'] := by simp [AreSeparators]
    have hback : AreSeparators ['_', '_'] := by simp [AreSeparators]
    exact .apart hfront (.more .capital "unit".toList (by decide) hrun
      (.last .capitalised "set1".toList)) hback
  exact ⟨hwords, hcamel, hapart, (ofName_of_isSpelling hwords hcamel).trans (by decide),
    (ofName_of_isSpelling hwords hapart).trans (by decide)⟩

end ResourceApi.Column
