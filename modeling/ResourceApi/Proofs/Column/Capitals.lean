import ResourceApi.Proofs.Column.Words
import ResourceApi.Proofs.Filter.Column

/-!
Names that are written in capitals already, with underscores between the words. The column of such
a name has one underscore more wherever a capital follows a digit, and is otherwise the name; so
exactly the names without such a place are columns of themselves.
-/

namespace ResourceApi.Column

open Text

def isColumnChar (c : Char) : Bool := c.isUpper || c.isDigit

/-- A word of capitals and digits that starts with a capital, then any number of further words of
capitals and digits, each behind an underscore. -/
def IsColumn (s : List Char) : Prop :=
  ∃ (c : Char) (word : List Char) (words : List (List Char)),
    s = c :: word ++ words.flatMap ('_' :: ·) ∧ c.isUpper = true ∧
      (∀ d ∈ word, isColumnChar d = true) ∧
      ∀ w ∈ words, w ≠ [] ∧ ∀ d ∈ w, isColumnChar d = true

def isDivision (c d : Char) : Bool := c.isDigit && d.isUpper

/-- Puts an underscore between each digit and a capital right behind it. -/
def divided : List Char → List Char
  | c :: d :: rest =>
    if isDivision c d then c :: '_' :: divided (d :: rest) else c :: divided (d :: rest)
  | s => s

/-! ### Dividing -/

/-- Nothing is added only where no capital follows a digit. -/
theorem divided_eq_self_iff (s : List Char) :
    divided s = s ↔ s.IsChain fun c d => isDivision c d = false := by
  induction s with
  | nil => simp [divided]
  | cons c s ih =>
    cases s with
    | nil => simp [divided]
    | cons d rest =>
      rw [divided, List.isChain_cons_cons, ← ih]
      cases hdivision : isDivision c d with
      | true =>
        have hne : '_' ≠ d := by
          rintro rfl
          exact absurd hdivision (by simp [isDivision])
        simp [hne]
      | false => simp

/-! ### The words of such names -/

/-- What may stand behind a character of such a name. -/
inductive IsColumnTail : List Char → Prop
  | nil : IsColumnTail []
  | char {c : Char} {rest : List Char} (hc : isColumnChar c = true) (h : IsColumnTail rest) :
      IsColumnTail (c :: rest)
  | underscore {c : Char} {rest : List Char} (hc : isColumnChar c = true)
      (h : IsColumnTail rest) : IsColumnTail ('_' :: c :: rest)

theorem isColumnTail_append {w rest : List Char} (hw : ∀ d ∈ w, isColumnChar d = true)
    (h : IsColumnTail rest) : IsColumnTail (w ++ rest) := by
  induction w with
  | nil => exact h
  | cons d w ih =>
    obtain ⟨hd, hw⟩ := List.forall_mem_cons.1 hw
    exact .char hd (ih hw)

theorem isColumnTail_flatMap {words : List (List Char)}
    (h : ∀ w ∈ words, w ≠ [] ∧ ∀ d ∈ w, isColumnChar d = true) :
    IsColumnTail (words.flatMap ('_' :: ·)) := by
  induction words with
  | nil => exact .nil
  | cons w words ih =>
    obtain ⟨⟨hne, hw⟩, hwords⟩ := List.forall_mem_cons.1 h
    obtain ⟨d, w, rfl⟩ := List.exists_cons_of_ne_nil hne
    obtain ⟨hd, hw⟩ := List.forall_mem_cons.1 hw
    exact .underscore hd (isColumnTail_append hw (ih hwords))

/-- A name of this form begins with a character of its first word. -/
theorem IsColumn.exists_cons {s : List Char} (h : IsColumn s) :
    ∃ c rest, s = c :: rest ∧ isColumnChar c = true ∧ IsColumnTail rest := by
  obtain ⟨c, word, words, rfl, hc, hword, hwords⟩ := h
  exact ⟨c, word ++ words.flatMap ('_' :: ·), rfl, by simp [isColumnChar, hc],
    isColumnTail_append hword (isColumnTail_flatMap hwords)⟩

theorem isAlphanum_of_isColumnChar {c : Char} (h : isColumnChar c = true) :
    c.isAlphanum = true := by
  grind [isColumnChar, Char.isAlphanum, Char.isAlpha]

theorem isLower_of_isColumnChar {c : Char} (h : isColumnChar c = true) : c.isLower = false := by
  grind [isColumnChar, Char.isUpper, Char.isLower, Char.isDigit]

theorem isSmall_of_isColumnChar {c : Char} (h : isColumnChar c = true) : isSmall c = false :=
  (isSmall_of_lt (toNat_lt_of_isAlphanum (isAlphanum_of_isColumnChar h))).trans
    (isLower_of_isColumnChar h)

/-- Capitals and digits are their own capital form. -/
theorem capitals_of_isColumnChar {c : Char} (h : isColumnChar c = true) : capitals c = [c] := by
  have hlower : ¬c.isLower = true := by simp [isLower_of_isColumnChar h]
  rw [capitals_of_lt (toNat_lt_of_isAlphanum (isAlphanum_of_isColumnChar h)),
    Char.toUpper_eq_of_not_isLower hlower]

/-- No small letter stands behind a character of such a name. -/
theorem isSmall_of_isColumnTail {s : List Char} (h : IsColumnTail s) :
    s.head?.any isSmall = false := by
  cases h with
  | nil => rfl
  | char hc _ => exact isSmall_of_isColumnChar hc
  | underscore _ _ =>
    have hunder : isSmall '_' = false := by decide
    exact hunder

/-- Words start exactly at the capitals behind digits. -/
theorem startsWord_eq {c d : Char} {rest : List Char} (hc : isColumnChar c = true ∨ c = '_')
    (hd : isColumnChar d = true) (hrest : IsColumnTail rest) :
    (some c).any (startsWord · d rest.head?) = isDivision c d := by
  have hnext := isSmall_of_isColumnTail hrest
  have hsmall : isSmall c = false := by
    rcases hc with hc | rfl
    · exact isSmall_of_isColumnChar hc
    · decide
  have hcapital : isCapital d = d.isUpper :=
    isCapital_of_lt (toNat_lt_of_isAlphanum (isAlphanum_of_isColumnChar hd))
  rw [Option.any_some, startsWord, hsmall, hnext, hcapital]
  simp [isDivision, Bool.and_comm]

theorem intercalate_cons_head (c : Char) (w : List Char) (more : List (List Char)) :
    ['_'].intercalate ((c :: w) :: more) = c :: ['_'].intercalate (w :: more) := by
  cases more <;> simp [List.intercalate_cons_cons]

/-- The words behind a character, of which only the first may be empty, joined by underscores. -/
def Joins (c : Char) (s : List Char) : Prop :=
  ∃ w more, words (some c) s = w :: more ∧ [] ∉ more ∧
    c :: ['_'].intercalate (w :: more) = divided (c :: s)

/-- A character joins the words behind it as long as no capital follows a digit, and else starts
one. -/
theorem joins_char {c d : Char} {rest : List Char} (hc : isColumnChar c = true ∨ c = '_')
    (hd : isColumnChar d = true) (hrest : IsColumnTail rest) (h : Joins d rest) :
    Joins c (d :: rest) := by
  obtain ⟨w, more, hwords, hmore, hjoin⟩ := h
  have hsep : isSeparator d = false := isSeparator_of_isAlphanum (isAlphanum_of_isColumnChar hd)
  have hstart := startsWord_eq hc hd hrest
  cases hdivision : isDivision c d with
  | true =>
    refine ⟨[], (d :: w) :: more, ?_, by simp [hmore], ?_⟩
    · rw [words_start hsep (hstart.trans hdivision), hwords, List.modifyHead_cons]
    · rw [List.intercalate_cons_cons, intercalate_cons_head, hjoin, divided, if_pos hdivision]
      rfl
  | false =>
    refine ⟨d :: w, more, ?_, hmore, ?_⟩
    · rw [words_continue hsep (hstart.trans hdivision), hwords, List.modifyHead_cons]
    · rw [intercalate_cons_head, hjoin, divided, hdivision]
      rfl

theorem joins_underscore {c d : Char} {rest : List Char} (hd : isColumnChar d = true)
    (hrest : IsColumnTail rest) (h : Joins d rest) : Joins c ('_' :: d :: rest) := by
  obtain ⟨w, more, hwords, hmore, hjoin⟩ := h
  have hsep : isSeparator d = false := isSeparator_of_isAlphanum (isAlphanum_of_isColumnChar hd)
  have hbefore : isDivision '_' d = false := by simp [isDivision]
  have hunder : isDivision c '_' = false := by simp [isDivision]
  have hstart := startsWord_eq (.inr rfl) hd hrest
  refine ⟨[], (d :: w) :: more, ?_, by simp [hmore], ?_⟩
  · rw [words_separator (by decide), words_continue hsep (hstart.trans hbefore), hwords,
      List.modifyHead_cons]
  · rw [List.intercalate_cons_cons, intercalate_cons_head, hjoin, divided, hunder, divided, hbefore]
    rfl

/-- Whatever the character in front, what stands behind it is words between underscores. -/
theorem joins_of_isColumnTail {s : List Char} (h : IsColumnTail s) :
    ∀ c, (isColumnChar c = true ∨ c = '_') → Joins c s := by
  -- For every character in front, since that one decides whether a word starts.
  induction h with
  | nil => exact fun c _ => ⟨[], [], rfl, List.not_mem_nil, rfl⟩
  | char hd hrest ih => exact fun c hc => joins_char hc hd hrest (ih _ (.inl hd))
  | underscore hd hrest ih => exact fun c _ => joins_underscore hd hrest (ih _ (.inl hd))

/-! ### Columns -/

theorem IsColumn.isColumnChar {s : List Char} (h : IsColumn s) :
    ∀ d ∈ s, isSeparator d = false → isColumnChar d = true := by
  obtain ⟨c, word, words, rfl, hc, hword, hwords⟩ := h
  intro d hd hsep
  rcases List.mem_append.1 hd with hd | hd
  · rcases List.mem_cons.1 hd with rfl | hd
    · simp [Column.isColumnChar, hc]
    · exact hword d hd
  · obtain ⟨w, hw, hd⟩ := List.mem_flatMap.1 hd
    rcases List.mem_cons.1 hd with rfl | hd
    · exact absurd hsep (by decide)
    · exact (hwords w hw).2 d hd

/-- All that the column does to such a name is to divide digits from capitals. -/
theorem fold_of_isColumn {s : List Char} (h : IsColumn s) : fold s = divided s := by
  obtain ⟨c, rest, hs, hc, hrest⟩ := h.exists_cons
  obtain ⟨w, more, hwords, hmore, hjoin⟩ := joins_of_isColumnTail hrest c (.inl hc)
  have hsep : isSeparator c = false := isSeparator_of_isAlphanum (isAlphanum_of_isColumnChar hc)
  have hall : words none s = (c :: w) :: more := by
    rw [hs, words_continue hsep rfl, hwords, List.modifyHead_cons]
  have hfilter : (words none s).filter (fun w => !w.isEmpty) = words none s := by
    rw [List.filter_eq_self, hall]
    intro v hv
    have hne : v ≠ [] := ne_of_mem_of_not_mem hv (by simp [hmore])
    simpa using hne
  have hcapitals : ∀ v ∈ words none s, v.flatMap capitals = v := by
    intro v hv
    have hchars : ∀ d ∈ v, capitals d = [d] := by
      intro d hd
      obtain ⟨hname, hsep⟩ := Filter.mem_of_mem_words hv hd
      exact capitals_of_isColumnChar (h.isColumnChar d hname hsep)
    rw [List.flatMap_congr hchars, List.flatMap_singleton']
  have hparts : parts s = (c :: w) :: more := by
    rw [parts, hfilter, List.map_congr_left hcapitals, List.map_id', hall]
  rw [fold, hparts, intercalate_cons_head, hjoin, hs]

/-- The column of a name in capitals is the name with its capitals divided from digits in front of
them, so it is the name itself if and only if no capital follows a digit. -/
theorem ofName_of_isColumn {name : String} (h : IsColumn name.toList) :
    ofName name = String.ofList (divided name.toList) ∧
      (ofName name = name ↔
        name.toList.IsChain fun c d => ¬(c.isDigit = true ∧ d.isUpper = true)) := by
  have hfold : ofName name = String.ofList (divided name.toList) := by
    rw [ofName, fold_of_isColumn h]
  refine ⟨hfold, ?_⟩
  rw [hfold, ← String.toList_inj, String.toList_ofList, divided_eq_self_iff]
  simp [isDivision]

/-- Digits in front of underscores and inside words do not matter, capitals behind them do. -/
theorem line2Price_is_column :
    IsColumn "LINE2_PRICE_25".toList ∧ ofName "LINE2_PRICE_25" = "LINE2_PRICE_25" := by
  have hcolumn : IsColumn "LINE2_PRICE_25".toList :=
    ⟨'L', "INE2".toList, ["PRICE".toList, "25".toList], rfl, by decide,
      List.all_eq_true.1 (by decide), by simp [isColumnChar]⟩
  exact ⟨hcolumn, (ofName_of_isColumn hcolumn).2.2 (by decide)⟩

/-- A capital behind a digit makes a name in capitals another name. -/
theorem capital_behind_digit_is_divided :
    IsColumn "A1B".toList ∧ ofName "A1B" = "A1_B" ∧ ofName "A1B" ≠ "A1B" := by
  have hcolumn : IsColumn "A1B".toList :=
    ⟨'A', "1B".toList, [], rfl, by decide, List.all_eq_true.1 (by decide), by simp⟩
  have hname : ofName "A1B" = "A1_B" := by decide
  exact ⟨hcolumn, hname, hname ▸ by decide⟩

end ResourceApi.Column
