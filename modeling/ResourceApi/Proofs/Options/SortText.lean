import ResourceApi.Filter.Clause
import ResourceApi.Options.Sort
import ResourceApi.Proofs.Text.Trim

/-!
Sort orders and their canonical texts. A text stands for its items, the last of which may be a
direction; the canonical text lists the fields and adds `desc`, and never `asc`. So a sort order
comes back from its canonical text unless a field cannot stand in a list, or the last of several
fields is a word for a direction and none is written behind it; and a text can lose the direction
that it names.
-/

namespace ResourceApi

open Text

/-- The name of a direction, in letters of either size. -/
def Direction.IsSpelled (d : Direction) (w : String) : Prop :=
  w.toList.map Char.toLower = d.name.toList

instance (d : Direction) (w : String) : Decidable (d.IsSpelled w) :=
  inferInstanceAs (Decidable (w.toList.map Char.toLower = d.name.toList))

theorem Direction.ofText_eq_ok_iff {w : String} {d : Direction} :
    Direction.ofText w = .ok d ↔ (trim w.toList).map Char.toLower = d.name.toList := by
  have hname : (trim w.toList).map Char.toLower = d.name.toList ↔
      String.ofList ((trim w.toList).map Char.toLower) = d.name := by
    rw [← String.toList_inj, String.toList_ofList]
  rw [hname, Direction.ofText, Direction.ofChars]
  split
  · rename_i hasc
    rw [hasc]
    cases d <;> simp [Direction.name]
  · rename_i hdesc
    rw [hdesc]
    cases d <;> simp [Direction.name]
  · rename_i hasc hdesc
    cases d with
    | asc => simpa [Direction.name] using hasc
    | desc => simpa [Direction.name] using hdesc

namespace SortOrder

def IsDirectionWord (w : String) : Prop := ∃ d : Direction, d.IsSpelled w

/-- What can stand between commas: something without a comma in it or white space around it. -/
structure IsField (f : String) : Prop where
  ne_nil : f.toList ≠ []
  comma : ',' ∉ f.toList
  first : ∀ c ∈ f.toList.head?, isBlank c = false
  last : ∀ c ∈ f.toList.getLast?, isBlank c = false

def items (t : String) : List String := (tokens t.toList).map String.ofList

theorem ofText_eq (t : String) : ofText t = ofTokens (items t) := rfl

/-! ### Items -/

theorem IsField.trim {f : String} (h : IsField f) : trim f.toList = f.toList :=
  trimBy_eq_self_iff.2 ⟨h.first, h.last⟩

theorem isField_of_trim {f : String} (hne : f.toList ≠ []) (hcomma : ',' ∉ f.toList)
    (htrim : Text.trim f.toList = f.toList) : IsField f :=
  ⟨hne, hcomma, (trimBy_eq_self_iff.1 htrim).1, (trimBy_eq_self_iff.1 htrim).2⟩

theorem isField_of_mem_items {t f : String} (h : f ∈ items t) : IsField f := by
  obtain ⟨s, hs, rfl⟩ := List.mem_map.1 h
  obtain ⟨htrim, hne⟩ := List.mem_filter.1 hs
  obtain ⟨piece, hpiece, rfl⟩ := List.mem_map.1 htrim
  have hself : Text.trim (Text.trim piece) = Text.trim piece := trimBy_trimBy isBlank piece
  have hcomma : ',' ∉ Text.trim piece := fun hmem =>
    notMem_of_mem_splitOn hpiece (mem_of_mem_trimBy hmem)
  rw [← String.toList_ofList (l := Text.trim piece)] at hne hcomma
  exact isField_of_trim (by simpa using hne) hcomma (by rw [String.toList_ofList, hself])

/-- Fields come apart at the commas between them. -/
theorem tokens_intercalate {fs : List String} (hne : fs ≠ []) (h : ∀ f ∈ fs, IsField f) :
    tokens ([','].intercalate (fs.map String.toList)) = fs.map String.toList := by
  have hcomma : ∀ l ∈ fs.map String.toList, ',' ∉ l := by
    intro l hl
    obtain ⟨f, hf, rfl⟩ := List.mem_map.1 hl
    exact (h f hf).comma
  have htrim : ∀ f ∈ fs, (Text.trim ∘ String.toList) f = f.toList := fun f hf => (h f hf).trim
  have hfilled : ∀ l ∈ fs.map String.toList, (!l.isEmpty) = true := by
    intro l hl
    obtain ⟨f, hf, rfl⟩ := List.mem_map.1 hl
    simpa using (h f hf).ne_nil
  rw [tokens, List.splitOn_intercalate ',' hcomma (by simpa using hne), List.map_map,
    List.map_congr_left htrim, List.filter_eq_self.2 hfilled]

/-! ### Canonical texts -/

theorem toList_text {s : SortOrder} (hne : s.fields ≠ []) :
    s.text.toList = [','].intercalate (s.words.map String.toList) := by
  obtain ⟨fields, direction⟩ := s
  have hfields : fields.map String.toList ≠ [] := by simpa using hne
  rw [text, words, String.toList_append, String.toList_intercalate, List.map_append]
  cases direction with
  | asc => simp
  | desc =>
    rw [Filter.intercalate_append hfields (by simp)]
    simp

theorem isField_of_mem_words {s : SortOrder} (h : ∀ f ∈ s.fields, IsField f) :
    ∀ f ∈ s.words, IsField f := by
  have hdesc : IsField "desc" := isField_of_trim (by decide) (by decide) rfl
  obtain ⟨fields, direction⟩ := s
  cases direction with
  | asc => simpa [words] using h
  | desc => exact List.forall_mem_append.2 ⟨h, by simpa using hdesc⟩

/-- The items of a canonical text are the words that it was made of. -/
theorem items_text {s : SortOrder} (hne : s.fields ≠ []) (h : ∀ f ∈ s.fields, IsField f) :
    items s.text = s.words := by
  have hwords : s.words ≠ [] := List.append_ne_nil_of_left_ne_nil hne _
  rw [items, toList_text hne, tokens_intercalate hwords (isField_of_mem_words h)]
  simp

/-! ### Reading items -/

theorem IsField.direction_eq_ok_iff {w : String} (h : IsField w) {d : Direction} :
    Direction.ofText w = .ok d ↔ d.IsSpelled w := by
  rw [Direction.ofText_eq_ok_iff, h.trim]
  rfl

theorem ofTokens_concat {fs : List String} (hne : fs ≠ []) (w : String) :
    ofTokens (fs ++ [w]) = match Direction.ofText w with
      | .ok d => .ok ⟨fs, d⟩
      | .error _ => .ok (ofFields (fs ++ [w])) := by
  have hsingle : ∀ f, fs ++ [w] = [f] → False := by
    intro f hf
    have hlength := congrArg List.length hf
    simp [hne] at hlength
  rw [ofTokens, List.getLast?_concat, List.dropLast_concat]
  · cases hw : Direction.ofText w <;> simp [hw]
  · simp
  · exact hsingle

/-- What items stand for: they are the fields, but the last of several may be the direction. -/
inductive Means : List String → SortOrder → Prop
  | single (f : String) : Means [f] ⟨[f], .asc⟩
  | fields {fs : List String} {w : String} (hne : fs ≠ []) (hw : ∀ d, Direction.ofText w ≠ .ok d) :
      Means (fs ++ [w]) ⟨fs ++ [w], .asc⟩
  | directed {fs : List String} {w : String} {d : Direction} (hne : fs ≠ [])
      (hw : Direction.ofText w = .ok d) : Means (fs ++ [w]) ⟨fs, d⟩

/-- Items are read as what they stand for. -/
theorem ofTokens_eq_ok_iff {ws : List String} {s : SortOrder} :
    ofTokens ws = .ok s ↔ Means ws s := by
  constructor
  · intro h
    rcases List.eq_nil_or_concat' ws with rfl | ⟨front, w, rfl⟩
    · cases h
    · by_cases hfront : front = []
      · subst hfront
        cases h
        exact .single w
      · rw [ofTokens_concat hfront] at h
        cases hw : Direction.ofText w with
        | ok d =>
          rw [hw] at h
          cases h
          exact .directed hfront hw
        | error e =>
          rw [hw] at h
          cases h
          exact .fields hfront (by simp [hw])
  · rintro (f | ⟨hne, hw⟩ | ⟨hne, hw⟩)
    · rfl
    · rename_i fs w
      rw [ofTokens_concat hne]
      cases hword : Direction.ofText w with
      | ok d => exact absurd hword (hw d)
      | error e => rfl
    · rw [ofTokens_concat hne, hw]

theorem Means.fields_ne_nil {ws : List String} {s : SortOrder} (h : Means ws s) :
    s.fields ≠ [] := by
  cases h with
  | single f => exact List.cons_ne_nil f []
  | fields hne hw => simp
  | directed hne hw => exact hne

theorem Means.fields_subset {ws : List String} {s : SortOrder} (h : Means ws s) :
    s.fields ⊆ ws := by
  cases h with
  | single f => exact List.Subset.refl _
  | fields hne hw => exact List.Subset.refl _
  | directed hne hw => exact List.subset_append_left _ _

theorem isField_of_ofText {t : String} {s : SortOrder} (h : ofText t = .ok s) :
    ∀ f ∈ s.fields, IsField f := fun _ hf =>
  isField_of_mem_items ((ofTokens_eq_ok_iff.1 h).fields_subset hf)

theorem fields_ne_nil_of_ofText {t : String} {s : SortOrder} (h : ofText t = .ok s) :
    s.fields ≠ [] := (ofTokens_eq_ok_iff.1 h).fields_ne_nil

/-! ### Reading canonical texts -/

/-- A word for a direction is a field like others, so it is the direction that is read. -/
theorem IsField.isDirectionWord_iff {w : String} (h : IsField w) :
    IsDirectionWord w ↔ ∃ d, Direction.ofText w = .ok d := by
  simp only [IsDirectionWord, h.direction_eq_ok_iff]

/-- Canonical texts keep fields in front of a direction, a field alone, and fields of which the last
is no word for a direction. -/
theorem ofText_text_of_fields {s : SortOrder} (hne : s.fields ≠ [])
    (h : ∀ f ∈ s.fields, IsField f) :
    ofText s.text = .ok s ↔
      s.direction = .desc ∨ s.fields.length = 1 ∨ ∀ f ∈ s.fields.getLast?, ¬IsDirectionWord f := by
  rw [ofText_eq, items_text hne h]
  obtain ⟨fields, direction⟩ := s
  cases direction with
  | desc =>
    have hdesc : Direction.ofText "desc" = .ok .desc := rfl
    have hread : ofTokens (fields ++ ["desc"]) = .ok ⟨fields, .desc⟩ := by
      rw [ofTokens_concat hne, hdesc]
    exact iff_of_true hread (.inl rfl)
  | asc =>
    have hwords : words ⟨fields, .asc⟩ = fields := List.append_nil fields
    rw [hwords]
    rcases List.eq_nil_or_concat' fields with rfl | ⟨front, w, rfl⟩
    · exact absurd rfl hne
    · have hw : IsField w := h w (by simp)
      by_cases hfront : front = []
      · subst hfront
        exact iff_of_true rfl (.inr (.inl rfl))
      · rw [ofTokens_concat hfront]
        cases hread : Direction.ofText w with
        | ok d =>
          have hword : IsDirectionWord w := hw.isDirectionWord_iff.2 ⟨d, hread⟩
          simp [hfront, hword]
        | error e =>
          have hword : ¬IsDirectionWord w := by simp [hw.isDirectionWord_iff, hread]
          simp [ofFields, hword]

/-- A sort order comes back from its canonical text if and only if its fields can stand in a list
and, unless it is descending or has a single field, the last one is no word for a direction. -/
theorem ofText_text_eq_ok_iff {s : SortOrder} (hne : s.fields ≠ []) :
    ofText s.text = .ok s ↔ (∀ f ∈ s.fields, IsField f) ∧
      (s.direction = .desc ∨ s.fields.length = 1 ∨
        ∀ f ∈ s.fields.getLast?, ¬IsDirectionWord f) := by
  constructor
  · intro h
    have hfields := isField_of_ofText h
    exact ⟨hfields, (ofText_text_of_fields hne hfields).1 h⟩
  · rintro ⟨hfields, hlast⟩
    exact (ofText_text_of_fields hne hfields).2 hlast

/-- Words for directions stay fields in front of a direction, and else the last of them does not. -/
theorem descending_directions_come_back :
    (⟨["desc", "Asc"], .desc⟩ : SortOrder).fields ≠ [] ∧
      ofText (text ⟨["desc", "Asc"], .desc⟩) = .ok ⟨["desc", "Asc"], .desc⟩ ∧
      ofText (text ⟨["desc", "Asc"], .asc⟩) ≠ .ok ⟨["desc", "Asc"], .asc⟩ := by
  have hne : ["desc", "Asc"] ≠ [] := by decide
  have hdesc : IsField "desc" := isField_of_trim (by decide) (by decide) rfl
  have hasc : IsField "Asc" := isField_of_trim (by decide) (by decide) rfl
  refine ⟨hne, (ofText_text_eq_ok_iff hne).2 ⟨?_, .inl rfl⟩, fun h => ?_⟩
  · exact List.forall_mem_cons.2 ⟨hdesc, List.forall_mem_cons.2 ⟨hasc, by simp⟩⟩
  · rcases ((ofText_text_eq_ok_iff hne).1 h).2 with hdir | hlength | hlast
    · exact absurd hdir (by decide)
    · exact absurd hlength (by decide)
    · exact hlast "Asc" rfl ⟨.asc, by decide⟩

/-! ### Canonical texts of texts -/

/-- The items end with an `asc`, and in front of it, behind these fields, with a word for this
direction. -/
def Shields (ws front : List String) (d : Direction) : Prop :=
  ∃ w a, ws = front ++ [w, a] ∧ front ≠ [] ∧ d.IsSpelled w ∧ Direction.asc.IsSpelled a

/-- Only that `asc` is read as the direction. -/
theorem exists_of_shields {t : String} {s : SortOrder} (h : ofText t = .ok s) {front : List String}
    {d : Direction} (hshields : Shields (items t) front d) :
    ∃ w, s = ⟨front ++ [w], .asc⟩ ∧ front ≠ [] ∧ Direction.ofText w = .ok d := by
  obtain ⟨w, a, hitems, hfront, hw, ha⟩ := hshields
  have hfields : ∀ f ∈ front ++ [w, a], IsField f := fun f hf =>
    isField_of_mem_items (hitems ▸ hf)
  have hlast : Direction.ofText a = .ok .asc :=
    (hfields a (by simp)).direction_eq_ok_iff.2 ha
  have hgroup : front ++ [w, a] = (front ++ [w]) ++ [a] := by simp
  have hread : ofText t = .ok ⟨front ++ [w], .asc⟩ := by
    rw [ofText_eq, hitems, hgroup, ofTokens_concat (by simp), hlast]
  rw [h] at hread
  exact ⟨w, Except.ok.inj hread, hfront, (hfields w (by simp)).direction_eq_ok_iff.2 hw⟩

/-- A direction that was hidden behind another one takes effect when the text is read again. -/
theorem ofText_text_of_shields {t : String} {s : SortOrder} (h : ofText t = .ok s)
    {front : List String} {d : Direction} (hshields : Shields (items t) front d) :
    ofText s.text = .ok ⟨front, d⟩ := by
  have hfields := isField_of_ofText h
  obtain ⟨w, rfl, hfront, hw⟩ := exists_of_shields h hshields
  have hwords : words ⟨front ++ [w], .asc⟩ = front ++ [w] := List.append_nil _
  rw [ofText_eq, items_text (by simp) hfields, hwords, ofTokens_concat hfront, hw]

/-- Where nothing shields a word for a direction, it is not the last of several fields. -/
theorem last_of_not_shields {ws : List String} {s : SortOrder} (h : Means ws s)
    (hfields : ∀ w ∈ ws, IsField w) (hshields : ∀ front d, ¬Shields ws front d) :
    s.direction = .desc ∨ s.fields.length = 1 ∨
      ∀ f ∈ s.fields.getLast?, ¬IsDirectionWord f := by
  cases h with
  | single f => exact .inr (.inl rfl)
  | @fields fs w hne hw =>
    refine .inr (.inr ?_)
    intro f hf
    obtain rfl : w = f := by simpa using hf
    rw [(hfields w (by simp)).isDirectionWord_iff]
    rintro ⟨d, hd⟩
    exact hw d hd
  | @directed fs w d hne hw =>
    cases d with
    | desc => exact .inl rfl
    | asc =>
      rcases List.eq_nil_or_concat' fs with rfl | ⟨front, f, rfl⟩
      · exact absurd rfl hne
      · by_cases hfront : front = []
        · subst hfront
          exact .inr (.inl rfl)
        · refine .inr (.inr ?_)
          -- A word for a direction would be shielded by the `asc` that was written.
          rintro g hg ⟨e, he⟩
          obtain rfl : f = g := by simpa using hg
          have ha : Direction.asc.IsSpelled w :=
            (hfields w (by simp)).direction_eq_ok_iff.1 hw
          exact hshields front e ⟨f, w, by simp, hfront, he, ha⟩

/-- A text that is read has a canonical text that is read alike, unless an `asc` at its end shields
a word for a direction; then that word is read as the direction, and is no field any more. -/
theorem ofText_text_of_ofText {t : String} {s : SortOrder} (h : ofText t = .ok s) :
    (ofText s.text = .ok s ↔ ∀ front d, ¬Shields (items t) front d) ∧
      ∀ front d, Shields (items t) front d → ofText s.text = .ok ⟨front, d⟩ := by
  refine ⟨⟨?_, ?_⟩, fun front d hshields => ofText_text_of_shields h hshields⟩
  · intro hsame front d hshields
    have hother := ofText_text_of_shields h hshields
    obtain ⟨w, rfl, -, -⟩ := exists_of_shields h hshields
    rw [hsame] at hother
    have hfields : front ++ [w] = front := congrArg SortOrder.fields (Except.ok.inj hother)
    simp at hfields
  · intro hshields
    refine (ofText_text_of_fields (fields_ne_nil_of_ofText h) (isField_of_ofText h)).2 ?_
    exact last_of_not_shields (ofTokens_eq_ok_iff.1 h) (fun w hw => isField_of_mem_items hw)
      hshields

/-- Blanks, empty items and letters of both sizes, without an `asc` behind the direction. -/
theorem untidy_text_keeps_direction :
    ofText " TITLE ,,Asc, Desc" = .ok ⟨["TITLE", "Asc"], .desc⟩ ∧
      ofText (text ⟨["TITLE", "Asc"], .desc⟩) = .ok ⟨["TITLE", "Asc"], .desc⟩ := by
  have hread : ofText " TITLE ,,Asc, Desc" = .ok ⟨["TITLE", "Asc"], .desc⟩ := rfl
  refine ⟨hread, (ofText_text_of_ofText hread).1.2 ?_⟩
  rintro front d ⟨w, a, hshielded, -, -, ha⟩
  have hitems : items " TITLE ,,Asc, Desc" = ["TITLE", "Asc", "Desc"] := rfl
  have hlast : some "Desc" = some a := by
    have heq := congrArg List.getLast? (hitems.symm.trans hshielded)
    simpa using heq
  obtain rfl := Option.some.inj hlast
  exact absurd ha (by decide)

/-- With an `asc` behind it, a field named `desc` turns into the direction, and a query sends the
same words for the two orders. -/
theorem shielded_desc_turns_into_direction :
    ofText "CODE,desc,asc" = .ok ⟨["CODE", "desc"], .asc⟩ ∧
      ofText (text ⟨["CODE", "desc"], .asc⟩) = .ok ⟨["CODE"], .desc⟩ ∧
      words ⟨["CODE", "desc"], .asc⟩ = words ⟨["CODE"], .desc⟩ := ⟨rfl, rfl, rfl⟩

end SortOrder

end ResourceApi
