import ResourceApi.Proofs.Options.Query
import ResourceApi.Proofs.Options.SortText

/-!
The forms in which sort orders are written: an array of fields inside an array, a flat array, and a
text with its items between commas. With a direction they all stand for the same order. Without one
the last of several fields can be taken for it, but not in an array of its own.
-/

namespace ResourceApi

open Text

namespace SortOrder

/-! ### Items between commas -/

/-- Pieces that hold these items: an item has white space around it, and the pieces in between are
white space. -/
inductive Holds : List (List Char) → List String → Prop
  | nil : Holds [] []
  | blank {b : List Char} {ps : List (List Char)} {ws : List String}
      (hb : ∀ c ∈ b, isBlank c = true) (h : Holds ps ws) : Holds (b :: ps) ws
  | item {b b' : List Char} {w : String} {ps : List (List Char)} {ws : List String}
      (hb : ∀ c ∈ b, isBlank c = true) (hw : IsField w) (hb' : ∀ c ∈ b', isBlank c = true)
      (h : Holds ps ws) : Holds ((b ++ w.toList ++ b') :: ps) (w :: ws)

/-- A text that has these items, with commas between its pieces. -/
def Lists (t : String) (ws : List String) : Prop :=
  ∃ ps, ps ≠ [] ∧ Holds ps ws ∧ t.toList = [','].intercalate ps

theorem comma_notMem_blanks {b : List Char} (hb : ∀ c ∈ b, isBlank c = true) : ',' ∉ b :=
  fun hmem => absurd (hb ',' hmem) (by decide)

theorem Holds.comma_notMem {ps : List (List Char)} {ws : List String} (h : Holds ps ws) :
    ∀ p ∈ ps, ',' ∉ p := by
  induction h with
  | nil => exact fun p hp => absurd hp List.not_mem_nil
  | blank hb _ ih => exact List.forall_mem_cons.2 ⟨comma_notMem_blanks hb, ih⟩
  | item hb hw hb' _ ih =>
    refine List.forall_mem_cons.2 ⟨?_, ih⟩
    simp only [List.mem_append, not_or]
    exact ⟨⟨comma_notMem_blanks hb, hw.comma⟩, comma_notMem_blanks hb'⟩

theorem IsField.trim_around {w : String} (hw : IsField w) {b b' : List Char}
    (hb : ∀ c ∈ b, isBlank c = true) (hb' : ∀ c ∈ b', isBlank c = true) :
    Text.trim (b ++ w.toList ++ b') = w.toList := by
  have hend : trimEndBy isBlank b' = [] := by
    rw [trimEndBy_eq_rdropWhile, List.rdropWhile_eq_nil_iff]
    exact hb'
  rw [Text.trim, ← dropWhile_trimEndBy, trimEndBy_append, if_pos hend, dropWhile_trimEndBy, trimBy,
    List.dropWhile_append_of_pos hb]
  exact hw.trim

theorem Holds.filter_trim {ps : List (List Char)} {ws : List String} (h : Holds ps ws) :
    (ps.map trim).filter (fun t => !t.isEmpty) = ws.map String.toList := by
  induction h with
  | nil => rfl
  | blank hb _ ih =>
    rw [List.map_cons, trim_eq_nil_iff.2 (List.all_eq_true.2 hb)]
    exact ih
  | item hb hw hb' _ ih =>
    rw [List.map_cons, hw.trim_around hb hb', List.filter_cons_of_pos (by simpa using hw.ne_nil),
      ih, List.map_cons]

/-- A piece is white space, or a field with white space around it. -/
theorem blank_or_field {p : List Char} (hp : ',' ∉ p) :
    (∀ c ∈ p, isBlank c = true) ∧ trim p = [] ∨
      ∃ b b', p = b ++ trim p ++ b' ∧ (∀ c ∈ b, isBlank c = true) ∧
        (∀ c ∈ b', isBlank c = true) ∧ IsField (String.ofList (trim p)) := by
  obtain ⟨b', hend, hb'⟩ := exists_trimEndBy_append isBlank (p.dropWhile isBlank)
  have hfront : ∀ c ∈ p.takeWhile isBlank, isBlank c = true := fun _ hc => List.mem_takeWhile_imp hc
  have hpiece : p = p.takeWhile isBlank ++ trim p ++ b' := by
    rw [List.append_assoc, trim, trimBy, ← hend, List.takeWhile_append_dropWhile]
  by_cases hempty : trim p = []
  · refine .inl ⟨?_, hempty⟩
    rw [hpiece, hempty, List.append_nil]
    exact List.forall_mem_append.2 ⟨hfront, hb'⟩
  · have hcomma : ',' ∉ trim p := fun hmem => hp (mem_of_mem_trimBy hmem)
    have hself : trim (trim p) = trim p := trimBy_trimBy isBlank p
    exact .inr ⟨_, b', hpiece, hfront, hb', isField_of_trim (by simpa using hempty)
      (by simpa using hcomma) (by rw [String.toList_ofList, hself])⟩

theorem holds_of_comma_notMem {ps : List (List Char)} (h : ∀ p ∈ ps, ',' ∉ p) :
    Holds ps (((ps.map trim).filter fun t => !t.isEmpty).map String.ofList) := by
  induction ps with
  | nil => exact .nil
  | cons p ps ih =>
    obtain ⟨hp, hps⟩ := List.forall_mem_cons.1 h
    rw [List.map_cons]
    rcases blank_or_field hp with ⟨hblank, hempty⟩ | ⟨b, b', hpiece, hb, hb', hfield⟩
    · rw [hempty]
      exact .blank hblank (ih hps)
    · have hne : trim p ≠ [] := by simpa using hfield.ne_nil
      rw [List.filter_cons_of_pos (by simpa using hne), List.map_cons]
      have hitem := Holds.item hb hfield hb' (ih hps)
      rwa [String.toList_ofList, ← hpiece] at hitem

/-- The items of a text are what it lists. -/
theorem lists_iff {t : String} {ws : List String} : Lists t ws ↔ items t = ws := by
  constructor
  · rintro ⟨ps, hne, hholds, ht⟩
    rw [items, tokens, ht, List.splitOn_intercalate ',' hholds.comma_notMem hne,
      hholds.filter_trim]
    simp
  · rintro rfl
    refine ⟨t.toList.splitOn ',', List.splitOn_ne_nil ',' _, ?_,
      (List.intercalate_splitOn ',').symm⟩
    exact holds_of_comma_notMem fun p hp => notMem_of_mem_splitOn hp

/-! ### Forms -/

/-- What a sort order is read from. -/
inductive Source where
  | json (v : Json)
  | text (t : String)

def Source.read : Source → Except SortError SortOrder
  | json v => ofJson v
  | text t => ofText t

/-- The forms of items one after the other: a flat array, and a text. -/
inductive Itemised (ws : List String) : Source → Prop
  | flat : Itemised ws (.json (.array (ws.map .string)))
  | quoted {t : String} (h : Lists t ws) : Itemised ws (.json (.string t))
  | text {t : String} (h : Lists t ws) : Itemised ws (.text t)

theorem strings_map (ws : List String) : strings (ws.map .string) = .ok ws := by
  induction ws with
  | nil => rfl
  | cons w ws ih =>
    rw [List.map_cons, strings, ih]
    rfl

/-- Only strings are names of fields. -/
theorem eq_map_of_strings {vs : List Json} {ws : List String} (h : strings vs = .ok ws) :
    vs = ws.map .string := by
  induction vs generalizing ws with
  | nil =>
    cases h
    rfl
  | cons v vs ih =>
    cases v with
    | string f =>
      rw [strings] at h
      cases hvs : strings vs with
      | error e =>
        rw [hvs] at h
        cases h
      | ok us =>
        rw [hvs] at h
        cases h
        rw [ih hvs, List.map_cons]
    | _ => cases h

theorem ofJson_nested (fs : List String) :
    ofJson (.array [.array (fs.map .string)]) = .ok (ofFields fs) := by
  rw [ofJson, strings_map]
  rfl

theorem ofJson_nested_directed (fs : List String) {w : String} {d : Direction}
    (hw : Direction.ofText w = .ok d) :
    ofJson (.array [.array (fs.map .string), .string w]) = .ok ⟨fs, d⟩ := by
  rw [ofJson, strings_map]
  simp only [hw, bind, Except.bind]

theorem ofJson_flat {ws : List String} (h : ws ≠ []) :
    ofJson (.array (ws.map .string)) = ofTokens ws := by
  obtain ⟨w, ws, rfl⟩ := List.exists_cons_of_ne_nil h
  have hstrings : strings (.string w :: ws.map .string) = .ok (w :: ws) :=
    strings_map (w :: ws)
  simp only [List.map_cons, ofJson, hstrings]
  rfl

/-- A flat array and a text are read alike. -/
theorem Itemised.read {ws : List String} {source : Source} (h : Itemised ws source)
    (hne : ws ≠ []) : source.read = ofTokens ws := by
  cases h with
  | flat => exact ofJson_flat hne
  | quoted ht | text ht =>
    rw [← lists_iff.1 ht]
    rfl

/-- What is read off a value was written in one of these forms. -/
theorem ofJson_cases {v : Json} {s : SortOrder} (h : ofJson v = .ok s) :
    (∃ t, v = .string t ∧ ofText t = .ok s) ∨
      (v = .array [.array (s.fields.map .string)] ∨
        ∃ w, v = .array [.array (s.fields.map .string), .string w]) ∨
      ∃ ws, v = .array (ws.map .string) ∧ ofTokens ws = .ok s := by
  unfold ofJson at h
  split at h
  · exact .inl ⟨_, rfl, h⟩
  · cases h
  · rename_i list rest
    cases hfs : strings list with
    | error e =>
      rw [hfs] at h
      cases h
    | ok fs =>
      rw [hfs] at h
      obtain rfl := eq_map_of_strings hfs
      match rest, h with
      | [], h =>
        cases h
        exact .inr (.inl (.inl rfl))
      | [.string w], h =>
        cases hw : Direction.ofText w with
        | error e => simp [hw, bind, Except.bind] at h
        | ok d =>
          simp only [hw, bind, Except.bind] at h
          cases h
          exact .inr (.inl (.inr ⟨w, rfl⟩))
  · rename_i vs _ _
    cases hws : strings vs with
    | error e =>
      rw [hws] at h
      cases h
    | ok ws =>
      rw [hws] at h
      obtain rfl := eq_map_of_strings hws
      exact .inr (.inr ⟨ws, rfl, h⟩)
  · cases h

/-! ### Words for directions -/

theorem toLower_of_isBlank {c : Char} (h : isBlank c = true) : c.toLower = c := by
  have hruns : ∀ r ∈ blankRuns, r.last < 'A'.toNat ∨ 'Z'.toNat < r.first := by decide
  obtain ⟨r, hr, hcovers⟩ := inRuns_iff.1 h
  obtain ⟨hfirst, hlast, -⟩ := Run.covers_iff.1 hcovers
  refine dif_neg fun hcapital => ?_
  have hrange : 'A'.toNat ≤ c.toNat ∧ c.toNat ≤ 'Z'.toNat :=
    ⟨UInt32.le_iff_toNat_le.1 hcapital.1, UInt32.le_iff_toNat_le.1 hcapital.2⟩
  rcases hruns r hr with h | h <;> omega

/-- A word for a direction has no white space in it, and no comma. -/
theorem isField_of_isSpelled {d : Direction} {w : String} (h : d.IsSpelled w) : IsField w := by
  have hname : ∀ e : Direction, e.name.toList ≠ [] ∧ ',' ∉ e.name.toList ∧
      (e.name.toList.all fun c => !isBlank c) = true := by
    rintro (_ | _) <;> decide
  obtain ⟨hne, hcomma, hall⟩ := hname d
  have hblank : ∀ c ∈ d.name.toList, isBlank c = false := by simpa using hall
  have hsmall : ∀ c ∈ w.toList, c.toLower ∈ d.name.toList := fun c hc => by
    rw [← h]
    exact List.mem_map_of_mem hc
  have hletter : ∀ c ∈ w.toList, isBlank c = false := by
    intro c hc
    rw [← Bool.not_eq_true]
    intro hb
    have hmem := hsmall c hc
    rw [toLower_of_isBlank hb] at hmem
    rw [hblank c hmem] at hb
    cases hb
  refine ⟨fun hnil => hne ?_, fun hmem => hcomma (hsmall ',' hmem),
    fun c hc => hletter c (List.mem_of_mem_head? hc),
    fun c hc => hletter c (List.mem_of_mem_getLast? hc)⟩
  rw [← h, hnil, List.map_nil]

/-! ### The forms agree -/

variable {fs : List String} {s : SortOrder}

theorem ofText_of_isSpelled {d : Direction} {w : String} (hw : d.IsSpelled w) :
    Direction.ofText w = .ok d := (isField_of_isSpelled hw).direction_eq_ok_iff.2 hw

theorem ofTokens_directed (hne : fs ≠ []) {d : Direction} {w : String} (hw : d.IsSpelled w) :
    ofTokens (fs ++ [w]) = .ok ((ofFields fs).withDirection d) := by
  rw [ofTokens_concat hne, ofText_of_isSpelled hw]
  rfl

/-- Items are read as fields alone, unless the last of several is a word for a direction. -/
theorem ofTokens_eq_fields_iff (hne : fs ≠ []) (hfields : ∀ f ∈ fs, IsField f) :
    ofTokens fs = .ok (ofFields fs) ↔
      fs.length = 1 ∨ ∀ f ∈ fs.getLast?, ¬IsDirectionWord f := by
  have hwords : words (ofFields fs) = fs := List.append_nil fs
  have hread := ofText_text_of_fields (s := ofFields fs) hne hfields
  rw [ofText_eq, items_text hne hfields, hwords] at hread
  simpa [ofFields] using hread

/-- What a query sends for a sort order: its words, unless it has no field. -/
theorem sort_mem_parameters_iff {o : RequestOptions} (h : o.sort = some s) {vs : List String} :
    ⟨"sort", vs⟩ ∈ o.parameters ↔ s.fields ≠ [] ∧ s.words = vs := by
  have hvalues : o.values? "sort" = if s.fields = [] then none else some s.words := by
    obtain ⟨fields, direction⟩ := s
    cases direction <;> simp [RequestOptions.values?, h, words]
  have hmem : "sort" ∈ RequestOptions.recognised ++ o.further :=
    List.mem_append_left _ (by decide)
  rw [RequestOptions.parameters_eq_meant, RequestOptions.meant, List.mem_filterMap]
  constructor
  · rintro ⟨name, -, hname⟩
    obtain ⟨us, hus, hparameter⟩ := Option.map_eq_some_iff.1 hname
    cases hparameter
    rwa [hvalues, Option.ite_none_left_eq_some, Option.some_inj] at hus
  · rintro ⟨hne, rfl⟩
    refine ⟨"sort", hmem, ?_⟩
    rw [RequestOptions.parameter?, hvalues, if_neg hne]
    rfl

/-- Fields with a word for a direction are read alike in every form, and so they are sent alike;
without one they are, unless there are several and the last is such a word, which an array of its
own keeps as a field. -/
theorem forms_agree {fs : List String} (hne : fs ≠ []) (hfields : ∀ f ∈ fs, IsField f) :
    (∀ d w, Direction.IsSpelled d w →
      ofJson (.array [.array (fs.map .string), .string w]) = .ok ((ofFields fs).withDirection d) ∧
      ∀ source, Itemised (fs ++ [w]) source →
        source.read = .ok ((ofFields fs).withDirection d)) ∧
    ofJson (.array [.array (fs.map .string)]) = .ok (ofFields fs) ∧
    (∀ source, Itemised fs source → (source.read = .ok (ofFields fs) ↔
      fs.length = 1 ∨ ∀ f ∈ fs.getLast?, ¬IsDirectionWord f)) ∧
    ∀ d (o : RequestOptions), o.sort = some ((ofFields fs).withDirection d) → ∀ vs,
      ⟨"sort", vs⟩ ∈ o.parameters ↔ vs = fs ++ if d = .desc then ["desc"] else [] := by
  refine ⟨fun d w hw => ⟨ofJson_nested_directed fs (ofText_of_isSpelled hw), ?_⟩,
    ofJson_nested fs, ?_, ?_⟩
  · intro source h
    rw [h.read (by simp)]
    exact ofTokens_directed hne hw
  · intro source h
    rw [h.read hne]
    exact ofTokens_eq_fields_iff hne hfields
  · intro d o ho vs
    have hwords : ((ofFields fs).withDirection d).words =
        fs ++ if d = .desc then ["desc"] else [] := by
      cases d <;> rfl
    have hfilled : ((ofFields fs).withDirection d).fields ≠ [] := hne
    rw [sort_mem_parameters_iff ho, hwords, and_iff_right hfilled, eq_comm]

/-- White space and empty items around fields, of which the last is a word for a direction. -/
theorem untidy_forms_agree :
    (∀ f ∈ ["TITLE", "desc"], IsField f) ∧ Direction.desc.IsSpelled "DeSC" ∧
      ofText "TITLE ,\t desc,, DeSC," = .ok ⟨["TITLE", "desc"], .desc⟩ ∧
      ofJson (.array [.string "TITLE", .string "desc", .string "DeSC"]) =
        .ok ⟨["TITLE", "desc"], .desc⟩ ∧
      ofJson (.array [.array [.string "TITLE", .string "desc"]]) = .ok ⟨["TITLE", "desc"], .asc⟩ ∧
      ofText "TITLE, desc" ≠ .ok ⟨["TITLE", "desc"], .asc⟩ := by
  have hfields : ∀ f ∈ ["TITLE", "desc"], IsField f := by
    have htitle : IsField "TITLE" := isField_of_trim (by decide) (by decide) rfl
    have hdesc : IsField "desc" := isField_of_trim (by decide) (by decide) rfl
    exact List.forall_mem_cons.2 ⟨htitle, List.forall_mem_cons.2 ⟨hdesc, by simp⟩⟩
  have hword : Direction.desc.IsSpelled "DeSC" := by decide
  obtain ⟨hdirected, hnested, hitems, -⟩ := forms_agree (by simp) hfields
  obtain ⟨-, hforms⟩ := hdirected .desc "DeSC" hword
  have hlists : Lists "TITLE ,\t desc,, DeSC," ["TITLE", "desc", "DeSC"] := lists_iff.2 rfl
  have hplain : Lists "TITLE, desc" ["TITLE", "desc"] := lists_iff.2 rfl
  refine ⟨hfields, hword, hforms _ (.text hlists), hforms _ .flat, hnested, fun h => ?_⟩
  rcases (hitems _ (.text hplain)).1 h with hlength | hlast
  · exact absurd hlength (by decide)
  · exact hlast "desc" rfl ⟨.desc, by decide⟩

end SortOrder

end ResourceApi
