import ResourceApi.Proofs.Options.Members
import ResourceApi.Proofs.Options.SortForms

/-!
Whether a sort order that is read has a field. It has one unless its fields were written as an empty
array inside an array: a text or a flat array without an item is refused, but this is not, and the
order that is read is then left out of the query.
-/

namespace ResourceApi

namespace SortOrder

variable {s : SortOrder}

/-- An empty array of fields in an array, with a word beside it or alone. -/
def IsEmptyNested (v : Json) : Prop :=
  v = .array [.array []] ∨ ∃ w, v = .array [.array [], .string w]

/-- No other form is read as an order without a field. -/
theorem read_fields_eq_nil_iff {source : Source} (h : source.read = .ok s) :
    s.fields = [] ↔ ∃ v, source = .json v ∧ IsEmptyNested v := by
  cases source with
  | text t => exact iff_of_false (fields_ne_nil_of_ofText h) (by simp)
  | json v =>
    simp only [Source.json.injEq, exists_eq_left', IsEmptyNested]
    rcases ofJson_cases h with ⟨t, rfl, ht⟩ | (rfl | ⟨w, rfl⟩) | ⟨ws, rfl, hws⟩
    · exact iff_of_false (fields_ne_nil_of_ofText ht) (by simp)
    · simp
    · simp
    · refine iff_of_false (ofTokens_eq_ok_iff.1 hws).fields_ne_nil ?_
      cases ws <;> simp

theorem read_of_itemised_nil {source : Source} (h : Itemised [] source) :
    ∃ e, source.read = .error e := by
  cases h with
  | flat => exact ⟨.emptyArray, rfl⟩
  | quoted ht | text ht =>
    have hread : ofTokens [] = .error .noFields := rfl
    rw [← lists_iff.1 ht] at hread
    exact ⟨.noFields, hread⟩

theorem isEmptyNested_merged_iff {v : Json} : IsEmptyNested v.merged ↔ IsEmptyNested v := by
  constructor
  · rintro (h | ⟨w, h⟩)
    · match v, h with
      | .array [.array []], _ => exact .inl rfl
      | .array (.array (_ :: _) :: _), h => simp [Json.merged, Json.mergedItems] at h
    · match v, h with
      | .array [.array [], .string w], _ => exact .inr ⟨w, rfl⟩
      | .array (.array (_ :: _) :: _), h => simp [Json.merged, Json.mergedItems] at h
  · rintro (rfl | ⟨w, rfl⟩)
    · exact .inl (by simp only [Json.merged, Json.mergedItems])
    · exact .inr ⟨w, by simp only [Json.merged, Json.mergedItems]⟩

end SortOrder

namespace RequestOptions

theorem get?_filter_of_recognised {α : Type} {p : String × α → Bool} {k : String}
    {members : List (String × α)} (h : ∀ m ∈ members, m.1 = k → p m = true) :
    Ordered.get? k (members.filter p) = Ordered.get? k members := by
  induction members with
  | nil => rfl
  | cons m members ih =>
    obtain ⟨hm, hmembers⟩ := List.forall_mem_cons.1 h
    by_cases hp : p m = true
    · rw [List.filter_cons_of_pos hp, Ordered.get?, Ordered.get?, ih hmembers]
    · rw [List.filter_cons_of_neg hp, ih hmembers, Ordered.get?, if_neg fun hk => hp (hm hk)]

theorem exists_of_optional? {α : Type} {read : Json → Option α} {member : Option Json} {a : α}
    (h : optional? read member = some (some a)) : ∃ v, member = some v ∧ read v = some a := by
  unfold optional? at h
  split at h
  · cases h
  · cases h
  · rename_i v _
    obtain ⟨b, hb, hab⟩ := Option.map_eq_some_iff.1 h
    cases hab
    exact ⟨v, rfl, hb⟩

theorem sort?_eq_some_iff {v : Json} {s : SortOrder} :
    sort? v = some s ↔ SortOrder.ofJson v = .ok s := by
  rw [sort?]
  cases SortOrder.ofJson v <;> simp [Except.toOption]

/-- The sort order of options is what was read off the member of that name. -/
theorem sort_of_ofMembers? {members : List (String × Json)} {o : RequestOptions} {s : SortOrder}
    (h : ofMembers? members = some o) (hs : o.sort = some s) :
    ∃ v, Ordered.get? "sort" members = some v ∧ SortOrder.ofJson v.merged = .ok s := by
  obtain ⟨hnodup, hread⟩ := ofMembers?_eq_some_iff.1 h
  have hsort := hread.sort
  rw [hs] at hsort
  obtain ⟨w, hw, hsource⟩ := exists_of_optional? hsort
  rw [← get?_known hnodup (by decide)] at hw
  obtain ⟨v, hv, rfl⟩ := Option.map_eq_some_iff.1 hw
  have hknown : ∀ m ∈ members, m.1 = "sort" → isKnown m = true := by
    rintro m - hm
    rw [isKnown, hm]
    decide
  rw [get?_filter_of_recognised hknown] at hv
  exact ⟨v, hv, sort?_eq_some_iff.1 hsource⟩

end RequestOptions

namespace SortOrder

/-- Every order that is read has a field, unless its fields were in an array of their own that is
empty; and a flat array or a text without an item is not read. -/
theorem read_has_field_iff (source : Source) (members : List (String × Json)) :
    (∀ s, source.read = .ok s →
      (s.fields ≠ [] ↔ ∀ v, source = .json v → ¬IsEmptyNested v)) ∧
    (∀ o s, RequestOptions.ofMembers? members = some o → o.sort = some s →
      (s.fields ≠ [] ↔ ∀ v, Ordered.get? "sort" members = some v → ¬IsEmptyNested v)) ∧
    (Itemised [] source → ∃ e, source.read = .error e) := by
  refine ⟨fun s h => ?_, fun o s h hs => ?_, read_of_itemised_nil⟩
  · rw [ne_eq, read_fields_eq_nil_iff h]
    simp
  · obtain ⟨v, hv, hread⟩ := RequestOptions.sort_of_ofMembers? h hs
    have hsource : Source.read (.json v.merged) = .ok s := hread
    rw [ne_eq, read_fields_eq_nil_iff hsource, hv]
    simp [isEmptyNested_merged_iff]

/-- A sort order among the members of options, and a text of blanks and commas. -/
theorem listed_sort_has_field :
    (∃ o s, RequestOptions.ofMembers? [("sort", .array [.array [.string "CODE"], .string "desc"])] =
      some o ∧ o.sort = some s ∧ s.fields ≠ []) ∧
    ∃ e, Source.read (.text " ,, ") = .error e := by
  have hread : RequestOptions.ofMembers?
      [("sort", .array [.array [.string "CODE"], .string "desc"])] =
      some { RequestOptions.default with sort := some ⟨["CODE"], .desc⟩ } := rfl
  obtain ⟨-, hoptions, hitems⟩ := read_has_field_iff (.text " ,, ")
    [("sort", .array [.array [.string "CODE"], .string "desc"])]
  refine ⟨⟨_, _, hread, rfl, (hoptions _ _ hread rfl).2 ?_⟩, hitems (.text (lists_iff.2 rfl))⟩
  rintro v hv (rfl | ⟨w, rfl⟩) <;> simp [Ordered.get?] at hv

/-- An empty array of fields is read, and then nothing of the order is sent. -/
theorem emptyNested_is_read :
    ofJson (.array [.array []]) = .ok ⟨[], .asc⟩ ∧
      ofJson (.array [.array [], .string "desc"]) = .ok ⟨[], .desc⟩ ∧
      (RequestOptions.ofMembers? [("sort", .array [.array []])]).map RequestOptions.query =
        some "" := by
  refine ⟨rfl, rfl, by decide⟩

end SortOrder

end ResourceApi
