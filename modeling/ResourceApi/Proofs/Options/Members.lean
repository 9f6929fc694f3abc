import ResourceApi.Options.Query
import ResourceApi.Proofs.Ordered

/-!
Options from the members of a JSON object. What is read depends on what each name stands for and on
nothing else: the recognised names fix the options of their own, and every other name is a further
parameter. So members may change places without any trace in the options or in their query string.
-/

namespace ResourceApi.RequestOptions

/-- Options, by what each name stands for in the object that they are read from. -/
structure IsReadFrom (o : RequestOptions) (value : String → Option Json) : Prop where
  fields : orDefault? [] strings? (value "fields") = some o.fields
  sort : optional? sort? (value "sort") = some o.sort
  limit : optional? Json.asInt64? (value "limit") = some o.limit
  offset : optional? Json.asInt64? (value "offset") = some o.offset
  filter : optional? Json.asString? (value "q") = some o.filter
  count : orDefault? false Json.asBool? (value "count") = some o.count
  expandLevel : optional? Json.asString? (value "expandLevel") = some o.expandLevel
  extra : ∀ k, Ordered.get? k o.extra.entries = if k ∈ recognised then none else value k

/-- What a name stands for among members: the value that it has last, its objects being maps. -/
def meaning (members : List (String × Json)) (k : String) : Option Json :=
  (Ordered.last? k members).map Json.merged

variable {members members' : List (String × Json)} {o : RequestOptions} {k : String}

theorem meaning_of_nodup (hkeys : (Ordered.keys members).Nodup) :
    meaning members = fun k => (Ordered.get? k members).map Json.merged := by
  funext k
  rw [meaning, Ordered.last?_eq_get? hkeys]

theorem meaning_perm (hkeys : (Ordered.keys members).Nodup) (h : members'.Perm members) :
    meaning members' = meaning members := by
  funext k
  rw [meaning, meaning, Ordered.last?_perm h.symm hkeys]

/-! ### Known members -/

def isKnown (m : String × Json) : Bool := recognised.contains m.1

theorem get?_known (hknown : (Ordered.keys (members.filter isKnown)).Nodup) (hk : k ∈ recognised) :
    (Ordered.get? k (members.filter isKnown)).map Json.merged = meaning members k := by
  have hcontains : recognised.contains k = true := by simpa using hk
  have hfilter : Ordered.last? k (members.filter isKnown) = Ordered.last? k members :=
    Ordered.last?_filter (p := recognised.contains) hcontains members
  rw [← Ordered.last?_eq_get? hknown, hfilter, meaning]

/-! ### Further parameters -/

/-- The members besides the known ones, in ascending order. -/
def furtherOf (members : List (String × Json)) : Ascending Json :=
  .ofPairs ((members.filter fun m => !isKnown m).map fun m => (m.1, m.2.merged))

theorem last?_further : Ordered.last? k (members.filter fun m => !isKnown m) =
    if k ∈ recognised then none else Ordered.last? k members := by
  split
  · rename_i hk
    have hnone : ∀ m ∈ members.filter fun m => !isKnown m, decide (m.1 = k) ≠ true := by
      intro m hm he
      have hkey : m.1 = k := of_decide_eq_true he
      have hunknown := (List.mem_filter.1 hm).2
      simp [isKnown, hkey, hk] at hunknown
    rw [Ordered.last?, List.filter_eq_nil_iff.2 hnone]
    rfl
  · rename_i hk
    have hunknown : (!recognised.contains k) = true := by simpa using hk
    exact Ordered.last?_filter (p := fun k => !recognised.contains k) hunknown members

/-- A further member is kept under its name, unless that is a known one. -/
theorem get?_furtherOf (members : List (String × Json)) (k : String) :
    Ordered.get? k (furtherOf members).entries =
      if k ∈ recognised then none else meaning members k := by
  rw [furtherOf, Ascending.get?_ofPairs, Ordered.last?_map_snd, last?_further, meaning]
  split <;> rfl

/-! ### All members -/

/-- Options are read from what the names stand for, in whatever order they are written. -/
theorem ofMembers?_eq (hknown : (Ordered.keys (members.filter isKnown)).Nodup) :
    ofMembers? members = (orDefault? [] strings? (meaning members "fields")).bind fun fields =>
      (optional? sort? (meaning members "sort")).bind fun sort =>
      (optional? Json.asInt64? (meaning members "limit")).bind fun limit =>
      (optional? Json.asInt64? (meaning members "offset")).bind fun offset =>
      (optional? Json.asString? (meaning members "q")).bind fun filter =>
      (orDefault? false Json.asBool? (meaning members "count")).bind fun count =>
      (optional? Json.asString? (meaning members "expandLevel")).bind fun expandLevel =>
      some ⟨fields, sort, limit, offset, filter, count, expandLevel, furtherOf members⟩ := by
  have hget : ∀ k ∈ recognised,
      (Ordered.get? k (members.filter isKnown)).map Json.merged = meaning members k :=
    fun k hk => get?_known hknown hk
  rw [← hget "fields" (by decide), ← hget "sort" (by decide), ← hget "limit" (by decide),
    ← hget "offset" (by decide), ← hget "q" (by decide), ← hget "count" (by decide),
    ← hget "expandLevel" (by decide)]
  exact if_neg (not_not.2 hknown)

/-- Options are read from members exactly if no recognised name is repeated and every name stands
for what the options have. -/
theorem ofMembers?_eq_some_iff : ofMembers? members = some o ↔
    (Ordered.keys (members.filter isKnown)).Nodup ∧ o.IsReadFrom (meaning members) := by
  by_cases hknown : (Ordered.keys (members.filter isKnown)).Nodup
  · rw [ofMembers?_eq hknown]
    simp only [Option.bind_eq_some_iff, hknown, true_and]
    constructor
    · rintro ⟨fields, hfields, sort, hsort, limit, hlimit, offset, hoffset, filter, hfilter, count,
        hcount, expandLevel, hlevel, ⟨⟩⟩
      exact ⟨hfields, hsort, hlimit, hoffset, hfilter, hcount, hlevel, get?_furtherOf members⟩
    · intro h
      have hextra : furtherOf members = o.extra :=
        Ascending.ext_get? fun k => by rw [get?_furtherOf, h.extra]
      exact ⟨_, h.fields, _, h.sort, _, h.limit, _, h.offset, _, h.filter, _, h.count, _,
        h.expandLevel, by rw [hextra]⟩
  · refine iff_of_false ?_ fun h => hknown h.1
    have hnone : ofMembers? members = none := if_pos hknown
    simp [hnone]

/-- Members with distinct names may change places: either order is read or neither is, both give
the same options and the same query string, and the further parameters are the members besides the
recognised ones. -/
theorem ofJson?_of_rearranged (hkeys : (Ordered.keys members).Nodup)
    (hperm : members'.Perm members) :
    (∀ o, ofJson? (.object members) = some o ↔
        o.IsReadFrom fun k => (Ordered.get? k members).map Json.merged) ∧
      ofJson? (.object members') = ofJson? (.object members) ∧
      (∀ o, ofJson? (.object members') = some o →
        (∀ k ∈ recognised, k ∉ Ordered.keys o.extra.entries) ∧
          ∀ k ∉ recognised,
            Ordered.get? k o.extra.entries = (Ordered.get? k members).map Json.merged) ∧
      queryOf (ofJson? (.object members')) = queryOf (ofJson? (.object members)) ∧
      ∀ s s', Json.ofTextRaw? s = some (.object members) →
        Json.ofTextRaw? s' = some (.object members') → ofText? s' = ofText? s := by
  have hread : ∀ o, ofJson? (.object members) = some o ↔
      o.IsReadFrom fun k => (Ordered.get? k members).map Json.merged := by
    intro o
    have hknown : (Ordered.keys (members.filter isKnown)).Nodup :=
      hkeys.sublist (List.filter_sublist.map _)
    rw [← meaning_of_nodup hkeys, ofJson?, ofMembers?_eq_some_iff]
    exact and_iff_right hknown
  have hsame : ofJson? (.object members') = ofJson? (.object members) := by
    have hkeys' : (Ordered.keys members').Nodup := (hperm.map Prod.fst).nodup_iff.2 hkeys
    have hknown' : (Ordered.keys (members'.filter isKnown)).Nodup :=
      hkeys'.sublist (List.filter_sublist.map _)
    ext o
    rw [hread, ← meaning_of_nodup hkeys, ← meaning_perm hkeys hperm, ofJson?,
      ofMembers?_eq_some_iff]
    exact and_iff_right hknown'
  refine ⟨hread, hsame, fun o ho => ⟨fun k hk => ?_, fun k hk => ?_⟩, by rw [hsame],
    fun s s' hs hs' => by rw [ofText?, ofText?, hs, hs', Option.bind_some, Option.bind_some, hsame]⟩
  · have hextra := ((hread o).1 (hsame ▸ ho)).extra k
    rw [if_pos hk] at hextra
    rw [← Ordered.isSome_get?_iff, hextra]
    exact Bool.false_ne_true
  · have hextra := ((hread o).1 (hsame ▸ ho)).extra k
    rwa [if_neg hk] at hextra

/-- Known and other names in turn, one of them with an object that repeats a key. -/
def mixedMembers : List (String × Json) :=
  [("zeta", .object [("a", .int 1), ("a", .int 2)]), ("limit", .int 10), ("alpha", .string "x&y"),
    ("sort", .array [.array [.string "TITLE", .string "CODE"], .string "desc"]), ("q", .null),
    ("count", .bool true)]

/-- Members in the opposite order are read as the same options. -/
theorem mixedMembers_rearranged :
    (Ordered.keys mixedMembers).Nodup ∧ mixedMembers.reverse.Perm mixedMembers ∧
    ofJson? (.object mixedMembers.reverse) = ofJson? (.object mixedMembers) ∧
    queryOf (ofJson? (.object mixedMembers.reverse)) =
      "limit=10&sort=TITLE,CODE,desc&count=true&alpha=x%26y&zeta=%7B%22a%22%3A2%7D" := by
  have hkeys : (Ordered.keys mixedMembers).Nodup := by decide
  have hperm : mixedMembers.reverse.Perm mixedMembers := List.reverse_perm _
  obtain ⟨-, hsame, -, hquery, -⟩ := ofJson?_of_rearranged hkeys hperm
  exact ⟨hkeys, hperm, hsame, hquery.trans rfl⟩

end ResourceApi.RequestOptions
