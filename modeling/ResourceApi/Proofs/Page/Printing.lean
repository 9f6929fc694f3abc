import ResourceApi.Page.Envelope
import ResourceApi.Proofs.Ordered

/-!
Pages that are written and read again. Each part of a page is written under a name of its own, or
not at all, and is read back from that name alone; a link comes back in the form that it had. So a
page survives, and with it the answer whether items follow it.
-/

namespace ResourceApi

namespace Json

variable {α : Type} {k : String}

/-! ### Records with absent members -/

def present (parts : List (String × Option Json)) : List (String × Json) :=
  parts.filterMap fun m => m.2.map (m.1, ·)

theorem present_cons (m : String × Option Json) (parts : List (String × Option Json)) :
    present (m :: parts) = (m.2.map (m.1, ·)).toList ++ present parts := by
  obtain ⟨k, v⟩ := m
  cases v <;> rfl

theorem keys_present_sublist (parts : List (String × Option Json)) :
    (Ordered.keys (present parts)).Sublist (Ordered.keys parts) := by
  induction parts with
  | nil => exact .slnil
  | cons m parts ih =>
    obtain ⟨k, v⟩ := m
    cases v with
    | none => exact ih.cons k
    | some v => exact ih.cons_cons k

/-- A name stands for what the part of that name is. -/
theorem get?_present {parts : List (String × Option Json)} (hkeys : (Ordered.keys parts).Nodup)
    (k : String) : Ordered.get? k (present parts) = (Ordered.get? k parts).join := by
  induction parts with
  | nil => rfl
  | cons m parts ih =>
    obtain ⟨j, v⟩ := m
    obtain ⟨hj, hkeys⟩ := List.nodup_cons.1 hkeys
    rw [present_cons, Ordered.get?]
    by_cases hk : j = k
    · rw [if_pos hk, Option.join_some]
      cases v with
      | none =>
        have habsent : k ∉ Ordered.keys (present parts) :=
          fun hmem => hj (hk ▸ (keys_present_sublist parts).subset hmem)
        exact Ordered.get?_eq_none habsent
      | some v => exact if_pos hk
    · rw [if_neg hk, ← ih hkeys]
      cases v with
      | none => rfl
      | some v => exact if_neg hk

/-- A record whose parts are known is read as the parts that are there. -/
theorem record?_present {parts : List (String × Option Json)} {known : List String}
    (hkeys : (Ordered.keys parts).Nodup) (hknown : ∀ k ∈ Ordered.keys parts, k ∈ known) :
    record? known (.object (present parts)) = some (present parts) := by
  have hall : (present parts).filter (fun m => known.contains m.1) = present parts := by
    refine List.filter_eq_self.2 fun m hm => ?_
    have hkey : m.1 ∈ Ordered.keys parts :=
      (keys_present_sublist parts).subset (List.mem_map_of_mem hm)
    simpa using hknown m.1 hkey
  rw [record?, hall]
  exact if_pos (hkeys.sublist (keys_present_sublist parts))

/-- A part that is never written as null comes back, and so does an absent one. -/
theorem optionalMember?_of_get? {ms : List (String × Json)} {write : α → Json}
    {read : Json → Option α} {x : Option α} (h : Ordered.get? k ms = x.map write)
    (hread : ∀ a, read (write a) = some a) (hnull : ∀ a, write a ≠ .null) :
    optionalMember? read k ms = some x := by
  rw [optionalMember?, h]
  cases x with
  | none => rfl
  | some a =>
    rw [Option.map_some]
    split
    · rename_i hnone
      cases hnone
    · rename_i hwrite
      exact absurd (Option.some.inj hwrite) (hnull a)
    · rename_i v hwrite
      rw [← Option.some.inj hwrite, hread, Option.map_some]

end Json

theorem Link.ofJson?_toJson (l : Link) : ofJson? l.toJson = some l := by
  cases l with
  | url s => rfl
  | object s => rfl

theorem Link.toJson_ne_null (l : Link) : l.toJson ≠ .null := by
  cases l <;> simp [toJson]

namespace Page

variable {α : Type}

/-! ### Parts of a page -/

theorem word?_int (n : UInt64) : word? (.int n.toNat) = some n := by
  have hn := n.toNat_lt
  have hrange : (0 : Int) ≤ n.toNat ∧ (n.toNat : Int) < 0x10000000000000000 := by omega
  simp [word?, Json.asUInt64?, hrange]

theorem signed?_int (n : Int64) : signed? (.int n.toInt) = some n := by
  have hrange : -0x8000000000000000 ≤ n.toInt ∧ n.toInt < 0x8000000000000000 :=
    ⟨n.le_toInt, n.toInt_lt⟩
  simp [signed?, Json.asInt64?, hrange]

theorem items?_array {read : Json → Option α} {item : α → Json} {xs : List α}
    (h : ∀ x ∈ xs, read (item x) = some x) : items? read (.array (xs.map item)) = some xs := by
  induction xs with
  | nil => rfl
  | cons x xs ih =>
    obtain ⟨hx, hxs⟩ := List.forall_mem_cons.1 h
    have hrest : (xs.map item).mapM read = some xs := ih hxs
    simp [items?, hx, hrest]

/-- The parts of a page by the names under which they are written. -/
def parts (item : α → Json) (p : Page α) : List (String × Option Json) :=
  [("items", some (.array (p.items.map item))),
    ("totalCount", p.totalCount.map fun n => .int n.toNat),
    ("offset", p.offset.map fun n => .int n.toInt), ("limit", p.limit.map fun n => .int n.toInt),
    ("first", p.first.map Link.toJson), ("next", p.next.map Link.toJson),
    ("previous", p.previous.map Link.toJson)]

theorem toJson_eq (item : α → Json) (p : Page α) :
    p.toJson item = .object (Json.present (p.parts item)) := by
  simp only [parts, Json.present_cons, Option.map_map]
  simp [toJson, Json.present, Function.comp_def]

theorem keys_parts (item : α → Json) (p : Page α) : Ordered.keys (p.parts item) = members := rfl

/-- A page is read back if its items are. -/
theorem ofJson?_toJson {read : Json → Option α} {item : α → Json} {p : Page α}
    (h : ∀ x ∈ p.items, read (item x) = some x) : ofJson? read (p.toJson item) = some p := by
  have hnodup : (Ordered.keys (p.parts item)).Nodup := by
    rw [keys_parts]
    decide
  have hrecord : Json.record? members (p.toJson item) = some (Json.present (p.parts item)) := by
    rw [toJson_eq]
    exact Json.record?_present hnodup fun k hk => keys_parts item p ▸ hk
  have hget : ∀ k, Ordered.get? k (Json.present (p.parts item)) =
      (Ordered.get? k (p.parts item)).join := Json.get?_present hnodup
  have hitems : Json.member? (items? read) "items" (Json.present (p.parts item)) =
      some p.items := by
    rw [Json.member?, hget]
    exact items?_array h
  have htotal :=
    Json.optionalMember?_of_get? (hget "totalCount") word?_int fun _ => Json.noConfusion
  have hoffset := Json.optionalMember?_of_get? (hget "offset") signed?_int fun _ => Json.noConfusion
  have hlimit := Json.optionalMember?_of_get? (hget "limit") signed?_int fun _ => Json.noConfusion
  have hfirst := Json.optionalMember?_of_get? (hget "first") Link.ofJson?_toJson Link.toJson_ne_null
  have hnext := Json.optionalMember?_of_get? (hget "next") Link.ofJson?_toJson Link.toJson_ne_null
  have hprevious :=
    Json.optionalMember?_of_get? (hget "previous") Link.ofJson?_toJson Link.toJson_ne_null
  rw [ofJson?, hrecord]
  simp only [Option.bind_eq_bind, Option.bind_some, hitems, htotal, hoffset, hlimit, hfirst, hnext,
    hprevious]

/-- A page that is written is read back as it was, whatever its parts are. So a value that is a page
can be printed and read again, any number of times, without a change in its items, its links and
what it says about further items, and is printed the same each time. -/
theorem printed_page_reads_back :
    (∀ p : Page Json, ofJson? some (p.toJson id) = some p) ∧
      ∀ (v : Json) (p : Page Json), ofJson? some v = some p →
        ∃ q, ofJson? some (p.toJson id) = some q ∧ q.items = p.items ∧
          q.first.map Link.href = p.first.map Link.href ∧
          q.next.map Link.href = p.next.map Link.href ∧
          q.previous.map Link.href = p.previous.map Link.href ∧
          (∀ requested, q.isFollowed requested = p.isFollowed requested) ∧
          q.toJson id = p.toJson id := by
  have hback : ∀ p : Page Json, ofJson? some (p.toJson id) = some p :=
    fun _ => ofJson?_toJson fun _ _ => rfl
  exact ⟨hback, fun _ p _ => ⟨p, hback p, rfl, rfl, rfl, rfl, fun _ => rfl, rfl⟩⟩

/-- A value with a link in each form, the largest count, the least offset, a null limit and a member
that pages do not have. -/
def lastPage : Json :=
  .object [("next", .string "/items?offset=2"), ("page", .int 7),
    ("items", .array [.object [("CODE", .string "A")], .null]),
    ("first", .object [("rel", .null), ("href", .string "/items")]), ("limit", .null),
    ("totalCount", .int 0xFFFFFFFFFFFFFFFF), ("offset", .int (-0x8000000000000000))]

/-- Both forms of links come back, and what pages do not have is gone. -/
theorem lastPage_reads_back :
    ∃ p q, ofJson? some lastPage = some p ∧ ofJson? some (p.toJson id) = some q ∧
      p.first = some (.object "/items") ∧ p.next = some (.url "/items?offset=2") ∧
      q.first.map Link.href = p.first.map Link.href ∧ q.isFollowed 5 = p.isFollowed 5 ∧
      p.isFollowed 5 = some true ∧ q.toJson id = p.toJson id := by
  have hread : ofJson? some lastPage = some
      ⟨[.object [("CODE", .string "A")], .null], some 0xFFFFFFFFFFFFFFFF, some Int64.minValue, none,
        some (.object "/items"), some (.url "/items?offset=2"), none⟩ := rfl
  obtain ⟨q, hq, -, hfirst, -, -, hfollowed, hprinted⟩ := printed_page_reads_back.2 _ _ hread
  exact ⟨_, q, hread, hq, rfl, rfl, hfirst, hfollowed 5, by decide, hprinted⟩

end Page

end ResourceApi
