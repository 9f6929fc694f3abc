import Mathlib.Data.List.Dedup
import Mathlib.Data.List.Induction
import ResourceApi.Filter.Compile

/-!
Criteria as what a history of edits left of them. A field is there if it was put and not removed
behind that; it stands at the place of its entry, and its value is the last one that it was given.
So the filter has the parts of the fields in the order in which they entered, and no trace of those
that are gone.
-/

namespace ResourceApi

namespace Criteria

/-- Setting a field is one edit, whether criteria are built up by it or changed later. -/
inductive Edit where
  | set (field : String) (value : Condition)
  | setOption (field : String) (value : Option Condition)
  | remove (field : String)

namespace Edit

def field : Edit → String
  | .set field _ | .setOption field _ | .remove field => field

/-- What an edit puts into its field, which may be no value; an edit that removes the field puts
nothing. -/
def given? : Edit → Option (Option Condition)
  | .set _ value => some (some value)
  | .setOption _ value => some value
  | .remove _ => none

def apply (c : Criteria) : Edit → Criteria
  | .set field value => c.set field value
  | .setOption field value => c.setOption field value
  | .remove field => (c.take field).2

/-- What an edit makes of a list of fields: it replaces one where it stands, adds one behind all
others, or leaves one out. -/
def change (e : Edit) (fields : List (String × Option Condition)) :
    List (String × Option Condition) :=
  match e.given? with
  | none => fields.filter fun f => f.1 ≠ e.field
  | some v =>
    if e.field ∈ Ordered.keys fields then
      fields.map fun f => if f.1 = e.field then (e.field, v) else f
    else fields ++ [(e.field, v)]

end Edit

def ofHistory (h : List Edit) : Criteria := h.foldl Edit.apply empty

def edited (pairs : List (String × Condition)) (edits : List Edit) : Criteria :=
  edits.foldl Edit.apply (ofPairs pairs)

/-- Collecting pairs is setting them in turn. -/
def history (pairs : List (String × Condition)) (edits : List Edit) : List Edit :=
  pairs.map (fun p => .set p.1 p.2) ++ edits

/-- What the last edit of a field put into it; nothing, if it was never put or is removed. -/
def lastGiven (h : List Edit) (field : String) : Option (Option Condition) :=
  (h.filter (·.field = field)).getLast?.bind Edit.given?

/-- A field enters at a place of a history: in front of it the field is absent, and none of its
edits from there on removes it. -/
structure Entered (h : List Edit) (field : String) (i : Nat) : Prop where
  edit : ∃ e, h[i]? = some e ∧ e.field = field
  absent : lastGiven (h.take i) field = none
  kept : ∀ e ∈ h.drop i, e.field = field → e.given?.isSome

/-- Criteria are what a history left: the fields have distinct names, are those that entered, hold
what they were given last, and stand in the order of their entries. -/
structure IsLeftBy (h : List Edit) (c : Criteria) : Prop where
  distinct : (Ordered.keys c.fields).Nodup
  values : ∀ field, Ordered.get? field c.fields = lastGiven h field
  entered : ∀ field, field ∈ Ordered.keys c.fields ↔ ∃ i, Entered h field i
  order : (Ordered.keys c.fields).Pairwise fun a b =>
    ∀ i j, Entered h a i → Entered h b j → i < j

/-! ### Entries -/

section Entries

variable {h : List Edit} {e : Edit} {field : String} {i : Nat}

/-- An edit counts before all edits in front of it. -/
theorem lastGiven_append (h : List Edit) (e : Edit) (field : String) :
    lastGiven (h ++ [e]) field = if e.field = field then e.given? else lastGiven h field := by
  by_cases he : e.field = field <;> simp [lastGiven, he]

theorem Entered.lt_length (hi : Entered h field i) : i < h.length := by
  obtain ⟨e, he, -⟩ := hi.edit
  exact (List.getElem?_eq_some_iff.1 he).1

/-- A further edit keeps an entry unless it removes the field. -/
theorem entered_append_of_lt (hi : i < h.length) : Entered (h ++ [e]) field i ↔
    Entered h field i ∧ (e.field = field → e.given?.isSome) := by
  have hle := Nat.le_of_lt hi
  have hget : (h ++ [e])[i]? = h[i]? := List.getElem?_append_left hi
  have htake : (h ++ [e]).take i = h.take i := List.take_append_of_le_length hle
  have hdrop : (h ++ [e]).drop i = h.drop i ++ [e] := List.drop_append_of_le_length hle
  constructor
  · rintro ⟨hedit, habsent, hkept⟩
    rw [hget] at hedit
    rw [htake] at habsent
    rw [hdrop] at hkept
    refine ⟨⟨hedit, habsent, fun d hd => hkept d (List.mem_append_left _ hd)⟩, ?_⟩
    exact hkept e (List.mem_append_right _ List.mem_cons_self)
  · rintro ⟨⟨hedit, habsent, hkept⟩, he⟩
    refine ⟨hget ▸ hedit, htake ▸ habsent, fun d hd => ?_⟩
    rw [hdrop, List.mem_append, List.mem_singleton] at hd
    rcases hd with hd | rfl
    · exact hkept d hd
    · exact he

/-- A field enters with the last edit just if this puts it where it was absent. -/
theorem entered_append_length : Entered (h ++ [e]) field h.length ↔
    e.field = field ∧ e.given?.isSome ∧ lastGiven h field = none := by
  constructor
  · rintro ⟨⟨d, hd, hfield⟩, habsent, hkept⟩
    rw [List.getElem?_concat_length, Option.some.injEq] at hd
    subst hd
    rw [List.take_left] at habsent
    rw [List.drop_left] at hkept
    exact ⟨hfield, hkept e List.mem_cons_self hfield, habsent⟩
  · rintro ⟨hfield, he, habsent⟩
    refine ⟨⟨e, List.getElem?_concat_length, hfield⟩, by rwa [List.take_left], ?_⟩
    rw [List.drop_left]
    intro d hd _
    rwa [List.mem_singleton.1 hd]

/-- A further edit keeps the entries that it does not undo, and may be an entry itself. -/
theorem entered_append_iff : Entered (h ++ [e]) field i ↔
    (Entered h field i ∧ (e.field = field → e.given?.isSome)) ∨
      (i = h.length ∧ e.field = field ∧ e.given?.isSome ∧ lastGiven h field = none) := by
  constructor
  · intro hi
    have hlt := hi.lt_length
    rw [List.length_append, List.length_singleton] at hlt
    rcases Nat.lt_or_eq_of_le (Nat.le_of_lt_succ hlt) with hlt | rfl
    · exact .inl ((entered_append_of_lt hlt).1 hi)
    · exact .inr ⟨rfl, entered_append_length.1 hi⟩
  · rintro (⟨hi, he⟩ | ⟨rfl, hnew⟩)
    · exact (entered_append_of_lt hi.lt_length).2 ⟨hi, he⟩
    · exact entered_append_length.2 hnew

/-- Just the fields that were given something last have entered. -/
theorem isSome_lastGiven_iff : (lastGiven h field).isSome ↔ ∃ i, Entered h field i := by
  induction h using List.reverseRecOn with
  | nil =>
    have hnone : ∀ i, ¬Entered [] field i := fun i hi => absurd hi.lt_length (Nat.not_lt_zero i)
    simp [lastGiven, hnone]
  | append_singleton h e ih =>
    simp only [lastGiven_append, entered_append_iff]
    by_cases he : e.field = field
    · rw [if_pos he]
      constructor
      · intro hgiven
        cases hlast : lastGiven h field with
        | none => exact ⟨h.length, .inr ⟨rfl, he, hgiven, rfl⟩⟩
        | some v =>
          obtain ⟨i, hi⟩ := ih.1 (by rw [hlast]; rfl)
          exact ⟨i, .inl ⟨hi, fun _ => hgiven⟩⟩
      · rintro ⟨i, ⟨-, hgiven⟩ | ⟨-, -, hgiven, -⟩⟩
        · exact hgiven he
        · exact hgiven
    · simp [he, ih]

end Entries

/-! ### One edit -/

/-- An edit puts its field into the fields, or takes it out of them. -/
theorem fields_apply (e : Edit) (c : Criteria) : (e.apply c).fields = match e.given? with
    | some v => Ordered.put e.field v c.fields
    | none => Ordered.erase e.field c.fields := by
  cases e <;> rfl

namespace IsLeftBy

variable {h : List Edit} {c : Criteria}

/-- Without edits nothing was ever put. -/
theorem empty : IsLeftBy [] Criteria.empty where
  distinct := List.nodup_nil
  values _ := rfl
  entered field := by
    rw [← isSome_lastGiven_iff]
    simp [lastGiven, Criteria.empty]
  order := .nil

/-- A field is there just if something was given to it last. -/
theorem mem_keys_iff (hc : IsLeftBy h c) (field : String) :
    field ∈ Ordered.keys c.fields ↔ (lastGiven h field).isSome := by
  rw [← Ordered.isSome_get?_iff, hc.values]

/-- An edit replaces, adds or leaves out one field. -/
theorem fields_apply (hc : IsLeftBy h c) (e : Edit) : (e.apply c).fields = e.change c.fields := by
  rw [Criteria.fields_apply, Edit.change]
  cases e.given? with
  | none => exact Ordered.erase_eq_filter e.field hc.distinct
  | some v =>
    by_cases hmem : e.field ∈ Ordered.keys c.fields
    · simp only [if_pos hmem, Ordered.put_eq_map hc.distinct hmem]
    · simp only [if_neg hmem, Ordered.put_of_notMem hmem]

/-- No edit makes two fields of one name. -/
theorem distinct_apply (hc : IsLeftBy h c) (e : Edit) :
    (Ordered.keys (e.apply c).fields).Nodup := by
  rw [Criteria.fields_apply]
  cases e.given? with
  | none =>
    rw [Ordered.keys_erase]
    exact hc.distinct.erase _
  | some v =>
    rw [Ordered.keys_put]
    split
    · exact hc.distinct
    · rename_i hnew
      exact hc.distinct.append (List.nodup_singleton _) (by simpa using hnew)

/-- After an edit each field still holds what it was given last. -/
theorem values_apply (hc : IsLeftBy h c) (e : Edit) (field : String) :
    Ordered.get? field (e.apply c).fields = lastGiven (h ++ [e]) field := by
  rw [Criteria.fields_apply, lastGiven_append, ← hc.values]
  cases e.given? with
  | none => exact Ordered.get?_erase _ _ hc.distinct
  | some v => exact Ordered.get?_put _ _ v c.fields

/-- The fields that are there keep their order, whatever edit follows. -/
theorem order_append (hc : IsLeftBy h c) (e : Edit) :
    (Ordered.keys c.fields).Pairwise fun a b =>
      ∀ i j, Entered (h ++ [e]) a i → Entered (h ++ [e]) b j → i < j := by
  have hold : ∀ a ∈ Ordered.keys c.fields, ∀ i, Entered (h ++ [e]) a i → Entered h a i := by
    intro a ha i hi
    rcases entered_append_iff.1 hi with ⟨hi, -⟩ | ⟨-, -, -, habsent⟩
    · exact hi
    · have hgiven := (hc.mem_keys_iff a).1 ha
      rw [habsent] at hgiven
      cases hgiven
  exact hc.order.imp_of_mem fun ha hb hlt i j hi hj => hlt i j (hold _ ha i hi) (hold _ hb j hj)

/-- After an edit the fields still stand in the order of their entries. -/
theorem order_apply (hc : IsLeftBy h c) (e : Edit) :
    (Ordered.keys (e.apply c).fields).Pairwise fun a b =>
      ∀ i j, Entered (h ++ [e]) a i → Entered (h ++ [e]) b j → i < j := by
  rw [Criteria.fields_apply]
  cases e.given? with
  | none =>
    rw [Ordered.keys_erase]
    exact (hc.order_append e).sublist (List.erase_sublist)
  | some v =>
    rw [Ordered.keys_put]
    split
    · exact hc.order_append e
    · rename_i hnew
      refine List.pairwise_append.2 ⟨hc.order_append e, List.pairwise_singleton _ _, ?_⟩
      intro a ha b hb i j hi hj
      obtain rfl := List.mem_singleton.1 hb
      -- The field is new, so its entry is the edit itself, behind all others.
      rcases entered_append_iff.1 hj with ⟨hj, -⟩ | ⟨rfl, -⟩
      · exact absurd ((hc.mem_keys_iff _).2 (isSome_lastGiven_iff.2 ⟨j, hj⟩)) hnew
      · rcases entered_append_iff.1 hi with ⟨hi, -⟩ | ⟨-, hfield, -⟩
        · exact hi.lt_length
        · exact absurd (hfield ▸ ha) hnew

/-- One edit more leaves what the longer history leaves. -/
theorem apply (hc : IsLeftBy h c) (e : Edit) : IsLeftBy (h ++ [e]) (e.apply c) where
  distinct := hc.distinct_apply e
  values := hc.values_apply e
  entered field := by
    rw [← isSome_lastGiven_iff, ← hc.values_apply, Ordered.isSome_get?_iff]
  order := hc.order_apply e

end IsLeftBy

/-! ### Runs -/

theorem ofHistory_append (h : List Edit) (e : Edit) :
    ofHistory (h ++ [e]) = e.apply (ofHistory h) := by
  rw [ofHistory, List.foldl_append]
  rfl

/-- Edits made one after the other leave what their history says. -/
theorem isLeftBy_ofHistory (h : List Edit) : IsLeftBy h (ofHistory h) := by
  induction h using List.reverseRecOn with
  | nil => exact .empty
  | append_singleton h e ih =>
    rw [ofHistory_append]
    exact ih.apply e

/-- Collecting pairs and editing after that is one history. -/
theorem edited_eq (pairs : List (String × Condition)) (edits : List Edit) :
    edited pairs edits = ofHistory (history pairs edits) := by
  rw [ofHistory, history, List.foldl_append, List.foldl_map]
  rfl

/-- Without a field, criteria are what is left by the edits of all others. -/
theorem erase_ofHistory (field : String) (h : List Edit) :
    Ordered.erase field (ofHistory h).fields =
      (ofHistory (h.filter fun e => e.field ≠ field)).fields := by
  induction h using List.reverseRecOn with
  | nil => rfl
  | append_singleton h e ih =>
    rw [ofHistory_append, fields_apply, List.filter_append]
    by_cases he : e.field = field
    · rw [List.filter_cons_of_neg (by simpa using he), List.filter_nil, List.append_nil, ← ih, he]
      cases e.given? with
      | none =>
        refine Ordered.erase_of_notMem ?_
        rw [Ordered.keys_erase]
        exact (isLeftBy_ofHistory h).distinct.not_mem_erase
      | some v => exact Ordered.erase_put _ v _
    · rw [List.filter_cons_of_pos (by simpa using he), List.filter_nil, ofHistory_append,
        fields_apply, ← ih]
      cases e.given? with
      | none => exact Ordered.erase_erase_comm _ _ _
      | some v => exact Ordered.erase_put_comm he v _

/-- The edits of other fields are a history of their own. -/
theorem filter_history (field : String) (pairs : List (String × Condition)) (edits : List Edit) :
    (history pairs edits).filter (fun e => e.field ≠ field) =
      history (pairs.filter fun p => p.1 ≠ field) (edits.filter fun e => e.field ≠ field) := by
  rw [history, List.filter_append, List.filter_map]
  rfl

/-- The fields that are there are those of the history that were given something last. -/
theorem IsLeftBy.size_eq {h : List Edit} {c : Criteria} (hc : IsLeftBy h c) :
    c.size = ((h.map Edit.field).dedup.filter fun n => (lastGiven h n).isSome).length := by
  have hperm : (Ordered.keys c.fields).Perm
      ((h.map Edit.field).dedup.filter fun n => (lastGiven h n).isSome) := by
    refine (List.perm_ext_iff_of_nodup hc.distinct ((List.nodup_dedup _).filter _)).2 fun n => ?_
    rw [hc.mem_keys_iff, List.mem_filter, List.mem_dedup]
    refine ⟨fun hn => ⟨?_, hn⟩, fun hn => hn.2⟩
    obtain ⟨i, hi⟩ := isSome_lastGiven_iff.1 hn
    obtain ⟨e, he, rfl⟩ := hi.edit
    exact List.mem_map_of_mem (List.mem_of_getElem? he)
  have hlength := hperm.length_eq
  rwa [Ordered.keys, List.length_map] at hlength

/-! ### Filters -/

/-- The filter is that of the fields one by one, joined in their order. -/
theorem toList_compile (c : Criteria) :
    (Filter.compile c).map String.toList = Filter.joinWith Filter.andWord
      (c.fields.filterMap fun f => (Filter.compile ⟨[f]⟩).map String.toList) := by
  have htext : ∀ c : Criteria, (Filter.compile c).map String.toList =
      Filter.joinWith Filter.andWord ((Filter.clauses c).map Filter.Clause.render) := by
    intro c
    rw [Filter.compile, Option.map_map, Filter.renderClauses]
    cases Filter.joinWith Filter.andWord ((Filter.clauses c).map Filter.Clause.render) <;> simp
  have hone : ∀ f, Filter.clauses ⟨[f]⟩ = Filter.fieldClauses f := by
    intro f
    simp [Filter.clauses]
  simp only [htext, hone]
  rw [Filter.clauses, List.flatMap, List.map_flatten, List.map_map, Filter.joinWith_flatten,
    List.filterMap_map]
  rfl

/-- Whatever edits criteria went through, their fields are those that entered, each with the value
that it was given last, in the order of their entries; a further edit touches no field but its own.
The filter follows that order, and an absent field might as well never have been there. -/
theorem edited_keeps_entry_order (pairs : List (String × Condition)) (edits : List Edit) :
    IsLeftBy (history pairs edits) (edited pairs edits) ∧
      (∀ e : Edit, (e.apply (edited pairs edits)).fields = e.change (edited pairs edits).fields) ∧
      (∀ field, (edited pairs edits).get? field = (lastGiven (history pairs edits) field).join ∧
        ((edited pairs edits).take field).1 = (lastGiven (history pairs edits) field).join) ∧
      (edited pairs edits).size = (((history pairs edits).map Edit.field).dedup.filter fun n =>
        (lastGiven (history pairs edits) n).isSome).length ∧
      (Filter.compile (edited pairs edits)).map String.toList = Filter.joinWith Filter.andWord
        ((edited pairs edits).fields.filterMap fun f =>
          (Filter.compile ⟨[f]⟩).map String.toList) ∧
      ∀ field, lastGiven (history pairs edits) field = none →
        edited pairs edits =
          edited (pairs.filter fun p => p.1 ≠ field) (edits.filter fun e => e.field ≠ field) := by
  have hleft : IsLeftBy (history pairs edits) (edited pairs edits) := by
    rw [edited_eq]
    exact isLeftBy_ofHistory _
  have hget : ∀ field, (edited pairs edits).get? field =
      (lastGiven (history pairs edits) field).join := by
    intro field
    rw [get?, hleft.values]
  refine ⟨hleft, hleft.fields_apply, fun field => ⟨hget field, hget field⟩, hleft.size_eq,
    toList_compile _, fun field habsent => ?_⟩
  have hkeys : field ∉ Ordered.keys (edited pairs edits).fields := by
    rw [hleft.mem_keys_iff, habsent]
    exact Bool.false_ne_true
  have hfields : (edited pairs edits).fields = (ofHistory
      ((history pairs edits).filter fun e => e.field ≠ field)).fields := by
    rw [← erase_ofHistory, ← edited_eq, Ordered.erase_of_notMem hkeys]
  rw [filter_history, ← edited_eq] at hfields
  exact congrArg Criteria.mk hfields

/-- A field that is replaced by nothing, one that is removed and comes back last, and one that is
gone. -/
def rearranging : List Edit :=
  [.set "c" (.scalar (.int 3)), .setOption "b" none, .remove "a", .set "d" (.scalar (.int 4)),
    .setOption "a" (some (.scalar (.int 5))), .remove "c", .set "b" (.scalar (.int 6))]

/-- A field that was removed for good leaves no trace, and one that came back stands last. -/
theorem rearranging_keeps_entry_order :
    lastGiven (history [("a", .scalar (.int 1)), ("b", .scalar (.int 2))] rearranging) "c" = none ∧
    edited [("a", .scalar (.int 1)), ("b", .scalar (.int 2))] rearranging =
      edited [("a", .scalar (.int 1)), ("b", .scalar (.int 2))]
        (rearranging.filter fun e => e.field ≠ "c") ∧
    Ordered.keys (edited [("a", .scalar (.int 1)), ("b", .scalar (.int 2))] rearranging).fields =
      ["b", "d", "a"] ∧
    Filter.compile (edited [("a", .scalar (.int 1)), ("b", .scalar (.int 2))] rearranging) =
      some "B eq 6 and D eq 4 and A eq 5" := by
  have habsent :
      lastGiven (history [("a", .scalar (.int 1)), ("b", .scalar (.int 2))] rearranging) "c" =
        none := by rfl
  obtain ⟨-, -, -, -, -, htrace⟩ :=
    edited_keeps_entry_order [("a", .scalar (.int 1)), ("b", .scalar (.int 2))] rearranging
  exact ⟨habsent, htrace "c" habsent, by decide, by decide +kernel⟩

end Criteria

end ResourceApi
