import Mathlib.Data.List.Dedup
import Mathlib.Data.List.Induction
import ResourceApi.Ascending
import ResourceApi.Ordered

/-!
Maps that are made of pairs, by what is behind a key last. Whether the pairs are put in the order of
their keys' first places or in ascending order, a key looks up what stands behind it last; and a map
in ascending order is determined by what its keys look up.
-/

namespace ResourceApi

namespace Ordered

variable {α β : Type} [DecidableEq α]

/-- The value that stands behind a key last. -/
def last? (k : α) (ps : List (α × β)) : Option β :=
  (ps.filter (·.1 = k)).getLast?.map Prod.snd

theorem last?_append (k : α) (ps : List (α × β)) (p : α × β) :
    last? k (ps ++ [p]) = if p.1 = k then some p.2 else last? k ps := by
  by_cases hp : p.1 = k <;> simp [last?, hp]

theorem ofPairs_append (ps : List (α × β)) (p : α × β) :
    ofPairs (ps ++ [p]) = put p.1 p.2 (ofPairs ps) := by
  rw [ofPairs, List.foldl_append]
  rfl

/-- Of a key that is put several times, the last value stays. -/
theorem get?_ofPairs (k : α) (ps : List (α × β)) : get? k (ofPairs ps) = last? k ps := by
  induction ps using List.reverseRecOn with
  | nil => rfl
  | append_singleton ps p ih => rw [ofPairs_append, get?_put, last?_append, ih]

/-- Keys stand where they were put first. -/
theorem keys_ofPairs (ps : List (α × β)) : keys (ofPairs ps) = (keys ps).eraseDups := by
  induction ps using List.reverseRecOn with
  | nil => rfl
  | append_singleton ps p ih =>
    have hkeys : keys (ps ++ [p]) = keys ps ++ [p.1] := List.map_append
    rw [ofPairs_append, keys_put, ih, hkeys, List.eraseDups_append]
    by_cases hp : p.1 ∈ keys ps <;> simp [List.removeAll, hp, List.eraseDups_cons]

theorem nodup_keys_ofPairs (ps : List (α × β)) : (keys (ofPairs ps)).Nodup := by
  induction ps using List.reverseRecOn with
  | nil => exact List.nodup_nil
  | append_singleton ps p ih =>
    rw [ofPairs_append, keys_put]
    split
    · exact ih
    · rename_i hp
      exact ih.append (List.nodup_singleton _) (by simpa using hp)

/-- A map with distinct keys is what its keys look up in it. -/
theorem eq_filterMap_get? {m : List (α × β)} (hkeys : (keys m).Nodup) :
    m = (keys m).filterMap fun k => (get? k m).map (k, ·) := by
  have hself : ∀ p ∈ m, (get? p.1 m).map (p.1, ·) = some p := fun p hp => by
    rw [get?_of_mem hkeys hp, Option.map_some]
  rw [keys, List.filterMap_map]
  conv_lhs => rw [← List.filterMap_some (l := m)]
  exact List.filterMap_congr fun p hp => (hself p hp).symm

theorem ofPairs_eq_filterMap (ps : List (α × β)) :
    ofPairs ps = (keys ps).eraseDups.filterMap fun k => (last? k ps).map (k, ·) := by
  rw [eq_filterMap_get? (nodup_keys_ofPairs ps), keys_ofPairs]
  simp only [get?_ofPairs]

/-- Pairs with distinct keys are a map already. -/
theorem ofPairs_eq_self {m : List (α × β)} (hkeys : (keys m).Nodup) : ofPairs m = m := by
  induction m using List.reverseRecOn with
  | nil => rfl
  | append_singleton m p ih =>
    have hsplit : (keys m ++ [p.1]).Nodup := by simpa [keys] using hkeys
    obtain ⟨hm, -, hp⟩ := List.nodup_append.1 hsplit
    rw [ofPairs_append, ih hm, put_of_notMem]
    exact fun hmem => hp p.1 hmem p.1 (List.mem_singleton_self _) rfl

theorem last?_eq_get? {m : List (α × β)} (hkeys : (keys m).Nodup) (k : α) :
    last? k m = get? k m := by
  rw [← get?_ofPairs, ofPairs_eq_self hkeys]

theorem last?_ofPairs (k : α) (ps : List (α × β)) : last? k (ofPairs ps) = last? k ps := by
  rw [last?_eq_get? (nodup_keys_ofPairs ps), get?_ofPairs]

theorem last?_map_snd {γ : Type} (f : β → γ) (k : α) (ps : List (α × β)) :
    last? k (ps.map fun p => (p.1, f p.2)) = (last? k ps).map f := by
  rw [last?, last?, List.filter_map, List.getLast?_map, Option.map_map, Option.map_map]
  rfl

omit [DecidableEq α] in
theorem keys_map_snd {γ : Type} (f : β → γ) (ps : List (α × β)) :
    keys (ps.map fun p => (p.1, f p.2)) = keys ps := by
  rw [keys, List.map_map]
  rfl

theorem ofPairs_map_snd {γ : Type} (f : β → γ) (ps : List (α × β)) :
    ofPairs (ps.map fun p => (p.1, f p.2)) = (ofPairs ps).map fun p => (p.1, f p.2) := by
  rw [ofPairs_eq_filterMap, ofPairs_eq_filterMap, keys_map_snd, List.map_filterMap]
  simp only [last?_map_snd, Option.map_map]
  rfl

theorem get?_eq_some_iff {m : List (α × β)} (hkeys : (keys m).Nodup) {k : α} {v : β} :
    get? k m = some v ↔ (k, v) ∈ m := ⟨mem_of_get?, get?_of_mem hkeys⟩

/-- Where keys are distinct, their places do not matter. -/
theorem get?_perm {m m' : List (α × β)} (h : m.Perm m') (hkeys : (keys m).Nodup) (k : α) :
    get? k m = get? k m' := by
  have hkeys' : (keys m').Nodup := (h.map Prod.fst).nodup_iff.1 hkeys
  ext v
  rw [get?_eq_some_iff hkeys, get?_eq_some_iff hkeys', h.mem_iff]

theorem last?_perm {m m' : List (α × β)} (h : m.Perm m') (hkeys : (keys m).Nodup) (k : α) :
    last? k m = last? k m' := by
  have hkeys' : (keys m').Nodup := (h.map Prod.fst).nodup_iff.1 hkeys
  rw [last?_eq_get? hkeys, last?_eq_get? hkeys', get?_perm h hkeys]

/-- Pairs with other keys do not matter either. -/
theorem last?_filter {p : α → Bool} {k : α} (hk : p k = true) (ps : List (α × β)) :
    last? k (ps.filter fun q => p q.1) = last? k ps := by
  have hboth : ∀ q ∈ ps, (decide (q.1 = k) && p q.1) = decide (q.1 = k) := by
    intro q _
    by_cases hq : q.1 = k
    · simp [hq, hk]
    · simp [hq]
  rw [last?, last?, List.filter_filter, List.filter_congr hboth]

end Ordered

namespace Ascending

variable {β : Type}

theorem get?_insertAscending (k j : String) (v : β) (m : List (String × β)) :
    Ordered.get? j (insertAscending k v m) = if k = j then some v else Ordered.get? j m := by
  induction m with
  | nil => rfl
  | cons p m ih =>
    rw [insertAscending]
    split
    · rfl
    · split
      · rename_i hk
        by_cases hj : k = j <;> simp [Ordered.get?, hj, ← hk]
      · rename_i hk
        rw [Ordered.get?, Ordered.get?, ih]
        by_cases hp : p.1 = j
        · rw [if_pos hp, if_pos hp, if_neg fun h => hk (h.trans hp.symm)]
        · rw [if_neg hp, if_neg hp]

theorem get?_ofPairs (k : String) (ps : List (String × β)) :
    Ordered.get? k (ofPairs ps).entries = Ordered.last? k ps := by
  induction ps using List.reverseRecOn with
  | nil => rfl
  | append_singleton ps p ih =>
    rw [Ordered.last?_append, ← ih, ← get?_insertAscending, ofPairs, List.foldl_append]
    rfl

theorem nodup_keys (m : Ascending β) : (Ordered.keys m.entries).Nodup :=
  (List.pairwise_map.2 m.ascending).imp fun h => String.ne_of_lt h

/-- What the keys look up determines a map, since there is one order for it. -/
theorem ext_get? {m m' : Ascending β}
    (h : ∀ k, Ordered.get? k m.entries = Ordered.get? k m'.entries) : m = m' := by
  have hmem : ∀ p, p ∈ m.entries ↔ p ∈ m'.entries := by
    intro p
    rw [← Ordered.get?_eq_some_iff m.nodup_keys, ← Ordered.get?_eq_some_iff m'.nodup_keys, h]
  have hperm : m.entries.Perm m'.entries :=
    (List.perm_ext_iff_of_nodup (.of_map _ m.nodup_keys) (.of_map _ m'.nodup_keys)).2 hmem
  obtain ⟨entries, ascending⟩ := m
  obtain ⟨entries', ascending'⟩ := m'
  obtain rfl : entries = entries' := by
    refine List.Perm.eq_of_pairwise ?_ ascending ascending' hperm
    intro p q _ _ hpq hqp
    exact absurd (String.lt_trans hpq hqp) (String.lt_irrefl _)
  rfl

end Ascending

end ResourceApi
