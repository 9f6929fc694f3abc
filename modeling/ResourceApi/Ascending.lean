/-!
Maps in ascending order of their keys, by code points. The order is part of the type, so that two
maps with the same entries are equal.
-/

namespace ResourceApi

variable {β : Type}

/-- Inserts before the first greater key; an equal key has its value replaced. -/
def insertAscending (k : String) (v : β) : List (String × β) → List (String × β)
  | [] => [(k, v)]
  | (j, w) :: rest =>
    if k < j then (k, v) :: (j, w) :: rest
    else if k = j then (k, v) :: rest
    else (j, w) :: insertAscending k v rest

theorem mem_insertAscending {k : String} {v : β} {p : String × β} {m : List (String × β)}
    (h : p ∈ insertAscending k v m) : p = (k, v) ∨ p ∈ m := by
  induction m with
  | nil => simpa [insertAscending] using h
  | cons q m ih =>
    obtain ⟨j, w⟩ := q
    simp only [insertAscending] at h
    split at h
    · simpa using h
    · split at h
      · rcases List.mem_cons.1 h with h | h
        · exact .inl h
        · exact .inr (List.mem_cons_of_mem _ h)
      · rcases List.mem_cons.1 h with h | h
        · exact .inr (h ▸ List.mem_cons_self)
        · exact (ih h).imp id (List.mem_cons_of_mem _)

theorem pairwise_insertAscending {k : String} {v : β} {m : List (String × β)}
    (h : m.Pairwise (·.1 < ·.1)) : (insertAscending k v m).Pairwise (·.1 < ·.1) := by
  induction m with
  | nil => simp [insertAscending]
  | cons q m ih =>
    obtain ⟨j, w⟩ := q
    obtain ⟨hj, hm⟩ := List.pairwise_cons.1 h
    simp only [insertAscending]
    split
    · rename_i hk
      refine List.pairwise_cons.2 ⟨fun p hp => ?_, h⟩
      rcases List.mem_cons.1 hp with rfl | hp
      · exact hk
      · exact String.lt_trans hk (hj p hp)
    · rename_i hk
      split
      · rename_i he
        exact List.pairwise_cons.2 ⟨fun p hp => he ▸ hj p hp, hm⟩
      · rename_i he
        refine List.pairwise_cons.2 ⟨fun p hp => ?_, ih hm⟩
        rcases mem_insertAscending hp with rfl | hp
        · exact Std.lt_of_le_of_ne (Std.not_lt.1 hk) fun e => he e.symm
        · exact hj p hp

structure Ascending (β : Type) where
  entries : List (String × β)
  ascending : entries.Pairwise (·.1 < ·.1)

namespace Ascending

def empty : Ascending β := ⟨[], .nil⟩

def insert (m : Ascending β) (k : String) (v : β) : Ascending β :=
  ⟨insertAscending k v m.entries, pairwise_insertAscending m.ascending⟩

/-- Inserts the pairs in turn, so that of a repeated key the last value stays. -/
def ofPairs (pairs : List (String × β)) : Ascending β :=
  pairs.foldl (fun m p => m.insert p.1 p.2) empty

@[simp] theorem entries_empty : (empty : Ascending β).entries = [] := rfl

@[simp] theorem entries_insert (m : Ascending β) (k : String) (v : β) :
    (m.insert k v).entries = insertAscending k v m.entries := rfl

end Ascending

end ResourceApi
