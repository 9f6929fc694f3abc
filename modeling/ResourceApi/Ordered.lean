/-!
Maps in the order in which their keys were first put. Putting a key that is present replaces its
value where it stands; a key that was erased and put again comes last.
-/

namespace ResourceApi.Ordered

variable {α β : Type}

def keys (m : List (α × β)) : List α := m.map Prod.fst

@[simp] theorem keys_nil : keys ([] : List (α × β)) = [] := rfl
@[simp] theorem keys_cons (p : α × β) (m : List (α × β)) : keys (p :: m) = p.1 :: keys m := rfl

theorem ne_of_mem {k : α} {m : List (α × β)} (h : k ∉ keys m) {p : α × β} (hp : p ∈ m) :
    p.1 ≠ k := fun e => h (e ▸ List.mem_map_of_mem hp)

variable [DecidableEq α]

def put (k : α) (v : β) : List (α × β) → List (α × β)
  | [] => [(k, v)]
  | (j, w) :: rest => if j = k then (k, v) :: rest else (j, w) :: put k v rest

def get? (k : α) : List (α × β) → Option β
  | [] => none
  | (j, w) :: rest => if j = k then some w else get? k rest

def erase (k : α) : List (α × β) → List (α × β)
  | [] => []
  | (j, w) :: rest => if j = k then rest else (j, w) :: erase k rest

def ofPairs (pairs : List (α × β)) : List (α × β) := pairs.foldl (fun m p => put p.1 p.2 m) []

@[simp] theorem put_nil (k : α) (v : β) : put k v [] = [(k, v)] := rfl
@[simp] theorem get?_nil (k : α) : get? k ([] : List (α × β)) = none := rfl

theorem get?_put (k j : α) (v : β) (m : List (α × β)) :
    get? j (put k v m) = if k = j then some v else get? j m := by
  induction m with
  | nil => simp [put, get?]
  | cons p m ih =>
    by_cases h : p.1 = k <;> by_cases hj : k = j <;> simp_all [put, get?]

theorem get?_eq_none {k : α} {m : List (α × β)} (h : k ∉ keys m) : get? k m = none := by
  induction m with
  | nil => rfl
  | cons p m ih =>
    obtain ⟨hp, hm⟩ := not_or.1 (mt List.mem_cons.2 h)
    rw [get?, if_neg (Ne.symm hp), ih hm]

@[simp] theorem put_put (k : α) (v w : β) (m : List (α × β)) :
    put k v (put k w m) = put k v m := by
  induction m with
  | nil => simp [put]
  | cons p m ih => by_cases h : p.1 = k <;> simp [put, h, ih]

theorem put_eq_self {k : α} {v : β} {m : List (α × β)} (h : get? k m = some v) :
    put k v m = m := by
  induction m with
  | nil => cases h
  | cons p m ih =>
    by_cases hp : p.1 = k
    · obtain rfl : p.2 = v := by simpa [get?, hp] using h
      simp [put, ← hp]
    · rw [get?, if_neg hp] at h
      rw [put, if_neg hp, ih h]

theorem put_of_notMem {k : α} {m : List (α × β)} (h : k ∉ keys m) (v : β) :
    put k v m = m ++ [(k, v)] := by
  induction m with
  | nil => rfl
  | cons p m ih =>
    obtain ⟨hp, hm⟩ := not_or.1 (mt List.mem_cons.2 h)
    rw [put, if_neg (Ne.symm hp), ih hm, List.cons_append]

theorem get?_of_mem {m : List (α × β)} (hkeys : (keys m).Nodup) {k : α} {v : β}
    (h : (k, v) ∈ m) : get? k m = some v := by
  induction m with
  | nil => simp at h
  | cons p m ih =>
    obtain ⟨hp, hm⟩ := List.nodup_cons.1 hkeys
    rcases List.mem_cons.1 h with rfl | h
    · simp [get?]
    · have hne : p.1 ≠ k := fun e => hp (e ▸ List.mem_map_of_mem h)
      rw [get?, if_neg hne, ih hm h]

theorem mem_of_get? {m : List (α × β)} {k : α} {v : β} (h : get? k m = some v) : (k, v) ∈ m := by
  induction m with
  | nil => cases h
  | cons p m ih =>
    rw [get?] at h
    split at h
    · rename_i hp
      cases h
      rw [← hp]
      exact List.mem_cons_self
    · exact List.mem_cons_of_mem p (ih h)

theorem keys_put (k : α) (v : β) (m : List (α × β)) :
    keys (put k v m) = if k ∈ keys m then keys m else keys m ++ [k] := by
  induction m with
  | nil => simp [put]
  | cons p m ih =>
    by_cases h : p.1 = k
    · simp [put, h]
    · have hk : k ≠ p.1 := fun e => h e.symm
      by_cases hm : k ∈ keys m <;> simp_all [put]

theorem keys_erase (k : α) (m : List (α × β)) : keys (erase k m) = (keys m).erase k := by
  induction m with
  | nil => rfl
  | cons p m ih =>
    by_cases h : p.1 = k <;> simp_all [erase]

theorem isSome_get?_iff {k : α} {m : List (α × β)} : (get? k m).isSome ↔ k ∈ keys m := by
  induction m with
  | nil => simp
  | cons p m ih =>
    by_cases h : p.1 = k
    · simp [get?, h]
    · simp [get?, h, ih, Ne.symm h]

/-! ### Keys that are put and erased -/

theorem erase_of_notMem {k : α} {m : List (α × β)} (h : k ∉ keys m) : erase k m = m := by
  induction m with
  | nil => rfl
  | cons p m ih =>
    obtain ⟨hp, hm⟩ := not_or.1 (mt List.mem_cons.2 h)
    rw [erase, if_neg (Ne.symm hp), ih hm]

theorem get?_erase (k j : α) {m : List (α × β)} (hkeys : (keys m).Nodup) :
    get? j (erase k m) = if k = j then none else get? j m := by
  induction m with
  | nil => simp [erase]
  | cons p m ih =>
    obtain ⟨hp, hm⟩ := List.nodup_cons.1 hkeys
    by_cases hk : p.1 = k
    · rw [erase, if_pos hk]
      by_cases hj : k = j
      · rw [if_pos hj, get?_eq_none (hj ▸ hk ▸ hp)]
      · rw [if_neg hj, get?, if_neg (hk ▸ hj)]
    · rw [erase, if_neg hk, get?, get?, ih hm]
      by_cases hj : p.1 = j
      · rw [if_pos hj, if_pos hj, if_neg fun e => hk (hj.trans e.symm)]
      · rw [if_neg hj, if_neg hj]

@[simp] theorem erase_put (k : α) (v : β) (m : List (α × β)) :
    erase k (put k v m) = erase k m := by
  induction m with
  | nil => simp [erase]
  | cons p m ih => by_cases h : p.1 = k <;> simp [put, erase, h, ih]

theorem erase_put_comm {k j : α} (h : j ≠ k) (v : β) (m : List (α × β)) :
    erase k (put j v m) = put j v (erase k m) := by
  induction m with
  | nil => simp [erase, h]
  | cons p m ih =>
    by_cases hj : p.1 = j
    · simp [put, erase, hj, h]
    · by_cases hk : p.1 = k <;> simp [put, erase, hj, hk, ih, Ne.symm h]

theorem erase_erase_comm (k j : α) (m : List (α × β)) :
    erase k (erase j m) = erase j (erase k m) := by
  induction m with
  | nil => rfl
  | cons p m ih => by_cases hj : p.1 = j <;> by_cases hk : p.1 = k <;> simp_all [erase]

/-- A value that is replaced stays where it was, and so does everything else. -/
theorem put_eq_map {k : α} {m : List (α × β)} (hkeys : (keys m).Nodup) (h : k ∈ keys m) (v : β) :
    put k v m = m.map fun p => if p.1 = k then (k, v) else p := by
  induction m with
  | nil => cases h
  | cons p m ih =>
    obtain ⟨hp, hm⟩ := List.nodup_cons.1 hkeys
    by_cases hk : p.1 = k
    · have hrest : ∀ q ∈ m, (if q.1 = k then (k, v) else q) = q :=
        fun q hq => if_neg (ne_of_mem (hk ▸ hp) hq)
      rw [put, if_pos hk, List.map_cons, if_pos hk, List.map_congr_left hrest, List.map_id']
    · have hmem : k ∈ keys m := (List.mem_cons.1 h).resolve_left (Ne.symm hk)
      rw [put, if_neg hk, List.map_cons, if_neg hk, ih hm hmem]

theorem erase_eq_filter (k : α) {m : List (α × β)} (hkeys : (keys m).Nodup) :
    erase k m = m.filter fun p => p.1 ≠ k := by
  induction m with
  | nil => rfl
  | cons p m ih =>
    obtain ⟨hp, hm⟩ := List.nodup_cons.1 hkeys
    by_cases hk : p.1 = k
    · have hrest : m.filter (fun q => q.1 ≠ k) = m :=
        List.filter_eq_self.2 fun q hq => decide_eq_true (ne_of_mem (hk ▸ hp) hq)
      rw [erase, if_pos hk, List.filter_cons_of_neg (by simpa using hk), hrest]
    · rw [erase, if_neg hk, List.filter_cons_of_pos (by simpa using hk), ih hm]

end ResourceApi.Ordered
