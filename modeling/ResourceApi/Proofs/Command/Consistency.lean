import ResourceApi.Proofs.Command.ContextFile

/-!
Stores of contexts stay consistent: no two contexts have one name, and the current one, if there is
one, is stored. No command breaks this, so after any commands the file says so.
-/

namespace ResourceApi.Command

namespace ContextStore

variable {s s' : ContextStore} {name : String}

def names (s : ContextStore) : List String := s.contexts.map Context.name

theorem find?_eq_none_iff : s.find? name = none ↔ name ∉ s.names := by
  simp [find?, names]

theorem has_iff : s.has name = true ↔ name ∈ s.names := by
  simp [has, find?, names, List.find?_isSome]

@[simp] theorem change_name (c : Context) (x : ContextChange) : (c.change x).name = c.name := rfl

/-- A change of a context keeps its name, so the names stay as they are. -/
theorem names_changeFirst (p : Context → Bool) (x : ContextChange) (cs : List Context) :
    (changeFirst p (·.change x) cs).map Context.name = cs.map Context.name := by
  induction cs with
  | nil => rfl
  | cons c cs ih =>
    rw [changeFirst]
    split
    · simp
    · simp [ih]

/-- Setting a context keeps the names, and adds a new one at the end. -/
theorem names_set (s : ContextStore) (name : String) (x : ContextChange) :
    (s.set name x).names = if name ∈ s.names then s.names else s.names ++ [name] := by
  by_cases h : s.has name = true
  · rw [if_pos (has_iff.1 h), names, set, if_pos h]
    exact names_changeFirst _ x s.contexts
  · rw [if_neg (mt has_iff.2 h), names, set, if_neg h]
    simp [names, Context.new]

theorem names_filter (cs : List Context) (name : String) :
    (cs.filter (·.name != name)).map Context.name = (cs.map Context.name).filter (· != name) := by
  rw [List.filter_map]
  rfl

/-! ### Consistency -/

structure IsConsistent (s : ContextStore) : Prop where
  names : s.names.Nodup
  current : s.current = "" ∨ s.current ∈ s.names

/-- Without contexts none is current. -/
theorem isConsistent_empty : empty.IsConsistent := ⟨List.nodup_nil, .inl rfl⟩

/-- Setting a context keeps names apart, and makes the first one current. -/
theorem IsConsistent.set (h : s.IsConsistent) (name : String) (x : ContextChange) :
    (s.set name x).IsConsistent := by
  have hkept : ∀ n ∈ s.names, n ∈ (s.set name x).names := by
    intro n hn
    rw [names_set]
    split
    · exact hn
    · exact List.mem_append_left _ hn
  have hset : name ∈ (s.set name x).names := by
    rw [names_set]
    split
    · assumption
    · simp
  constructor
  · rw [names_set]
    split
    · exact h.names
    · rename_i hnew
      rw [List.nodup_append]
      refine ⟨h.names, by simp, ?_⟩
      rintro a ha b hb rfl
      exact hnew (List.mem_singleton.1 hb ▸ ha)
  · by_cases hempty : s.current.isEmpty = true
    · exact .inr (by simpa [ContextStore.set, hempty] using hset)
    · have hcurrent : (s.set name x).current = s.current := by simp [ContextStore.set, hempty]
      rw [hcurrent]
      exact h.current.imp_right (hkept _)

/-- A context that is there can become the current one. -/
theorem IsConsistent.use (h : s.IsConsistent) (hname : s.has name = true) :
    IsConsistent { s with current := name } :=
  ⟨h.names, .inr (has_iff.1 hname)⟩

/-- Where the current context is deleted, no context is current. -/
theorem IsConsistent.delete (h : s.IsConsistent) (name : String) :
    IsConsistent
      ⟨if s.current = name then "" else s.current, s.contexts.filter (·.name != name)⟩ := by
  constructor
  · rw [ContextStore.names, names_filter]
    exact h.names.filter _
  · by_cases hcurrent : s.current = name
    · exact .inl (if_pos hcurrent)
    · simp only [if_neg hcurrent, ContextStore.names, names_filter, List.mem_filter]
      exact h.current.imp_right fun hmem => ⟨hmem, by simpa using hcurrent⟩

/-- Each command that succeeds keeps a store consistent. -/
theorem IsConsistent.becomes {c : ContextCommand} (h : s.IsConsistent) (hc : s.Becomes c s') :
    s'.IsConsistent := by
  cases hc with
  | list => exact h
  | set name x => exact h.set name x
  | use hname => exact h.use hname
  | delete _ => exact h.delete _

/-- In a consistent store only an empty name finds no current context. -/
theorem IsConsistent.current?_eq_none (h : s.IsConsistent) (hnone : s.current? = none) :
    s.current = "" := by
  rcases h.current with hempty | hmem
  · exact hempty
  · exact absurd hmem (find?_eq_none_iff.1 hnone)

/-! ### Marks -/

/-- A row of the table of contexts with a star in front. -/
def IsMarked (row : String) : Prop := row.toList.head? = some '*'

instance (row : String) : Decidable (IsMarked row) := inferInstanceAs (Decidable (_ = _))

/-- The row of the current context has a star, and no other row has one. -/
theorem isMarked_contextRow_iff (s : ContextStore) (c : Context) :
    IsMarked (s.contextRow c) ↔ c.name = s.current := by
  by_cases h : c.name = s.current <;> simp [IsMarked, contextRow, row, padded, h]

/-- Only the current context has a mark. -/
theorem IsConsistent.marked_le_one (h : s.IsConsistent) :
    (s.contexts.filter fun c => IsMarked (s.contextRow c)).length ≤ 1 := by
  have hcount := List.nodup_iff_count.1 h.names s.current
  have hfilter : (s.contexts.filter fun c => IsMarked (s.contextRow c)).length =
      s.names.count s.current := by
    rw [ContextStore.names, List.count, List.countP_map, List.countP_eq_length_filter]
    refine congrArg List.length (List.filter_congr fun c _ => ?_)
    rw [Bool.eq_iff_iff]
    simp [isMarked_contextRow_iff]
  omega

end ContextStore

/-- After any commands, failing ones included, the file gives a consistent store: only an empty name
is current and not stored, and the list has at most one mark. -/
theorem runContexts_isConsistent {file : Route} {w : World} (hw : w.files.holds file = false)
    (cs : List ContextCommand) :
    ∃ s, (loadContexts file).runIn (runContexts file cs w).world =
        (.ok s, (runContexts file cs w).world) ∧
      s.IsConsistent ∧ (s.current? = none → s.current = "") ∧
      (runContext file .list).runIn (runContexts file cs w).world =
        (.ok s.table, (runContexts file cs w).world) ∧
      (s.contexts.filter fun c => ContextStore.IsMarked (s.contextRow c)).length ≤ 1 := by
  obtain ⟨s, hkeeps, hs⟩ := exists_keeps_runContexts (P := fun _ s => s.IsConsistent)
    ContextStore.isConsistent_empty (fun hs hc => hs.becomes hc) hw cs
  have hload := runIn_loadContexts hkeeps
  have hlist : (runContext file .list).runIn (runContexts file cs w).world =
      (.ok s.table, (runContexts file cs w).world) := by
    simp [runContext, hload, ContextStore.apply]
  exact ⟨s, hload, hs, hs.current?_eq_none, hlist, hs.marked_le_one⟩

/-- A context without a name, and one that becomes current, is deleted and is made again. -/
def recreated : List ContextCommand :=
  [.set "" ⟨none, none, none⟩, .set "a" ⟨some "http://a/", none, none⟩, .delete "a",
    .set "a" ⟨none, some "t", none⟩]

/-- An empty name is a name like others, and a context can come back under its old name. -/
theorem recreated_isConsistent :
    Files.empty.holds ["config.toml"] = false ∧
    ∃ s, (loadContexts ["config.toml"]).runIn
          (runContexts ["config.toml"] recreated ⟨.empty, .isolated⟩).world =
        (.ok s, (runContexts ["config.toml"] recreated ⟨.empty, .isolated⟩).world) ∧
      s.IsConsistent ∧ s.names = ["", "a"] ∧ s.current = "a" := by
  have hfile : (⟨.empty, .isolated⟩ : World).files.holds ["config.toml"] = false := by decide
  obtain ⟨s, hload, hs, -⟩ := runContexts_isConsistent hfile recreated
  have hrun : ((loadContexts ["config.toml"]).runIn (runContexts ["config.toml"] recreated
      ⟨.empty, .isolated⟩).world).1.toOption.map (fun s => (s.names, s.current)) =
      some (["", "a"], "a") := by decide +kernel
  rw [hload] at hrun
  obtain ⟨hnames, hcurrent⟩ := Prod.mk.inj (Option.some.inj hrun)
  exact ⟨hfile, s, hload, hs, hnames, hcurrent⟩

end ResourceApi.Command
