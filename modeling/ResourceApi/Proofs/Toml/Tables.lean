import ResourceApi.Toml.Basic

/-!
Building documents from lines. Entries go to the table that was opened last, so a header in double
brackets with entries behind it adds one table that has just these entries.
-/

namespace ResourceApi.Toml

def entryLines (es : List (String × Toml)) : List TomlLine :=
  es.map fun e => .entry [] e.1 e.2

/-- A table of its own below a header in double brackets. -/
def tableLines (k : String) (es : List (String × Toml)) : List TomlLine :=
  .tables [] k :: entryLines es

theorem step_entry {es : List (String × Toml)} {k : String} (h : k ∉ Ordered.keys es) (v : Toml) :
    Building.step ⟨.table headed es, []⟩ (.entry [] k v) =
      some ⟨.table headed (es ++ [(k, v)]), []⟩ := by
  simp [Building.step, modifyAt, addKey, addEntry, headed, Ordered.get?_eq_none h,
    Ordered.put_of_notMem h]

/-- Entries gather in the table that is open, whatever stands around it. -/
theorem foldlM_entryLines (around : List (String × Toml) → Building)
    (hstep : ∀ es k v, k ∉ Ordered.keys es →
      (around es).step (.entry [] k v) = some (around (es ++ [(k, v)])))
    (before es : List (String × Toml)) (h : (Ordered.keys (before ++ es)).Nodup) :
    (entryLines es).foldlM Building.step (around before) = some (around (before ++ es)) := by
  induction es generalizing before with
  | nil => simp [entryLines]
  | cons e es ih =>
    have hnew : e.1 ∉ Ordered.keys before := by
      intro hmem
      rw [Ordered.keys, List.map_append, List.map_cons] at h
      exact (List.nodup_append.1 h).2.2 _ hmem _ List.mem_cons_self rfl
    have hrest := ih (before ++ [e]) (by simpa using h)
    rw [entryLines, List.map_cons, List.foldlM_cons, hstep before e.1 e.2 hnew]
    simpa [entryLines] using hrest

/-- A document that has only entries. -/
theorem ofLines?_entries (es : List (String × Toml)) (h : (Ordered.keys es).Nodup) :
    ofLines? (entryLines es) = some (.table headed es) := by
  have hrun := foldlM_entryLines (fun es => ⟨.table headed es, []⟩)
    (fun es k v hk => step_entry hk v) [] es (by simpa using h)
  rw [ofLines?, Building.start, hrun]
  rfl

section Tables

variable (k : String) (root : List (String × Toml)) (items : List Toml)

/-- The document after tables below a header, while entries go to the last of them. -/
def inLast (es : List (String × Toml)) : Building :=
  ⟨.table headed (Ordered.put k (.tables (items ++ [.table headed es])) root), [k]⟩

theorem step_tables_first {k : String} {root : List (String × Toml)} (h : k ∉ Ordered.keys root)
    (path : List String) :
    Building.step ⟨.table headed root, path⟩ (.tables [] k) = some (inLast k root [] []) := by
  simp [inLast, Building.step, modifyAt, openTables, Ordered.get?_eq_none h]

theorem step_tables_more (path : List String) :
    Building.step ⟨.table headed (Ordered.put k (.tables items) root), path⟩ (.tables [] k) =
      some (inLast k root items []) := by
  simp [inLast, Building.step, modifyAt, openTables, Ordered.get?_put]

theorem step_entry_last {es : List (String × Toml)} {j : String} (h : j ∉ Ordered.keys es)
    (v : Toml) :
    (inLast k root items es).step (.entry [] j v) =
      some (inLast k root items (es ++ [(j, v)])) := by
  simp [inLast, Building.step, modifyAt, addKey, addEntry, headed, Ordered.get?_eq_none h,
    Ordered.put_of_notMem h, Ordered.get?_put]

theorem foldlM_entryLines_last {es : List (String × Toml)} (h : (Ordered.keys es).Nodup) :
    (entryLines es).foldlM Building.step (inLast k root items []) =
      some (inLast k root items es) :=
  foldlM_entryLines (inLast k root items)
    (fun _ _ v hj => step_entry_last k root items hj v) [] es h

theorem foldlM_tableLines (groups : List (List (String × Toml))) (path : List String)
    (h : ∀ es ∈ groups, (Ordered.keys es).Nodup) :
    ((groups.flatMap (tableLines k)).foldlM Building.step
        ⟨.table headed (Ordered.put k (.tables items) root), path⟩).map Building.root =
      some (.table headed
        (Ordered.put k (.tables (items ++ groups.map (.table headed))) root)) := by
  induction groups generalizing items path with
  | nil => simp
  | cons es groups ih =>
    obtain ⟨hes, hgroups⟩ := List.forall_mem_cons.1 h
    have hgroup := foldlM_entryLines_last k root items hes
    have hrest := ih (items ++ [.table headed es]) [k] hgroups
    rw [List.append_assoc, List.singleton_append, ← List.map_cons] at hrest
    rw [List.flatMap_cons, tableLines, List.cons_append, List.foldlM_cons, step_tables_more,
      Option.bind_eq_bind, Option.bind_some, List.foldlM_append, hgroup]
    exact hrest

end Tables

/-- A document of entries and, behind them, tables below one header in double brackets. -/
theorem ofLines?_tables (es : List (String × Toml)) {k : String} (hk : k ∉ Ordered.keys es)
    (hes : (Ordered.keys es).Nodup) {g : List (String × Toml)}
    {more : List (List (String × Toml))} (h : ∀ es ∈ g :: more, (Ordered.keys es).Nodup) :
    ofLines? (entryLines es ++ (g :: more).flatMap (tableLines k)) =
      some (.table headed (es ++ [(k, .tables ((g :: more).map (.table headed)))])) := by
  obtain ⟨hg, hmore⟩ := List.forall_mem_cons.1 h
  have hentries := foldlM_entryLines (fun es => ⟨.table headed es, []⟩)
    (fun es k v hk => step_entry hk v) [] es (by simpa using hes)
  have hfirst := foldlM_entryLines_last k es [] hg
  have hrest := foldlM_tableLines k es [.table headed g] more [k] hmore
  rw [List.singleton_append, ← List.map_cons] at hrest
  rw [ofLines?, Building.start, List.foldlM_append, hentries, List.flatMap_cons, tableLines,
    Option.bind_eq_bind, Option.bind_some, List.nil_append, List.cons_append, List.foldlM_cons,
    step_tables_first hk, Option.bind_eq_bind, Option.bind_some, List.foldlM_append, hfirst,
    ← Ordered.put_of_notMem hk]
  exact hrest

end ResourceApi.Toml
