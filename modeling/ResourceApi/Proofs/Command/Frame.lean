import ResourceApi.Proofs.Command.Consistency

/-!
What context commands leave alone, and which of them fail. A command touches no context but the one
that it names. At a place where a file can be written, just those commands fail that name a context
which is not there, or give a time that no document holds.
-/

namespace ResourceApi.Command

namespace ContextStore

/-! ### Changing one context -/

section ChangeFirst

variable {p : Context → Bool} {f : Context → Context} {cs : List Context}

theorem mem_changeFirst {c : Context} (h : c ∈ changeFirst p f cs) :
    c ∈ cs ∨ ∃ d ∈ cs, c = f d := by
  induction cs with
  | nil => exact .inl h
  | cons d cs ih =>
    rw [changeFirst] at h
    split at h
    · rcases List.mem_cons.1 h with rfl | h
      · exact .inr ⟨d, List.mem_cons_self, rfl⟩
      · exact .inl (List.mem_cons_of_mem _ h)
    · rcases List.mem_cons.1 h with rfl | h
      · exact .inl List.mem_cons_self
      · rcases ih h with h | ⟨e, he, hc⟩
        · exact .inl (List.mem_cons_of_mem _ h)
        · exact .inr ⟨e, List.mem_cons_of_mem _ he, hc⟩

theorem exists_mem_changeFirst (h : ∃ c ∈ cs, p c = true) :
    ∃ c ∈ cs, f c ∈ changeFirst p f cs := by
  induction cs with
  | nil => simp at h
  | cons d cs ih =>
    rw [changeFirst]
    by_cases hd : p d = true
    · exact ⟨d, List.mem_cons_self, by simp [hd]⟩
    · obtain ⟨c, hc, hmem⟩ := ih (by simpa [hd] using h)
      exact ⟨c, List.mem_cons_of_mem _ hc, by simp [hd, hmem]⟩

/-- Whatever does not see the changed element sees no change. -/
theorem filter_changeFirst {q : Context → Bool} (hp : ∀ c, p c = true → q c = false)
    (hc : ∀ c, p c = true → q (f c) = false) :
    (changeFirst p f cs).filter q = cs.filter q := by
  induction cs with
  | nil => rfl
  | cons d cs ih =>
    rw [changeFirst]
    split
    · rename_i hd
      simp [hp d hd, hc d hd]
    · simp [List.filter_cons, ih]

/-- With distinct names, the first context that has a name is the only one. -/
theorem changeFirst_eq_map {name : String} (h : (cs.map Context.name).Nodup) :
    changeFirst (·.name == name) f cs =
      cs.map fun c => if c.name = name then f c else c := by
  induction cs with
  | nil => rfl
  | cons d cs ih =>
    obtain ⟨hd, hcs⟩ := List.nodup_cons.1 h
    by_cases hname : d.name = name
    · have hsame : ∀ c ∈ cs, (if c.name = name then f c else c) = id c := by
        intro c hc
        have hne : c.name ≠ name := by
          rintro rfl
          exact hd (hname ▸ List.mem_map_of_mem hc)
        rw [if_neg hne, id]
      have hrest := (List.map_congr_left hsame).trans (List.map_id cs)
      simp [changeFirst, hname, hrest]
    · simp [changeFirst, hname, ih hcs]

end ChangeFirst

end ContextStore

/-! ### Other contexts -/

def ContextCommand.target? : ContextCommand → Option String
  | .list => none
  | .set name _ | .use name | .delete name => some name

namespace ContextStore

variable {s s' : ContextStore} {name : String}

/-- Setting a context leaves the others as they are. -/
theorem filter_set (s : ContextStore) (name : String) (x : ContextChange) :
    (s.set name x).contexts.filter (fun k => some name ≠ some k.name) =
      s.contexts.filter (fun k => some name ≠ some k.name) := by
  by_cases h : s.has name = true
  · rw [set, if_pos h]
    apply filter_changeFirst
    · intro c hc
      obtain rfl := beq_iff_eq.1 hc
      simp
    · intro c hc
      obtain rfl := beq_iff_eq.1 hc
      simp
  · simp [set, h, Context.new]

/-- All contexts that a command does not name stay as they are, and in order. -/
theorem Becomes.filter_contexts {c : ContextCommand} (h : s.Becomes c s') :
    s'.contexts.filter (fun k => c.target? ≠ some k.name) =
      s.contexts.filter (fun k => c.target? ≠ some k.name) := by
  cases h with
  | list => rfl
  | set name x => exact filter_set s name x
  | use _ => rfl
  | @delete name _ =>
    rw [List.filter_filter]
    apply List.filter_congr
    intro k _
    by_cases hk : k.name = name
    · simp [ContextCommand.target?, hk]
    · simp [ContextCommand.target?, hk]

/-! ### Failures -/

/-- The commands that fail, and how: those about a context that is not there, and those that give a
time beyond what a document holds. -/
def Refuses (s : ContextStore) : ContextCommand → CommandError → Prop
  | .list, _ => False
  | .set _ x, e => (∃ n ∈ x.timeoutSecs, 0x8000000000000000 ≤ n) ∧ e = .unwritableTimeout
  | .use name, e => name ∉ s.names ∧ e = .unknownContext name
  | .delete name, e => name ∉ s.names ∧ e = .nothingToDelete name

/-- After a context is set, one of the contexts is a changed one, and the others were there. -/
theorem contexts_set (s : ContextStore) (name : String) (x : ContextChange) :
    ∃ d, (d ∈ s.contexts ∨ d = Context.new name) ∧ d.change x ∈ (s.set name x).contexts := by
  by_cases h : s.has name = true
  · obtain ⟨c, hc, hname⟩ := List.mem_map.1 (has_iff.1 h)
    obtain ⟨d, hd, hmem⟩ := exists_mem_changeFirst (p := (·.name == name))
      (f := (·.change x)) ⟨c, hc, by simp [hname]⟩
    exact ⟨d, .inl hd, by simpa [set, h] using hmem⟩
  · exact ⟨Context.new name, .inr rfl, by simp [set, h]⟩

/-- After a context is set, each context was there or is one that was changed. -/
theorem mem_set {c : Context} {x : ContextChange} (h : c ∈ (s.set name x).contexts) :
    c ∈ s.contexts ∨ ∃ d, (d ∈ s.contexts ∨ d = Context.new name) ∧ c = d.change x := by
  by_cases hname : s.has name = true
  · obtain hc | ⟨d, hd, hc⟩ := mem_changeFirst (by simpa [set, hname] using h)
    · exact .inl hc
    · exact .inr ⟨d, .inl hd, hc⟩
  · have hc : c ∈ s.contexts ∨ c = (Context.new name).change x := by
      simpa [set, hname] using h
    exact hc.imp_right fun hc => ⟨Context.new name, .inr rfl, hc⟩

/-- Setting a context keeps a document possible unless it gives a time that none holds. -/
theorem isWritable_set (h : s.isWritable = true) (name : String) (x : ContextChange) :
    (s.set name x).isWritable = true ↔ ¬∃ n ∈ x.timeoutSecs, 0x8000000000000000 ≤ n := by
  have hold : ∀ d, d ∈ s.contexts ∨ d = Context.new name → d.Fits := by
    rintro d (hd | rfl)
    · exact isWritable_iff.1 h d hd
    · simp [Context.Fits, Context.new]
  rw [isWritable_iff]
  constructor
  · rintro hall ⟨n, hn, hle⟩
    obtain ⟨d, -, hd⟩ := contexts_set s name x
    have htime : (d.change x).timeoutSecs = some n := by
      rw [Option.mem_def] at hn
      simp [Context.change, hn]
    exact absurd (Nat.le_trans hle (hall _ hd n htime)) (by decide)
  · intro hx c hc n hn
    obtain hc | ⟨d, hd, rfl⟩ := mem_set hc
    · exact hold c (.inl hc) n hn
    · cases ht : x.timeoutSecs with
      | none => exact hold d hd n (by simpa [Context.change, ht] using hn)
      | some m =>
        obtain rfl : m = n := by simpa [Context.change, ht] using hn
        exact Nat.le_of_lt_succ (Nat.lt_of_not_le fun hle => hx ⟨m, ht, hle⟩)

/-- Fewer contexts still fit a document. -/
theorem isWritable_delete (h : s.isWritable = true) (current name : String) :
    isWritable ⟨current, s.contexts.filter (·.name != name)⟩ = true := by
  rw [isWritable_iff] at h ⊢
  exact fun c hc => h c ((List.mem_filter.1 hc).1)

end ContextStore

/-! ### Runs -/

section Running

variable {w w' : World} {file : Route} {s : ContextStore} {c : ContextCommand}
  {r : Except CommandError String}

/-- A store that was read from a file can be written to one. -/
theorem Files.Keeps.isWritable {f : Files} (h : f.Keeps file s) : s.isWritable = true := by
  cases h with
  | missing _ => rfl
  | written hs _ => exact hs

/-- Commands that are refused fail, whatever the files are like. -/
theorem runIn_runContext_of_refuses {e : CommandError} (h : w.files.Keeps file s)
    (hc : s.Refuses c e) (hr : (runContext file c).runIn w = (r, w')) : ∃ e', r = .error e' := by
  obtain ⟨output, s', -, hbecomes, hkeeps⟩ | ⟨hfailed, -⟩ := runIn_runContext_cases h hr
  · cases hbecomes with
    | list => exact hc.elim
    | set name x =>
      exact absurd hc.1 ((ContextStore.isWritable_set h.isWritable name x).1 hkeeps.isWritable)
    | use hhas => exact absurd (ContextStore.has_iff.1 hhas) hc.1
    | delete hhas => exact absurd (ContextStore.has_iff.1 hhas) hc.1
  · exact hfailed

/-- A command that changes the store writes it, or fails because a document cannot hold it. -/
theorem runIn_runContext_changed {s' : ContextStore} {output : String}
    (h : w.files.Keeps file s) (hf : w.files.IsFree file)
    (hc : s.apply c = .ok (some s', output)) (hr : (runContext file c).runIn w = (r, w')) :
    w'.files.IsFree file ∧
      r = if s'.isWritable then .ok output else .error .unwritableTimeout := by
  have hload := runIn_loadContexts h
  rcases hsave : (saveContexts file s').runIn w with ⟨r', w''⟩
  obtain ⟨hfree, rfl⟩ := runIn_saveContexts_of_isFree hf hsave
  simp only [runContext, Job.runIn_bind, hload, Job.runIn_ofExcept, hc, hsave] at hr
  by_cases hs : s'.isWritable = true
  · simp only [hs, if_true, Job.runIn_pure, Prod.mk.injEq] at hr
    obtain ⟨rfl, rfl⟩ := hr
    exact ⟨hfree, by rw [if_pos hs]⟩
  · simp only [hs] at hr
    obtain ⟨rfl, rfl⟩ := hr
    exact ⟨hfree, by rw [if_neg hs]⟩

/-- A command that the store refuses changes nothing. -/
theorem runIn_runContext_failed {e : CommandError} (h : w.files.Keeps file s)
    (hc : s.apply c = .error e) (hr : (runContext file c).runIn w = (r, w')) :
    r = .error e ∧ w' = w := by
  have hload := runIn_loadContexts h
  simpa [runContext, hload, hc, eq_comm] using hr

/-- At a free place only those commands fail that are refused. -/
theorem runIn_runContext_of_isFree (h : w.files.Keeps file s) (hf : w.files.IsFree file)
    (hr : (runContext file c).runIn w = (r, w')) :
    w'.files.IsFree file ∧ ∀ e, r = .error e ↔ s.Refuses c e := by
  cases c with
  | list =>
    have hload := runIn_loadContexts h
    obtain ⟨rfl, rfl⟩ : .ok s.table = r ∧ w = w' := by
      simpa [runContext, hload, ContextStore.apply] using hr
    exact ⟨hf, fun e => by simp [ContextStore.Refuses]⟩
  | set name x =>
    obtain ⟨hfree, rfl⟩ := runIn_runContext_changed h hf rfl hr
    refine ⟨hfree, fun e => ?_⟩
    have hiff := ContextStore.isWritable_set h.isWritable name x
    by_cases hs : (s.set name x).isWritable = true
    · simp only [if_pos hs, ContextStore.Refuses, hiff.1 hs]
      simp
    · have hx : ∃ n ∈ x.timeoutSecs, 0x8000000000000000 ≤ n := Classical.not_not.1 (mt hiff.2 hs)
      simp only [if_neg hs, ContextStore.Refuses, hx]
      simp [eq_comm]
  | use name =>
    have happly := s.apply_use name
    by_cases hname : s.has name = true
    · rw [if_pos hname] at happly
      have hs : ContextStore.isWritable { s with current := name } = true := h.isWritable
      obtain ⟨hfree, rfl⟩ := runIn_runContext_changed h hf happly hr
      exact ⟨hfree, fun e => by simp [hs, ContextStore.Refuses, ContextStore.has_iff.1 hname]⟩
    · rw [if_neg hname] at happly
      obtain ⟨rfl, rfl⟩ := runIn_runContext_failed h happly hr
      have hnames := mt ContextStore.has_iff.2 hname
      exact ⟨hf, fun e => by simp [ContextStore.Refuses, hnames, eq_comm]⟩
  | delete name =>
    have happly := s.apply_delete name
    by_cases hname : s.has name = true
    · rw [if_pos hname] at happly
      have hs := ContextStore.isWritable_delete h.isWritable
        (if s.current = name then "" else s.current) name
      obtain ⟨hfree, rfl⟩ := runIn_runContext_changed h hf happly hr
      exact ⟨hfree, fun e => by simp [hs, ContextStore.Refuses, ContextStore.has_iff.1 hname]⟩
    · rw [if_neg hname] at happly
      obtain ⟨rfl, rfl⟩ := runIn_runContext_failed h happly hr
      have hnames := mt ContextStore.has_iff.2 hname
      exact ⟨hf, fun e => by simp [ContextStore.Refuses, hnames, eq_comm]⟩

end Running

end ResourceApi.Command
