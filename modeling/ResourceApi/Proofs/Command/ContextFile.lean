import ResourceApi.Command.Run
import ResourceApi.Proofs.Command.Store

/-!
Context commands and their file. As long as a file says what the contexts are, or is not there and
they are none, a command either puts its store into the file or fails and leaves all texts as they
were; only a missing folder may have been made.
-/

namespace ResourceApi.Command

/-! ### Jobs -/

namespace Job

variable {α β ε : Type}

@[simp] theorem runIn_pure (x : α) (w : World) : (pure x : Job α).runIn w = (.ok x, w) := rfl

@[simp] theorem runIn_fail (e : CommandError) (w : World) :
    (fail e : Job α).runIn w = (.error e, w) := rfl

@[simp] theorem runIn_files (w : World) : files.runIn w = (.ok w.files, w) := rfl

@[simp] theorem runIn_bind (j : Job α) (f : α → Job β) (w : World) :
    (j >>= f).runIn w = match j.runIn w with
      | (.ok x, w') => (f x).runIn w'
      | (.error e, w') => (.error e, w') := by
  unfold runIn
  rw [ExceptT.run_bind, StateT.run_bind]
  obtain ⟨r, w'⟩ := j.run.run w
  cases r with
  | ok x => simp [bind]
  | error e => rfl

@[simp] theorem runIn_ofExcept (cause : ε → CommandError) (r : Except ε α) (w : World) :
    (ofExcept cause r).runIn w = (match r with
      | .ok x => .ok x
      | .error e => .error (cause e), w) := by
  cases r <;> rfl

@[simp] theorem runIn_ofOption (cause : CommandError) (o : Option α) (w : World) :
    (ofOption cause o).runIn w = (match o with
      | some x => .ok x
      | none => .error cause, w) := by
  cases o <;> rfl

@[simp] theorem runIn_changeFiles (cause : ε → CommandError) (change : Files → Except ε Files)
    (w : World) :
    (changeFiles cause change).runIn w = match change w.files with
      | .ok f => (.ok (), { w with files := f })
      | .error e => (.error (cause e), w) := by
  simp only [changeFiles, runIn_bind, runIn_files]
  cases change w.files <;> rfl

end Job

/-! ### Files -/

namespace Files

variable {f f' : Files} {file r : Route} {text : String}

/-- A folder is made by adding it, unless it is there. -/
theorem makeFolder_cases (h : f.makeFolder r = .ok f') :
    (f.isFolder r = true ∧ f' = f) ∨ f' = { f with made := f.made ++ [r] } := by
  unfold makeFolder at h
  split at h
  · rename_i hr
    exact .inl ⟨hr, (Except.ok.inj h).symm⟩
  · split at h
    · exact absurd h (by simp)
    · split at h
      · exact absurd h (by simp)
      · exact .inr (Except.ok.inj h).symm

/-- Making a folder changes no text. -/
theorem makeFolder_texts (h : f.makeFolder r = .ok f') : f'.texts = f.texts := by
  obtain ⟨-, rfl⟩ | rfl := makeFolder_cases h
  · rfl
  · rfl

/-- A folder that was made is there. -/
theorem makeFolder_makes (h : f.makeFolder r = .ok f') : f'.isFolder r = true := by
  obtain ⟨hr, rfl⟩ | rfl := makeFolder_cases h
  · exact hr
  · simp [isFolder]

/-- Making a folder makes no folder of what is not on the way to it. -/
theorem makeFolder_isFolder (h : f.makeFolder r = .ok f') (hr : file.isPrefixOf r = false) :
    f'.isFolder file = f.isFolder file := by
  obtain ⟨-, rfl⟩ | rfl := makeFolder_cases h
  · rfl
  · simp only [isFolder, List.any_append, List.any_cons, List.any_nil, hr, Bool.or_false]

/-- Where writing succeeds, the folder was there and one text is new. -/
theorem write_cases (h : f.write r text = .ok f') :
    f' = { f with texts := Ordered.put r text f.texts } := by
  unfold write at h
  split at h
  · exact absurd h (by simp)
  · split at h
    · exact absurd h (by simp)
    · split at h
      · exact (Except.ok.inj h).symm
      · exact absurd h (by simp)

theorem ne_nil_of_not_isFolder (h : f.isFolder file = false) : file ≠ [] := by
  rintro rfl
  simp [isFolder] at h

/-- No file is on the way to its own folder. -/
theorem not_isPrefixOf_dropLast (h : file ≠ []) : file.isPrefixOf file.dropLast = false := by
  rw [Bool.eq_false_iff]
  intro hstart
  have hle := (List.isPrefixOf_iff_prefix.1 hstart).length_le
  have hpos := List.length_pos_iff.2 h
  rw [List.length_dropLast] at hle
  omega

theorem isBelow_iff {folder : Route} :
    isBelow r folder = true ↔ folder <+: r ∧ folder.length < r.length := by
  simp [isBelow]

theorem not_isBelow_self (r : Route) : isBelow r r = false := by
  simp [isBelow]

/-- A place for a file: it is no folder, and no file stands in its way. -/
structure IsFree (f : Files) (file : Route) : Prop where
  folder : f.isFolder file = false
  way : f.isBlocked file = false

/-- A place for a file stays one when the folder around it is made. -/
theorem IsFree.makeFolder (h : f.IsFree file) (hm : f.makeFolder file.dropLast = .ok f') :
    f'.IsFree file where
  folder := by
    have hne := ne_nil_of_not_isFolder h.folder
    rw [makeFolder_isFolder hm (not_isPrefixOf_dropLast hne)]
    exact h.folder
  way := by
    rw [isBlocked, makeFolder_texts hm]
    exact h.way

theorem any_keys_put {p : Route → Bool} (hp : p r = false) (texts : List (Route × String)) :
    (Ordered.keys (Ordered.put r text texts)).any p = (Ordered.keys texts).any p := by
  rw [Ordered.keys_put]
  split
  · rfl
  · simp [hp]

/-- A place for a file stays one when the file is written. -/
theorem IsFree.write (h : f.IsFree file) (hw : f.write file text = .ok f') : f'.IsFree file := by
  obtain rfl := write_cases hw
  have hself := not_isBelow_self file
  constructor
  · rw [← h.folder, isFolder, any_keys_put (p := fun r => isBelow r file) hself]
    rfl
  · rw [← h.way, isBlocked, any_keys_put (p := fun r => isBelow file r) hself]
    rfl

/-- The folder of a free place can be made. -/
theorem IsFree.exists_makeFolder (h : f.IsFree file) :
    ∃ f', f.makeFolder file.dropLast = .ok f' := by
  have hne := ne_nil_of_not_isFolder h.folder
  have hlength : file.dropLast.length < file.length := by
    have hpos := List.length_pos_iff.2 hne
    rw [List.length_dropLast]
    omega
  have hway : ∀ r ∈ Ordered.keys f.texts, isBelow file r = false := by
    have hblocked := h.way
    rw [isBlocked, List.any_eq_false] at hblocked
    exact fun r hr => Bool.eq_false_iff.2 (hblocked r hr)
  have hfile : f.isFile file.dropLast = false := by
    rw [isFile, Ordered.get?_eq_none]
    · rfl
    · intro hmem
      have hbelow := isBelow_iff.2 ⟨List.dropLast_prefix file, hlength⟩
      exact absurd hbelow (by simp [hway _ hmem])
  have hblocked : f.isBlocked file.dropLast = false := by
    rw [isBlocked, List.any_eq_false]
    intro r hr hbelow
    obtain ⟨hstart, hlt⟩ := isBelow_iff.1 hbelow
    have hlong := isBelow_iff.2
      ⟨hstart.trans (List.dropLast_prefix file), Nat.lt_trans hlt hlength⟩
    exact absurd hlong (by simp [hway r hr])
  unfold Files.makeFolder
  split
  · exact ⟨f, rfl⟩
  · simp [hfile, hblocked]

/-- A text can be written to a free place whose folder is there. -/
theorem IsFree.exists_write (h : f.IsFree file) (hf : f.isFolder file.dropLast = true)
    (text : String) : ∃ f', f.write file text = .ok f' := by
  simp [Files.write, h.folder, h.way, hf]

end Files

/-! ### What a file says -/

inductive Files.Keeps (f : Files) (file : Route) : ContextStore → Prop where
  | missing (h : f.holds file = false) : f.Keeps file .empty
  | written {s : ContextStore} (hs : s.isWritable = true)
      (h : Ordered.get? file f.texts = some s.text) : f.Keeps file s

/-- The store that a file keeps is the one that is loaded. -/
theorem runIn_loadContexts {w : World} {file : Route} {s : ContextStore}
    (h : w.files.Keeps file s) : (loadContexts file).runIn w = (.ok s, w) := by
  cases h with
  | missing h => simp [loadContexts, h]
  | written hs h =>
    have hholds : w.files.holds file = true := by simp [Files.holds, Files.isFile, h]
    have hread : w.files.read file = .ok s.text := by simp [Files.read, h]
    simp [loadContexts, hholds, hread, ContextStore.ofText?_text hs]

/-- Making a folder does not change what a file keeps. -/
theorem Files.Keeps.makeFolder {f f' : Files} {file : Route} {s : ContextStore}
    (h : f.Keeps file s) (hm : f.makeFolder file.dropLast = .ok f') : f'.Keeps file s := by
  have htexts := Files.makeFolder_texts hm
  cases h with
  | missing h =>
    have hne := Files.ne_nil_of_not_isFolder (Bool.or_eq_false_iff.1 h).2
    have hfolder := Files.makeFolder_isFolder hm (Files.not_isPrefixOf_dropLast hne)
    have hfile : f'.isFile file = f.isFile file := by rw [Files.isFile, htexts, Files.isFile]
    exact .missing (by rw [Files.holds, hfile, hfolder, ← Files.holds, h])
  | written hs h => exact .written hs (by rw [htexts, h])

/-! ### Saving -/

section Saving

variable {w w' : World} {file : Route} {old s : ContextStore} {r : Except CommandError Unit}

/-- A store is saved, or the texts stay as they are. -/
theorem runIn_saveContexts_cases (h : w.files.Keeps file old)
    (hr : (saveContexts file s).runIn w = (r, w')) :
    (r = .ok () ∧ w'.files.Keeps file s) ∨
      (∃ e, r = .error e) ∧ w'.files.Keeps file old ∧ w'.files.texts = w.files.texts := by
  cases hm : w.files.makeFolder file.dropLast with
  | error e =>
    obtain ⟨rfl, rfl⟩ : .error (.file e) = r ∧ w = w' := by simpa [saveContexts, hm] using hr
    exact .inr ⟨⟨_, rfl⟩, h, rfl⟩
  | ok f =>
    have hkept := h.makeFolder hm
    have htexts := Files.makeFolder_texts hm
    by_cases hs : s.isWritable = true
    · cases hw : f.write file s.text with
      | error e =>
        obtain ⟨rfl, rfl⟩ : .error (.file e) = r ∧ { w with files := f } = w' := by
          simpa [saveContexts, hm, hs, hw] using hr
        exact .inr ⟨⟨_, rfl⟩, hkept, htexts⟩
      | ok f' =>
        obtain rfl := Files.write_cases hw
        obtain ⟨rfl, rfl⟩ : .ok () = r ∧ _ = w' := by simpa [saveContexts, hm, hs, hw] using hr
        exact .inl ⟨rfl, .written hs (by simp [Ordered.get?_put])⟩
    · obtain ⟨rfl, rfl⟩ : .error .unwritableTimeout = r ∧ { w with files := f } = w' := by
        simpa [saveContexts, hm, hs] using hr
      exact .inr ⟨⟨_, rfl⟩, hkept, htexts⟩

/-- At a free place exactly those stores are saved that a document can hold. -/
theorem runIn_saveContexts_of_isFree (h : w.files.IsFree file)
    (hr : (saveContexts file s).runIn w = (r, w')) :
    w'.files.IsFree file ∧ r = if s.isWritable then .ok () else .error .unwritableTimeout := by
  obtain ⟨f, hm⟩ := h.exists_makeFolder
  have hfree := h.makeFolder hm
  by_cases hs : s.isWritable = true
  · obtain ⟨f', hw⟩ := hfree.exists_write (Files.makeFolder_makes hm) s.text
    obtain ⟨rfl, rfl⟩ : .ok () = r ∧ { w with files := f' } = w' := by
      simpa [saveContexts, hm, hs, hw] using hr
    exact ⟨hfree.write hw, by rw [if_pos hs]⟩
  · obtain ⟨rfl, rfl⟩ : .error .unwritableTimeout = r ∧ { w with files := f } = w' := by
      simpa [saveContexts, hm, hs] using hr
    exact ⟨hfree, by rw [if_neg hs]⟩

end Saving

/-! ### Commands -/

/-- What a store becomes by a command that succeeds. -/
inductive ContextStore.Becomes (s : ContextStore) : ContextCommand → ContextStore → Prop where
  | list : s.Becomes .list s
  | set (name : String) (x : ContextChange) : s.Becomes (.set name x) (s.set name x)
  | use {name : String} (h : s.has name = true) :
      s.Becomes (.use name) { s with current := name }
  | delete {name : String} (h : s.has name = true) :
      s.Becomes (.delete name)
        ⟨if s.current = name then "" else s.current, s.contexts.filter (·.name != name)⟩

theorem ContextStore.apply_use (s : ContextStore) (name : String) :
    s.apply (.use name) =
      if s.has name then .ok (some { s with current := name },
        line ("Switched to context " ++ quoted name ++ "."))
      else .error (.unknownContext name) := by
  by_cases h : s.has name = true <;> simp [ContextStore.apply, use?, h]

theorem ContextStore.apply_delete (s : ContextStore) (name : String) :
    s.apply (.delete name) =
      if s.has name then
        .ok (some ⟨if s.current = name then "" else s.current,
          s.contexts.filter (·.name != name)⟩, line ("Context " ++ quoted name ++ " deleted."))
      else .error (.nothingToDelete name) := by
  by_cases h : s.has name = true <;> simp [ContextStore.apply, delete?, h]

/-- What a command makes of a store is what the store becomes. -/
theorem ContextStore.becomes_of_apply {s : ContextStore} {c : ContextCommand}
    {changed : Option ContextStore} {output : String} (h : s.apply c = .ok (changed, output)) :
    s.Becomes c (changed.getD s) := by
  cases c with
  | list =>
    obtain ⟨rfl, -⟩ : none = changed ∧ _ := by simpa [ContextStore.apply] using h
    exact .list
  | set name x =>
    obtain ⟨rfl, -⟩ : some (s.set name x) = changed ∧ _ := by
      simpa [ContextStore.apply] using h
    exact .set name x
  | use name =>
    rw [apply_use] at h
    split at h
    · rename_i hname
      obtain ⟨rfl, -⟩ := Prod.mk.inj (Except.ok.inj h)
      exact .use hname
    · exact absurd h (by simp)
  | delete name =>
    rw [apply_delete] at h
    split at h
    · rename_i hname
      obtain ⟨rfl, -⟩ := Prod.mk.inj (Except.ok.inj h)
      exact .delete hname
    · exact absurd h (by simp)

/-- A command succeeds and the file says what the store has become, or it fails and the file says
what it said before. -/
theorem runIn_runContext_cases {w w' : World} {file : Route} {s : ContextStore}
    {c : ContextCommand} {r : Except CommandError String} (h : w.files.Keeps file s)
    (hr : (runContext file c).runIn w = (r, w')) :
    (∃ output s', r = .ok output ∧ s.Becomes c s' ∧ w'.files.Keeps file s') ∨
      (∃ e, r = .error e) ∧ w'.files.Keeps file s ∧ w'.files.texts = w.files.texts := by
  have hload := runIn_loadContexts h
  simp only [runContext, Job.runIn_bind, hload, Job.runIn_ofExcept] at hr
  cases hc : s.apply c with
  | error e =>
    obtain ⟨rfl, rfl⟩ : .error e = r ∧ w = w' := by simpa [hc] using hr
    exact .inr ⟨⟨e, rfl⟩, h, rfl⟩
  | ok p =>
    obtain ⟨changed, output⟩ := p
    have hbecomes := ContextStore.becomes_of_apply hc
    cases changed with
    | none =>
      obtain ⟨rfl, rfl⟩ : .ok output = r ∧ w = w' := by simpa [hc] using hr
      exact .inl ⟨output, s, rfl, hbecomes, h⟩
    | some s' =>
      rcases hsave : (saveContexts file s').runIn w with ⟨r', w''⟩
      obtain ⟨rfl, hkeeps⟩ | ⟨⟨e, rfl⟩, hkept, htexts⟩ := runIn_saveContexts_cases h hsave
      · obtain ⟨rfl, rfl⟩ : .ok output = r ∧ w'' = w' := by
          simpa only [hc, id, Job.runIn_bind, hsave, Job.runIn_pure, Prod.mk.injEq] using hr
        exact .inl ⟨output, s', rfl, hbecomes, hkeeps⟩
      · obtain ⟨rfl, rfl⟩ : .error e = r ∧ w'' = w' := by
          simpa only [hc, id, Job.runIn_bind, hsave, Prod.mk.injEq] using hr
        exact .inr ⟨⟨e, rfl⟩, hkept, htexts⟩

/-- The commands that succeeded so far, and the world after all that were given. -/
structure Progress where
  done : List ContextCommand
  world : World

def Progress.next (file : Route) (p : Progress) (c : ContextCommand) : Progress :=
  match (runContext file c).runIn p.world with
  | (.ok _, w) => ⟨p.done ++ [c], w⟩
  | (.error _, w) => ⟨p.done, w⟩

/-- Runs commands one after the other, whether they succeed or not. -/
def runContexts (file : Route) (cs : List ContextCommand) (w : World) : Progress :=
  cs.foldl (Progress.next file) ⟨[], w⟩

/-- What holds of the empty store and survives every command holds of the store in the file. -/
theorem exists_keeps_runContexts {P : List ContextCommand → ContextStore → Prop}
    (hinit : P [] .empty)
    (hstep : ∀ {done s s' c}, P done s → s.Becomes c s' → P (done ++ [c]) s')
    {w : World} {file : Route} (hw : w.files.holds file = false) (cs : List ContextCommand) :
    ∃ s, (runContexts file cs w).world.files.Keeps file s ∧ P (runContexts file cs w).done s := by
  have hstart : ∃ s, w.files.Keeps file s ∧ P [] s := ⟨.empty, .missing hw, hinit⟩
  refine List.foldlRecOn (motive := fun p => ∃ s, p.world.files.Keeps file s ∧ P p.done s)
    (b := ⟨[], w⟩) cs (Progress.next file) hstart ?_
  rintro ⟨done, w⟩ ⟨s, hkeeps, hs⟩ c -
  rcases hr : (runContext file c).runIn w with ⟨r, w'⟩
  obtain ⟨output, s', rfl, hbecomes, hkeeps'⟩ | ⟨⟨e, rfl⟩, hkeeps', -⟩ :=
    runIn_runContext_cases hkeeps hr
  · simp only [Progress.next, hr]
    exact ⟨s', hkeeps', hstep hs hbecomes⟩
  · simp only [Progress.next, hr]
    exact ⟨s, hkeeps', hs⟩

end ResourceApi.Command
