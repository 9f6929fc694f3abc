import ResourceApi.Command.Context
import ResourceApi.Proofs.Toml.Document
import ResourceApi.Proofs.Toml.Tables

/-!
The document of a store of contexts is read as the store that was written. What is left out of the
document because it is empty is read as empty again.
-/

namespace ResourceApi.Command

open Toml

/-! ### Text -/

/-- An entry with a bare key is one line of the document. -/
theorem written_entry {key value : String} {v : Toml} {s : List Char} {ls : List TomlLine}
    (hk : IsBare key.toList) (hv : Writes value.toList v) (h : Written s ls) :
    Written ((Context.entry key value).toList ++ s) (.entry [] key v :: ls) := by
  have hline := h.entry hk hv
  simpa [Context.entry] using hline

/-- The header of a context is one line of the document. -/
theorem written_header {s : List Char} {ls : List TomlLine} (h : Written s ls) :
    Written ("[[contexts]]\n".toList ++ s) (.tables [] "contexts" :: ls) :=
  h.tables (k := "contexts".toList) (by decide)

def textMember (key value : String) : List (String × Toml) :=
  if value.isEmpty then [] else [(key, .string value)]

theorem written_textEntry {key : String} (value : String) {s : List Char} {ls : List TomlLine}
    (hk : IsBare key.toList) (h : Written s ls) :
    Written ((Context.textEntry key value).toList ++ s)
      (entryLines (textMember key value) ++ ls) := by
  by_cases hempty : value.isEmpty = true
  · simpa [Context.textEntry, textMember, hempty, entryLines] using h
  · have hline := written_entry hk (writes_quote value) h
    simpa [Context.textEntry, textMember, hempty, entryLines] using hline

/-- The member of a number of seconds, if there is one. -/
def timeMember (seconds : Option Nat) : List (String × Toml) :=
  (seconds.map fun n => ("timeout_secs", .integer n)).toList

/-- The members of a context as its text has them. -/
def Context.entries (c : Context) : List (String × Toml) :=
  ("name", .string c.name) ::
    (textMember "server" c.server ++ (textMember "token" c.token ++ timeMember c.timeoutSecs))

theorem keys_textMember (key value : String) :
    (Ordered.keys (textMember key value)).Sublist [key] := by
  by_cases hempty : value.isEmpty = true <;> simp [textMember, hempty]

theorem keys_timeMember (seconds : Option Nat) :
    (Ordered.keys (timeMember seconds)).Sublist ["timeout_secs"] := by
  cases seconds <;> simp [timeMember]

/-- The members are among those that are known, in their order. -/
theorem Context.keys_entries (c : Context) : (Ordered.keys c.entries).Sublist members := by
  have htail := (keys_textMember "server" c.server).append
    ((keys_textMember "token" c.token).append (keys_timeMember c.timeoutSecs))
  simpa [entries, Ordered.keys, members] using htail.cons_cons "name"

theorem Context.nodup_keys_entries (c : Context) : (Ordered.keys c.entries).Nodup :=
  c.keys_entries.nodup (by simp [members])

def Context.Fits (c : Context) : Prop := ∀ n ∈ c.timeoutSecs, n ≤ ContextStore.maxNumber

theorem written_timeEntry {seconds : Option Nat}
    (hfits : ∀ n ∈ seconds, n ≤ ContextStore.maxNumber) {s : List Char} {ls : List TomlLine}
    (h : Written s ls) :
    Written (((seconds.map fun n => Context.entry "timeout_secs" (toString n)).getD "").toList ++ s)
      (entryLines (timeMember seconds) ++ ls) := by
  cases seconds with
  | none => simpa [timeMember, entryLines] using h
  | some n =>
    have hn : n < 0x8000000000000000 := Nat.lt_succ_of_le (hfits n rfl)
    have hkey : IsBare "timeout_secs".toList := by decide
    have hline := written_entry hkey (writes_number hn) h
    simpa [timeMember, entryLines] using hline

/-- A context that fits is written as a table of its own. -/
theorem written_context {c : Context} (hc : c.Fits) {s : List Char} {ls : List TomlLine}
    (h : Written s ls) :
    Written ('\n' :: (c.text.toList ++ s)) (tableLines "contexts" c.entries ++ ls) := by
  have hname : IsBare "name".toList := by decide
  have hserver : IsBare "server".toList := by decide
  have htoken : IsBare "token".toList := by decide
  have hmembers := written_entry hname (writes_quote c.name)
    (written_textEntry c.server hserver
      (written_textEntry c.token htoken (written_timeEntry hc h)))
  have htable := (written_header hmembers).blank
  have hlines : tableLines "contexts" c.entries ++ ls =
      .tables [] "contexts" :: .entry [] "name" (.string c.name) ::
        (entryLines (textMember "server" c.server) ++ (entryLines (textMember "token" c.token) ++
          (entryLines (timeMember c.timeoutSecs) ++ ls))) := by
    simp [tableLines, Context.entries, entryLines]
  rw [hlines]
  unfold Context.text
  simpa only [String.toList_append, List.append_assoc] using htable

/-- So are several contexts, in turn. -/
theorem written_contexts {cs : List Context} (h : ∀ c ∈ cs, c.Fits) :
    Written (String.join (cs.map fun c => "\n" ++ c.text)).toList
      ((cs.map Context.entries).flatMap (tableLines "contexts")) := by
  induction cs with
  | nil => exact .done
  | cons c cs ih =>
    obtain ⟨hc, hcs⟩ := List.forall_mem_cons.1 h
    have hfirst := written_context hc (ih hcs)
    simpa [String.join_cons] using hfirst

/-- The members of a store as its document has them, without those of contexts. -/
def ContextStore.headEntries (s : ContextStore) : List (String × Toml) :=
  ("current-context", .string s.current) ::
    if s.contexts.isEmpty then [("contexts", .array [])] else []

/-- A document holds a store whose contexts all fit. -/
theorem isWritable_iff {s : ContextStore} : s.isWritable = true ↔ ∀ c ∈ s.contexts, c.Fits := by
  simp [ContextStore.isWritable, Context.Fits, Option.all_eq_true]

/-- The text of a store has its own entries, then a table for each context. -/
theorem written_store {s : ContextStore} (h : s.isWritable = true) :
    Written s.text.toList (entryLines s.headEntries ++
      (s.contexts.map Context.entries).flatMap (tableLines "contexts")) := by
  have hcontexts := written_contexts (isWritable_iff.1 h)
  have hcurrent : IsBare "current-context".toList := by decide
  by_cases hempty : s.contexts = []
  · have hkey : IsBare "contexts".toList := by decide
    have hnone : Written ((Context.entry "contexts" "[]").toList ++ [])
        [.entry [] "contexts" (.array [])] := written_entry hkey writes_empty .done
    have hline := written_entry hcurrent (writes_quote s.current) hnone
    simpa [ContextStore.text, ContextStore.headEntries, hempty, entryLines] using hline
  · have hline := written_entry hcurrent (writes_quote s.current) hcontexts
    simpa [ContextStore.text, ContextStore.headEntries, hempty, entryLines] using hline

/-! ### Data -/

/-- A text as a document has it: an empty one is left out. -/
def given (value : String) : Option String := if value.isEmpty then none else some value

theorem given_getD (value : String) : (given value).getD "" = value := by
  by_cases hempty : value.isEmpty = true
  · rw [given, if_pos hempty, String.isEmpty_iff.1 hempty, Option.getD_none]
  · rw [given, if_neg hempty, Option.getD_some]

/-- An empty text was left out, and then what follows counts. -/
theorem get?_textMember_self (key value : String) (rest : List (String × Toml)) :
    Ordered.get? key (textMember key value ++ rest) =
      ((given value).map .string).or (Ordered.get? key rest) := by
  by_cases hempty : value.isEmpty = true
  · simp only [textMember, given, hempty, if_true, List.nil_append, Option.map_none,
      Option.none_or]
  · simp only [textMember, given, hempty, Bool.false_eq_true, if_false, List.cons_append,
      List.nil_append, Ordered.get?, if_true, Option.map_some, Option.some_or]

theorem get?_textMember_of_ne {key k : String} (h : key ≠ k) (value : String)
    (rest : List (String × Toml)) :
    Ordered.get? k (textMember key value ++ rest) = Ordered.get? k rest := by
  by_cases hempty : value.isEmpty = true
  · simp only [textMember, hempty, if_true, List.nil_append]
  · simp only [textMember, hempty, Bool.false_eq_true, if_false, List.cons_append,
      List.nil_append, Ordered.get?, h]

theorem get?_timeMember_of_ne {k : String} (h : "timeout_secs" ≠ k) (seconds : Option Nat) :
    Ordered.get? k (timeMember seconds) = none :=
  Ordered.get?_eq_none fun hk =>
    h (List.mem_singleton.1 ((keys_timeMember seconds).subset hk)).symm

/-- A member is read as what was written, and as nothing if nothing was. -/
theorem optionalMember?_eq {α : Type} {read : Toml → Option α} {write : α → Toml}
    (hread : ∀ a, read (write a) = some a) {k : String} {ms : List (String × Toml)} {o : Option α}
    (h : Ordered.get? k ms = o.map write) : optionalMember? read k ms = some o := by
  rw [optionalMember?, h]
  cases o with
  | none => rfl
  | some a => simp only [Option.map_some, hread]

/-- No member of a context is lost as unknown. -/
theorem Context.record?_entries (c : Context) :
    record? members (.table headed c.entries) = some c.entries := by
  have hknown : ∀ m ∈ c.entries, members.contains m.1 = true := fun m hm =>
    List.contains_iff_mem.2 (c.keys_entries.subset (List.mem_map_of_mem hm))
  rw [record?, List.filter_eq_self.2 hknown]

/-- The members of a context are read as this context. -/
theorem Context.ofToml?_entries (c : Context) :
    Context.ofToml? (.table headed c.entries) = some c := by
  have hname : Ordered.get? "name" c.entries = some (.string c.name) := by
    simp only [entries, Ordered.get?, if_true]
  have hserver : Ordered.get? "server" c.entries = (given c.server).map .string := by
    rw [entries, Ordered.get?, if_neg (by decide), get?_textMember_self,
      get?_textMember_of_ne (by decide), get?_timeMember_of_ne (by decide), Option.or_none]
  have htoken : Ordered.get? "token" c.entries = (given c.token).map .string := by
    rw [entries, Ordered.get?, if_neg (by decide), get?_textMember_of_ne (by decide),
      get?_textMember_self, get?_timeMember_of_ne (by decide), Option.or_none]
  have htime : Ordered.get? "timeout_secs" c.entries =
      c.timeoutSecs.map fun n : Nat => Toml.integer n := by
    rw [entries, Ordered.get?, if_neg (by decide), get?_textMember_of_ne (by decide),
      get?_textMember_of_ne (by decide)]
    cases c.timeoutSecs <;> simp [timeMember, Ordered.get?]
  have hstring : ∀ s : String, string? (.string s) = some s := fun _ => rfl
  have hnat : ∀ n : Nat, nat? (.integer n) = some n := fun n => by simp [nat?]
  simp only [ofToml?, c.record?_entries, member?, hname, hstring,
    optionalMember?_eq hstring hserver, optionalMember?_eq hstring htoken,
    optionalMember?_eq hnat htime, Option.bind_eq_bind, Option.bind_some, given_getD]

theorem mapM_ofToml?_entries (cs : List Context) :
    ((cs.map Context.entries).map (.table headed)).mapM Context.ofToml? = some cs := by
  induction cs with
  | nil => rfl
  | cons c cs ih =>
    rw [List.map_cons, List.map_cons, List.mapM_cons, Context.ofToml?_entries, ih]
    rfl

/-- A document with a list of contexts is read as the store of these. -/
theorem ofToml?_document {v : Toml} {contexts : List Context}
    (h : list? Context.ofToml? v = some contexts) (current : String) :
    ContextStore.ofToml? (.table headed [("current-context", .string current), ("contexts", v)]) =
      some ⟨current, contexts⟩ := by
  simp [ContextStore.ofToml?, record?, optionalMember?, Ordered.get?, string?, h]

/-- A store is read from its text as it was written. -/
theorem ContextStore.ofText?_text {s : ContextStore} (h : s.isWritable = true) :
    ContextStore.ofText? s.text = some s := by
  have hmark : s.text.toList.head? ≠ some '\uFEFF' := by
    simp [ContextStore.text, Context.entry]
  rw [ContextStore.ofText?, ofText?_written (written_store h) hmark]
  obtain ⟨current, contexts⟩ := s
  cases contexts with
  | nil =>
    have hlines := ofLines?_entries [("current-context", .string current),
      ("contexts", .array [])] (by simp [Ordered.keys])
    simp only [headEntries, List.isEmpty_nil, if_true, List.map_nil, List.flatMap_nil,
      List.append_nil, hlines, Option.bind_some]
    exact ofToml?_document rfl current
  | cons c more =>
    have hkeys : ∀ es ∈ (c :: more).map Context.entries, (Ordered.keys es).Nodup :=
      List.forall_mem_map.2 fun c _ => c.nodup_keys_entries
    have hlines := ofLines?_tables [("current-context", .string current)]
      (k := "contexts") (by simp [Ordered.keys]) (by simp [Ordered.keys]) hkeys
    simp only [headEntries, List.isEmpty_cons, Bool.false_eq_true, if_false, List.map_cons, hlines,
      Option.bind_some]
    have hcontexts : list? Context.ofToml?
        (.tables (((c :: more).map Context.entries).map (.table headed))) = some (c :: more) :=
      mapM_ofToml?_entries (c :: more)
    exact ofToml?_document hcontexts current

end ResourceApi.Command
