import ResourceApi.Proofs.Command.Connection

/-!
Record commands. Either there is a reason to refuse a command that can be seen without the server,
and then the command ends with such a reason and nothing is sent; or the command asks for one
operation, and does, sends and returns what this operation does over the current connection. Files
stay as they are in both cases.
-/

namespace ResourceApi.Command

/-! ### Flags -/

namespace QueryFlags

variable {flags : QueryFlags}

/-- Flags give criteria, unless those that are given cannot be read. -/
theorem toCriteria_cases (flags : QueryFlags) :
    (∃ criteria, flags.toCriteria = .ok criteria) ∨
      ∃ s, flags.criteria = some s ∧ Criteria.ofText? s = none := by
  cases hs : flags.criteria with
  | none => exact .inl ⟨none, by simp [toCriteria, hs]⟩
  | some s =>
    cases hc : Criteria.ofText? s with
    | none => exact .inr ⟨s, rfl, hc⟩
    | some criteria => exact .inl ⟨some criteria, by simp [toCriteria, hs, hc]⟩

theorem toCriteria_of_unreadable {s : String} (hs : flags.criteria = some s)
    (hc : Criteria.ofText? s = none) : flags.toCriteria = .error .badCriteria := by
  simp [toCriteria, hs, hc]

/-- Flags give options, unless the sort order cannot be read. -/
theorem toOptions_cases (flags : QueryFlags) :
    (∃ options, flags.toOptions = .ok options) ∨
      ∃ s e, flags.sort = some s ∧ SortOrder.ofText s = .error e := by
  cases hs : flags.sort with
  | none => exact .inl ⟨_, by simp only [toOptions, hs]; rfl⟩
  | some s =>
    cases ho : SortOrder.ofText s with
    | error e => exact .inr ⟨s, e, rfl, ho⟩
    | ok o => exact .inl ⟨_, by simp only [toOptions, hs, ho]; rfl⟩

theorem toOptions_of_unreadable {s : String} {e : SortError} (hs : flags.sort = some s)
    (he : SortOrder.ofText s = .error e) : flags.toOptions = .error (.badSort e) := by
  simp only [toOptions, hs, he]
  rfl

end QueryFlags

/-! ### What commands ask for -/

/-- The text of a new record. A file goes before a text, and must be readable then. -/
inductive Files.GivesBody (f : Files) : Option String → Option String → String → Prop where
  | text (body : String) : f.GivesBody (some body) none body
  | file {body : Option String} {path text : String} (h : f.read (Route.ofText path) = .ok text) :
      f.GivesBody body (some path) text

theorem Files.GivesBody.unique {f : Files} {body path : Option String} {text text' : String}
    (h : f.GivesBody body path text) (h' : f.GivesBody body path text') : text = text' := by
  cases h with
  | text => cases h'; rfl
  | file h =>
    cases h' with
    | file h' => exact Except.ok.inj (h.symm.trans h')

namespace RecordCommand

def path : RecordCommand → String
  | .get path _ _ _ | .create path _ _ | .update path _ _ | .patch path _ _ | .delete path _ _ =>
    path

/-- What is printed for the value of an operation. -/
def report : RecordCommand → Json → String
  | .delete path id _ => fun _ => line ("Deleted " ++ collectionPath path ++ "/" ++ id ++ ".")
  | _ => printed

/-- What a command prints for the value of its operation: a JSON text of the value, or that a record
was deleted. -/
inductive Prints : RecordCommand → Json → String → Prop where
  | deleted {path id : String} {confirmed : Bool} {v : Json} :
      Prints (.delete path id confirmed) v
        (line ("Deleted " ++ collectionPath path ++ "/" ++ id ++ "."))
  | value {cmd : RecordCommand} {v : Json} {s : String}
      (hcmd : ∀ path id confirmed, cmd ≠ .delete path id confirmed)
      (hs : Json.IsPrintOf v s.toList) : Prints cmd v s

/-- What is reported for a value that can be printed is a text for it. -/
theorem prints_report (cmd : RecordCommand) {v : Json}
    (h : Json.Fits Decimal.Binary64.IsKept 127 v) : cmd.Prints v (cmd.report v) := by
  have hprinted : Json.IsPrintOf v (printed v).toList := by
    simpa [printed, line, Json.indented] using (Json.isPrintOf_printed h).2
  cases cmd with
  | delete => exact .deleted
  | get | create | update | patch => exact .value nofun hprinted

/-- The operation that a command asks for. An id goes before a request for all pages. -/
inductive Asks (f : Files) (input : String) : RecordCommand → Operation → Prop where
  | record {path id : String} {all : Bool} {flags : QueryFlags} {options : RequestOptions}
      (hc : flags.criteria = none) (ho : flags.toOptions = .ok options) :
      Asks f input (.get path (some id) all flags) (.call (.get id (some options)))
  | page {path : String} {flags : QueryFlags} {criteria : Option Criteria}
      {options : RequestOptions} (hc : flags.toCriteria = .ok criteria)
      (ho : flags.toOptions = .ok options) :
      Asks f input (.get path none false flags) (.call (.list criteria (some options)))
  | pages {path : String} {flags : QueryFlags} {criteria : Option Criteria}
      {options : RequestOptions} (hc : flags.toCriteria = .ok criteria)
      (ho : flags.toOptions = .ok options) :
      Asks f input (.get path none true flags) (.listAll criteria (some options))
  | create {path text : String} {body file : Option String} {v : Json}
      (hbody : f.GivesBody body file text) (hv : Json.IsTextOf v text.toList) :
      Asks f input (.create path body file) (.call (.create v))
  | update {path id body : String} {v : Json} (hv : Json.IsTextOf v body.toList) :
      Asks f input (.update path id body) (.call (.update id v))
  | patch {path id body : String} {v : Json} (hv : Json.IsTextOf v body.toList) :
      Asks f input (.patch path id body) (.call (.patch id v))
  | delete {path id : String} {confirmed : Bool}
      (h : confirmed = true ∨ isConfirmed input = true) :
      Asks f input (.delete path id confirmed) (.call (.delete id))

/-- The reasons to refuse a command that can be seen without the server, each with what the command
ends with. -/
inductive IsRefused (f : Files) (file : Route) (input : String) :
    RecordCommand → Except CommandError String → Prop where
  | connection {cmd : RecordCommand} {e : CommandError} (h : f.LacksConnection file e) :
      IsRefused f file input cmd (.error e)
  | criteriaWithId {path id : String} {all : Bool} {flags : QueryFlags}
      (h : flags.criteria ≠ none) :
      IsRefused f file input (.get path (some id) all flags) (.error .criteriaWithId)
  | criteria {path s : String} {all : Bool} {flags : QueryFlags} (hs : flags.criteria = some s)
      (hc : Criteria.ofText? s = none) :
      IsRefused f file input (.get path none all flags) (.error .badCriteria)
  | sort {path s : String} {id : Option String} {all : Bool} {flags : QueryFlags} {e : SortError}
      (hs : flags.sort = some s) (he : SortOrder.ofText s = .error e) :
      IsRefused f file input (.get path id all flags) (.error (.badSort e))
  | noBody {path : String} : IsRefused f file input (.create path none none) (.error .noBody)
  | unreadableBody {path body : String} {given : Option String} {e : FileError}
      (h : f.read (Route.ofText body) = .error e) :
      IsRefused f file input (.create path given (some body)) (.error (.file e))
  | create {path text : String} {body bodyFile : Option String}
      (hbody : f.GivesBody body bodyFile text) (hv : ¬∃ v, Json.IsTextOf v text.toList) :
      IsRefused f file input (.create path body bodyFile) (.error .badBody)
  | update {path id body : String} (hv : ¬∃ v, Json.IsTextOf v body.toList) :
      IsRefused f file input (.update path id body) (.error .badBody)
  | patch {path id body : String} (hv : ¬∃ v, Json.IsTextOf v body.toList) :
      IsRefused f file input (.patch path id body) (.error .badBody)
  | unconfirmed {path id : String} (h : isConfirmed input = false) :
      IsRefused f file input (.delete path id false) (.ok (line "Cancelled."))

section Refusals

variable {f : Files} {file : Route} {input : String} {cmd : RecordCommand}

/-- A command that is refused does not ask for anything over a connection. -/
theorem IsRefused.not_asks {r : Except CommandError String} (h : IsRefused f file input cmd r)
    {c : Connection} (hconnects : f.Connects file c) {o : Operation} (ho : Asks f input cmd o) :
    False := by
  cases h with
  | connection h => exact h.not_connects hconnects
  | criteriaWithId h =>
    cases ho with
    | record hc _ => exact h hc
  | criteria hs hc =>
    have herror := QueryFlags.toCriteria_of_unreadable hs hc
    cases ho with
    | page hc' _ => simp [herror] at hc'
    | pages hc' _ => simp [herror] at hc'
  | sort hs he =>
    have herror := QueryFlags.toOptions_of_unreadable hs he
    cases ho with
    | record _ ho => simp [herror] at ho
    | page _ ho => simp [herror] at ho
    | pages _ ho => simp [herror] at ho
  | noBody =>
    cases ho with
    | create hbody _ => cases hbody
  | unreadableBody h =>
    cases ho with
    | create hbody _ =>
      cases hbody with
      | file h' => simp [h] at h'
  | create hbody hv =>
    cases ho with
    | create hbody' hv' =>
      obtain rfl := hbody.unique hbody'
      exact hv ⟨_, hv'⟩
  | update hv =>
    cases ho with
    | update hv' => exact hv ⟨_, hv'⟩
  | patch hv =>
    cases ho with
    | patch hv' => exact hv ⟨_, hv'⟩
  | unconfirmed h =>
    cases ho with
    | delete h' => simp [h] at h'

end Refusals

end RecordCommand

/-! ### What commands do -/

section Running

variable {file : Route} {input : String} {w : World} {cmd : RecordCommand}

open RecordCommand

/-- Reading the flags gives the operation that the command asks for. -/
theorem getOperation_of_asks {f : Files} {path : String} {id : Option String} {all : Bool}
    {flags : QueryFlags} {o : Operation} (ho : Asks f input (.get path id all flags) o) :
    getOperation id all flags = .ok o := by
  cases ho with
  | record hc ho => simp [getOperation, hc, ho, bind, Except.bind]
  | page hc ho => simp [getOperation, hc, ho, bind, Except.bind]
  | pages hc ho => simp [getOperation, hc, ho, bind, Except.bind]

/-- A command asks for one operation. -/
theorem RecordCommand.Asks.unique {f : Files} {o o' : Operation} (h : Asks f input cmd o)
    (h' : Asks f input cmd o') : o = o' := by
  cases cmd with
  | get path id all flags =>
    exact Except.ok.inj ((getOperation_of_asks h).symm.trans (getOperation_of_asks h'))
  | create path body file =>
    cases h with
    | create hbody hv =>
      cases h' with
      | create hbody' hv' =>
        obtain rfl := hbody.unique hbody'
        rw [hv.unique hv']
  | update path id body =>
    cases h with
    | update hv =>
      cases h' with
      | update hv' => rw [hv.unique hv']
  | patch path id body =>
    cases h with
    | patch hv =>
      cases h' with
      | patch hv' => rw [hv.unique hv']
  | delete path id confirmed =>
    cases h
    cases h'
    rfl

theorem runIn_bodyText {body path : Option String} {text : String}
    (h : w.files.GivesBody body path text) : (bodyText body path).runIn w = (.ok text, w) := by
  cases h with
  | text => simp [bodyText]
  | file h => simp [bodyText, h]

/-- A command that asks for an operation connects and performs it. -/
theorem runIn_runRecord_of_asks (file : Route) {o : Operation} (ho : cmd.Asks w.files input o) :
    (runRecord file input cmd).runIn w =
      (connect file >>= fun c => cmd.report <$> perform c cmd.path o).runIn w := by
  cases cmd with
  | get path id all flags =>
    have hget := getOperation_of_asks ho
    simp [runRecord, hget, RecordCommand.path, report]
  | create path body bodyFile =>
    cases ho with
    | create hbody hv =>
      have htext := runIn_bodyText hbody
      have hv := Json.ofText?_eq_some_iff.2 hv
      simp [runRecord, htext, bodyOfText, hv, RecordCommand.path, report]
  | update path id body =>
    cases ho with
    | update hv =>
      have hv := Json.ofText?_eq_some_iff.2 hv
      simp [runRecord, bodyOfText, hv, RecordCommand.path, report]
  | patch path id body =>
    cases ho with
    | patch hv =>
      have hv := Json.ofText?_eq_some_iff.2 hv
      simp [runRecord, bodyOfText, hv, RecordCommand.path, report]
  | delete path id confirmed =>
    cases ho with
    | delete h =>
      have hyes : (confirmed || isConfirmed input) = true := by simpa using h
      simp [runRecord, hyes, RecordCommand.path, report]

/-- Flags give an operation to ask for, or there is a reason to refuse them. -/
theorem getOperation_cases (f : Files) (file : Route) (input path : String) (id : Option String)
    (all : Bool) (flags : QueryFlags) :
    (∃ o, Asks f input (.get path id all flags) o) ∨
      ∃ e, IsRefused f file input (.get path id all flags) (.error e) ∧
        getOperation id all flags = .error e := by
  obtain ⟨options, ho⟩ | ⟨s, e, hs, he⟩ := flags.toOptions_cases
  · cases id with
    | some id =>
      by_cases hc : flags.criteria = none
      · exact .inl ⟨_, .record hc ho⟩
      · have hsome := Option.isSome_iff_ne_none.2 hc
        exact .inr ⟨_, .criteriaWithId hc, by simp [getOperation, ho, hsome, bind, Except.bind]⟩
    | none =>
      obtain ⟨criteria, hc⟩ | ⟨s, hs, hc⟩ := flags.toCriteria_cases
      · cases all with
        | false => exact .inl ⟨_, .page hc ho⟩
        | true => exact .inl ⟨_, .pages hc ho⟩
      · have hbad := QueryFlags.toCriteria_of_unreadable hs hc
        exact .inr ⟨_, .criteria hs hc, by simp [getOperation, ho, hbad, bind, Except.bind]⟩
  · have hbad := QueryFlags.toOptions_of_unreadable hs he
    exact .inr ⟨_, .sort hs he, by simp [getOperation, hbad, bind, Except.bind]⟩

/-- There is a text for a new record, or a reason to refuse the command. -/
theorem runIn_bodyText_cases (file : Route) (input path : String) (body bodyFile : Option String)
    (w : World) :
    (∃ text, w.files.GivesBody body bodyFile text) ∨
      ∃ e, IsRefused w.files file input (.create path body bodyFile) (.error e) ∧
        (bodyText body bodyFile).runIn w = (.error e, w) := by
  cases bodyFile with
  | some bodyFile =>
    cases hread : w.files.read (Route.ofText bodyFile) with
    | ok text => exact .inl ⟨text, .file hread⟩
    | error e => exact .inr ⟨_, .unreadableBody hread, by simp [bodyText, hread]⟩
  | none =>
    cases body with
    | some body => exact .inl ⟨body, .text body⟩
    | none => exact .inr ⟨_, .noBody, by simp [bodyText]⟩

/-- A command asks for an operation, or ends with a reason to refuse it and leaves the world as it
was. -/
theorem asks_or_runIn_runRecord (file : Route) (input : String) (cmd : RecordCommand) (w : World) :
    (∃ o, cmd.Asks w.files input o) ∨
      ∃ r, cmd.IsRefused w.files file input r ∧ (runRecord file input cmd).runIn w = (r, w) := by
  cases cmd with
  | get path id all flags =>
    obtain hasks | ⟨e, hrefused, hget⟩ := getOperation_cases w.files file input path id all flags
    · exact .inl hasks
    · obtain ⟨c, -, hconnect⟩ | ⟨e', hlacks, hconnect⟩ := runIn_connect_cases file w
      · exact .inr ⟨_, hrefused, by simp [runRecord, hconnect, hget]⟩
      · exact .inr ⟨_, .connection hlacks, by simp [runRecord, hconnect]⟩
  | create path body bodyFile =>
    obtain ⟨text, hbody⟩ | ⟨e, hrefused, htext⟩ :=
      runIn_bodyText_cases file input path body bodyFile w
    · have htext := runIn_bodyText hbody
      cases hv : Json.ofText? text with
      | some v => exact .inl ⟨_, .create hbody (Json.ofText?_eq_some_iff.1 hv)⟩
      | none =>
        exact .inr ⟨_, .create hbody (Json.ofText?_eq_none_iff.1 hv),
          by simp [runRecord, htext, bodyOfText, hv]⟩
    · exact .inr ⟨_, hrefused, by simp [runRecord, htext]⟩
  | update path id body =>
    cases hv : Json.ofText? body with
    | some v => exact .inl ⟨_, .update (Json.ofText?_eq_some_iff.1 hv)⟩
    | none =>
      exact .inr ⟨_, .update (Json.ofText?_eq_none_iff.1 hv), by simp [runRecord, bodyOfText, hv]⟩
  | patch path id body =>
    cases hv : Json.ofText? body with
    | some v => exact .inl ⟨_, .patch (Json.ofText?_eq_some_iff.1 hv)⟩
    | none =>
      exact .inr ⟨_, .patch (Json.ofText?_eq_none_iff.1 hv), by simp [runRecord, bodyOfText, hv]⟩
  | delete path id confirmed =>
    cases hyes : confirmed || isConfirmed input with
    | true => exact .inl ⟨_, .delete (by simpa using hyes)⟩
    | false =>
      obtain ⟨rfl, hno⟩ : confirmed = false ∧ isConfirmed input = false := by simpa using hyes
      exact .inr ⟨_, .unconfirmed hno, by simp [runRecord, hno]⟩

end Running

/-- A record command ends with a reason to refuse it, if there is one, and then nothing is sent.
Else it does what the one operation that it asks for does over the connection of the current
context, on the collection at its path: it sends the same, fails as the operation fails, and prints
a JSON text of its value or, for a deletion, what was deleted. -/
theorem run_record_performs_unless_refused (s : Surroundings) (contextFile : Option String)
    (cmd : RecordCommand) (w : World) :
    let file := Route.ofText (contextFile.getD (defaultContextFile s))
    let ending := (run s ⟨contextFile, .record cmd⟩).runIn w
    (∃ r, cmd.IsRefused w.files file s.input r ∧ ending = (r, w)) ∨
      (¬ ∃ r, cmd.IsRefused w.files file s.input r) ∧
        ∃ c o result n, w.files.Connects file c ∧ (∀ o', cmd.Asks w.files s.input o' ↔ o' = o) ∧
          c.Yields cmd.path o w.network result n ∧
          ending = ((result.mapError .api).map cmd.report, { w with network := n }) ∧
          ∀ v, result = .ok v → cmd.Prints v (cmd.report v) := by
  intro file ending
  obtain ⟨o, ho⟩ | hrefused := asks_or_runIn_runRecord file s.input cmd w
  · have hrun : ending = _ := runIn_runRecord_of_asks file ho
    obtain ⟨c, hc, hconnect⟩ | ⟨e, hlacks, hconnect⟩ := runIn_connect_cases file w
    · obtain ⟨result, n, hyields, hperform⟩ := c.exists_runIn_perform cmd.path o w
      have hone : ∀ o', cmd.Asks w.files s.input o' ↔ o' = o :=
        fun o' => ⟨fun ho' => ho'.unique ho, fun heq => heq ▸ ho⟩
      refine .inr ⟨fun ⟨r, hr⟩ => hr.not_asks hc ho, c, o, result, n, hc, hone, hyields, ?_, ?_⟩
      · rw [hrun]
        simp [hconnect, hperform]
      · rintro v rfl
        exact cmd.prints_report hyields.fits
    · refine .inl ⟨.error e, .connection hlacks, ?_⟩
      rw [hrun]
      simp [hconnect]
  · exact .inl hrefused

def noFlags : QueryFlags := ⟨none, [], none, none, none, none, false, none⟩

def oneAnswer : Http.Network :=
  .serving [.response 200 (Text.Utf8.encode "\x7b\"id\":7\x7d".toList)]

/-- The object that is received is the value of the call, which was sent with the token. -/
theorem dispatch_oneAnswer :
    let ran := Http.Endpoint.dispatch ⟨"http://h/api"⟩ (.start (.fixed (some "t")) oneAnswer)
      ⟨.get, "/items/7", none⟩
    ran.1 = .ok (.object [("id", .int 7)]) ∧
      ran.2.network = ⟨true, [], [⟨.get, "/api/items/7", some "Bearer t", none, none⟩]⟩ := by
  have hsendable : (Http.Endpoint.message? ⟨"http://h/api"⟩ (some "t")
      ⟨.get, "/items/7", none⟩).map Prod.snd =
      some ⟨.get, "/api/items/7", some "Bearer t", none, none⟩ := by decide +kernel
  obtain ⟨⟨u, m⟩, hm, rfl⟩ := Option.map_eq_some_iff.1 hsendable
  obtain ⟨hreports, hafter⟩ := Http.Endpoint.dispatch_of_sent
    (s := .start (.fixed (some "t")) oneAnswer) rfl hm rfl
  refine ⟨hreports.unique (.value (by decide) ⟨'7'.toUInt8, by decide +kernel, by decide⟩
    Http.Endpoint.isJsonBody_object), ?_⟩
  rw [hafter]
  rfl

/-- The record that is received is what is printed, and one request was sent for it. -/
theorem get_prints_record :
    let ending := (run ⟨"", ""⟩ ⟨some "c", .record (.get "items//" (some "7") false noFlags)⟩).runIn
      ⟨oneContext, oneAnswer⟩
    ∃ output, Json.IsPrintOf (.object [("id", .int 7)]) output.toList ∧
      ending = (.ok output,
        ⟨oneContext, true, [], [⟨.get, "/api/items/7", some "Bearer t", none, none⟩]⟩) := by
  intro ending
  have hasks : RecordCommand.Asks oneContext "" (.get "items//" (some "7") false noFlags)
      (.call (.get "7" (some RequestOptions.default))) := .record rfl rfl
  obtain ⟨r, hrefused, -⟩ | ⟨-, c, o, result, n, hc, hone, hyields, hending, hprints⟩ :=
    run_record_performs_unless_refused ⟨"", ""⟩ (some "c")
      (.get "items//" (some "7") false noFlags) ⟨oneContext, oneAnswer⟩
  · exact (hrefused.not_asks connects_oneContext hasks).elim
  obtain rfl := hc.unique connects_oneContext
  obtain rfl := (hone _).1 hasks
  obtain ⟨hresult, hnetwork⟩ := hyields.of_call
  have hpath : Path.build (collectionPath "items//") ["7"] RequestOptions.default.query =
      "/items/7" := by decide +kernel
  have hrequest : Call.request (collectionPath "items//")
      (.get "7" (some RequestOptions.default)) = ⟨.get, "/items/7", none⟩ :=
    congrArg (Request.mk .get · none) hpath
  rw [RecordCommand.path, hrequest, dispatch_oneAnswer.1] at hresult
  rw [RecordCommand.path, hrequest, dispatch_oneAnswer.2] at hnetwork
  obtain rfl : result = .ok (.object [("id", .int 7)]) := hresult
  refine ⟨_, ?_, hending.trans (by rw [hnetwork]; rfl)⟩
  cases hprints _ rfl with
  | value _ hs => exact hs

end ResourceApi.Command
