import ResourceApi.Proofs.Client.Path
import ResourceApi.Proofs.Command.Records

/-!
Dry runs. A query prints, without a server, where a real run with the same flags sends its request.
The two read their flags in different orders and differ in the slashes around the path; but they
fail for the same flags, and slashes do not matter where a path is joined to the base of an
endpoint.
-/

namespace ResourceApi.Command

/-! ### Paths of collections -/

/-- A collection path has one slash in front, and none at its end. -/
theorem toList_collectionPath (path : String) :
    (collectionPath path).toList = '/' :: Path.trim path.toList := String.toList_ofList

/-- Without the slashes around them, a path and that of its collection are the same. -/
theorem trim_collectionPath (path : String) :
    Path.trim (collectionPath path).toList = Path.trim path.toList := by
  have hslash : Path.isSlash '/' = true := rfl
  rw [toList_collectionPath, Path.trim, Text.trimBy, List.dropWhile_cons_of_pos hslash]
  exact Path.trim_trim path.toList

/-- A path and the path of its collection lead to one place. -/
theorem join_collectionPath (e : Http.Endpoint) (path query : String) :
    e.join (Path.build path [] query) = e.join (Path.build (collectionPath path) [] query) := by
  apply e.join_congr
  rw [Path.dropWhile_build, Path.dropWhile_build, trim_collectionPath]

/-! ### Previews -/

/-- A connection over which every request can be sent. -/
structure Connection.IsUsable (c : Connection) : Prop where
  server : c.endpoint.IsOpen
  token : ∀ t ∈ c.token, Http.Endpoint.isHeaderText t = true

/-- A server whose URL does not end in a blank and a token that can be sent are enough. -/
theorem Files.Connects.isUsable {f : Files} {file : Route} {c : Connection} (h : f.Connects file c)
    (hserver : ∀ ch ∈ c.endpoint.base.toList.getLast?, 0x20 < ch.toNat)
    (htoken : ∀ t ∈ c.token, Http.Endpoint.isHeaderText t = true) : c.IsUsable := by
  obtain ⟨-, -, -, he⟩ := h
  exact ⟨Http.Endpoint.isOpen_of_ofBaseUrl he hserver, htoken⟩

/-- A path that was printed tells which URL a job requests: it is joined to the URL of the one
request that the job makes, and this is sent. -/
structure Previews (c : Connection) (f : Files) (printed : String) (r : Request) (u : Url)
    (j : Job String) : Prop where
  joined : c.endpoint.join printed = c.endpoint.join r.path
  url : Url.ofText (c.endpoint.join printed) = .ok u
  requested : ∀ n, (j.runIn ⟨f, n⟩).2 =
    ⟨f, (c.endpoint.dispatch (.start (.fixed c.token) n) r).2.network⟩
  sent : ∀ n, (j.runIn ⟨f, n⟩).2 = ⟨f, (n.send ⟨r.method, String.ofList u.target,
    c.token.map ("Bearer " ++ ·), r.body.map fun _ => "application/json",
    r.body.map Json.text⟩).2⟩

/-- A single call makes its one request and changes nothing but the network. -/
theorem Connection.runIn_perform_call (c : Connection) (path : String) (call : Call) (w : World) :
    ((perform c path (.call call)).runIn w).2 =
      { w with network := (c.endpoint.dispatch (.start (.fixed c.token) w.network)
        (call.request (collectionPath path))).2.network } := by
  obtain ⟨result, n, hyields, hrun⟩ := c.exists_runIn_perform path (.call call) w
  rw [hrun, hyields.of_call.2]

section Runs

variable {f : Files} {file : Route} {c : Connection} {flags : QueryFlags} {query : String}

/-- Flags have a query just if both criteria and options can be read, and it is that of the two
composed. -/
theorem QueryFlags.toQuery_eq_ok_iff :
    flags.toQuery = .ok query ↔
      ∃ criteria options, flags.toCriteria = .ok criteria ∧ flags.toOptions = .ok options ∧
        (Compose.merge criteria (some options)).query = query := by
  unfold toQuery
  cases flags.toCriteria with
  | error e => simp [bind, Except.bind]
  | ok criteria =>
    cases flags.toOptions with
    | error e => simp [bind, Except.bind]
    | ok options => simp [bind, Except.bind]

/-- The request for the first page of the collection at a path. -/
def firstPageRequest (path query : String) : Request :=
  ⟨.get, Path.build (collectionPath path) [] query, none⟩

/-- A run that asks for a page requests the first page of the collection. -/
theorem runIn_runRecord_page (hc : f.Connects file c) (input path : String)
    (hquery : flags.toQuery = .ok query) (n : Http.Network) :
    ((runRecord file input (.get path none false flags)).runIn ⟨f, n⟩).2 =
      ⟨f, (c.endpoint.dispatch (.start (.fixed c.token) n)
        (firstPageRequest path query)).2.network⟩ := by
  obtain ⟨criteria, options, hcriteria, hoptions, hmerge⟩ :=
    QueryFlags.toQuery_eq_ok_iff.1 hquery
  have hrequest : Call.request (collectionPath path) (.list criteria (some options)) =
      firstPageRequest path query := by rw [Call.request, hmerge, firstPageRequest]
  have hconnect := runIn_connect (w := ⟨f, n⟩) hc
  rw [runIn_runRecord_of_asks file (.page hcriteria hoptions)]
  simp only [Job.runIn_bind, hconnect, Job.runIn_map, RecordCommand.path,
    Connection.runIn_perform_call, hrequest]

/-- The first page is requested at the path that a query prints. -/
theorem exists_previews (hc : f.Connects file c) (hu : c.IsUsable) (input path : String)
    (hquery : flags.toQuery = .ok query) :
    ∃ u, Previews c f (Path.build path [] query) (firstPageRequest path query) u
      (runRecord file input (.get path none false flags)) := by
  have hjoin : c.endpoint.join (Path.build path [] query) =
      c.endpoint.join (firstPageRequest path query).path :=
    join_collectionPath c.endpoint path query
  have hopen := hu.server (Path.build path [] query)
  cases hurl : Url.ofText (c.endpoint.join (Path.build path [] query)) with
  | error e => simp [hurl, Except.isOk, Except.toBool] at hopen
  | ok u =>
    have hm := Http.Endpoint.message?_sendable hu.token (hjoin ▸ hurl)
    have hrun := runIn_runRecord_page hc input path hquery
    refine ⟨u, hjoin, hurl, hrun, fun n => ?_⟩
    rw [hrun n, Http.Endpoint.network_dispatch rfl hm]
    rfl

end Runs

/-- A query prints its path and changes nothing. -/
theorem runIn_run_query (s : Surroundings) (contextFile : Option String) (path : String)
    (flags : QueryFlags) (w : World) :
    (run s ⟨contextFile, .query (some path) flags⟩).runIn w =
      (flags.toQuery.map fun query => line (Path.build path [] query), w) := by
  simp only [run, queryText, Job.runIn_ofExcept]
  cases flags.toQuery <;> rfl

/-- A query fails on its flags if and only if a real run with these flags fails before it sends
anything, whatever the network is. Else what the query prints is joined to the base of the endpoint
to give the URL that the real run requests, and both end in the same query string. -/
theorem query_previews_get {s : Surroundings} {contextFile : Option String} {f : Files}
    {c : Connection} (hc : f.Connects (Route.ofText (contextFile.getD (defaultContextFile s))) c)
    (hu : c.IsUsable) (path : String) (flags : QueryFlags) (n : Http.Network) :
    let dry := run s ⟨contextFile, .query (some path) flags⟩
    let real := run s ⟨contextFile, .record (.get path none false flags)⟩
    (dry.runIn ⟨f, n⟩).2 = ⟨f, n⟩ ∧
    ((∃ e, (dry.runIn ⟨f, n⟩).1 = .error e) ↔
      ∃ e, ∀ n', real.runIn ⟨f, n'⟩ = (.error e, ⟨f, n'⟩)) ∧
    ∀ output, (dry.runIn ⟨f, n⟩).1 = .ok output →
      ∃ query u, flags.toQuery = .ok query ∧ output = line (Path.build path [] query) ∧
        Previews c f (Path.build path [] query) (firstPageRequest path query) u real := by
  intro dry real
  have hdry : dry.runIn ⟨f, n⟩ = _ := runIn_run_query s contextFile path flags ⟨f, n⟩
  rw [hdry]
  refine ⟨rfl, ?_⟩
  cases hquery : flags.toQuery with
  | ok query =>
    obtain ⟨u, hpreviews⟩ : ∃ u, Previews c f (Path.build path [] query)
        (firstPageRequest path query) u real := exists_previews hc hu s.input path hquery
    refine ⟨?_, ?_⟩
    · constructor
      · rintro ⟨e, ⟨⟩⟩
      · rintro ⟨e, hreal⟩
        -- A network that can be reached receives the request.
        have hsent := hpreviews.sent (.serving [])
        rw [hreal] at hsent
        cases hsent
    · rintro output ⟨⟩
      exact ⟨query, u, rfl, rfl, hpreviews⟩
  | error e =>
    obtain ⟨o, ho⟩ | ⟨e', -, hget⟩ := getOperation_cases f
      (Route.ofText (contextFile.getD (defaultContextFile s))) s.input path none false flags
    · cases ho with
      | page hcriteria hoptions =>
        have hok := QueryFlags.toQuery_eq_ok_iff.2 ⟨_, _, hcriteria, hoptions, rfl⟩
        simp [hquery] at hok
    · have hreal : ∀ n', real.runIn ⟨f, n'⟩ = (.error e', ⟨f, n'⟩) := by
        intro n'
        have hconnect := runIn_connect (w := ⟨f, n'⟩) hc
        simp [real, run, runRecord, hconnect, hget]
      exact ⟨⟨fun _ => ⟨e', hreal⟩, fun _ => ⟨e, rfl⟩⟩, fun output houtput => by cases houtput⟩

def oneFlag : QueryFlags := ⟨some "\x7b\"a\":1\x7d", [], none, some 5, none, none, false, none⟩

/-- Slashes behind a path are lost in what is printed, and one is put in front of it to be sent. -/
theorem query_previews_items :
    oneContext.Connects (Route.ofText ((some "c").getD (defaultContextFile ⟨"", ""⟩)))
      ⟨⟨"http://h/api"⟩, some "t"⟩ ∧
    Connection.IsUsable ⟨⟨"http://h/api"⟩, some "t"⟩ ∧
    ∃ u, Previews ⟨⟨"http://h/api"⟩, some "t"⟩ oneContext "items?limit=5&q=A%20eq%201"
      ⟨.get, "/items?limit=5&q=A%20eq%201", none⟩ u
      (run ⟨"", ""⟩ ⟨some "c", .record (.get "items//" none false oneFlag)⟩) := by
  have hconnects : oneContext.Connects
      (Route.ofText ((some "c").getD (defaultContextFile ⟨"", ""⟩)))
      ⟨⟨"http://h/api"⟩, some "t"⟩ := connects_oneContext
  have hend : ∀ ch ∈ "http://h/api".toList.getLast?, 0x20 < ch.toNat := by
    rintro ch ⟨⟩
    decide
  have htoken : ∀ t ∈ some "t", Http.Endpoint.isHeaderText t = true := by
    rintro t ⟨⟩
    decide
  have husable : Connection.IsUsable ⟨⟨"http://h/api"⟩, some "t"⟩ :=
    hconnects.isUsable hend htoken
  have htext : oneFlag.toQuery.toOption = some "limit=5&q=A%20eq%201" := by decide +kernel
  cases hquery : oneFlag.toQuery with
  | error e => simp [hquery, Except.toOption] at htext
  | ok query =>
    obtain rfl : query = "limit=5&q=A%20eq%201" := by simpa [hquery, Except.toOption] using htext
    obtain ⟨-, -, hprints⟩ := query_previews_get hconnects husable "items//" oneFlag .isolated
    obtain ⟨query, u, hquery', -, hpreviews⟩ := hprints _ (by rw [runIn_run_query, hquery]; rfl)
    obtain rfl := Except.ok.inj (hquery.symm.trans hquery')
    exact ⟨hconnects, husable, u, hpreviews⟩

end ResourceApi.Command
