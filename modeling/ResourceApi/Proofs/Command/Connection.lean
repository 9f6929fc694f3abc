import ResourceApi.Proofs.Client.Ending
import ResourceApi.Proofs.Client.Values
import ResourceApi.Proofs.Command.ContextFile
import ResourceApi.Proofs.Http.Acceptance

/-!
Connections of record commands. The file with the contexts gives the connection of the current one,
or there is a reason why it does not; to find out changes nothing. An operation over a connection
comes to an end, because the network has only so many answers left, and changes the network alone.
-/

namespace ResourceApi.Command

namespace Job

variable {α β : Type}

@[simp] theorem runIn_map (f : α → β) (j : Job α) (w : World) :
    (f <$> j).runIn w = ((j.runIn w).1.map f, (j.runIn w).2) := by
  rw [← bind_pure_comp, runIn_bind]
  obtain ⟨r, w'⟩ := j.runIn w
  cases r <;> rfl

@[simp] theorem runIn_get (w : World) : (get : Job World).runIn w = (.ok w, w) := rfl

@[simp] theorem runIn_set (w w' : World) : (set w' : Job Unit).runIn w = (.ok (), w') := rfl

end Job

/-! ### The current context -/

/-- The store in a file: the empty one if the file is missing, and none if it cannot be read. -/
def Files.store? (f : Files) (file : Route) : Option ContextStore :=
  if f.holds file then (f.read file).toOption.bind ContextStore.ofText? else some .empty

/-- The connection that a file gives: an endpoint at the server of the current context, with the
token of the context unless it is empty. -/
inductive Files.Connects (f : Files) (file : Route) : Connection → Prop where
  | intro {s : ContextStore} {x : Context} {e : Http.Endpoint} (hs : f.store? file = some s)
      (hx : s.current? = some x) (hserver : x.server ≠ "")
      (he : Http.Endpoint.ofBaseUrl x.server = .ok e) :
      f.Connects file ⟨e, if x.token = "" then none else some x.token⟩

/-- Why a file gives no connection. -/
inductive Files.LacksConnection (f : Files) (file : Route) : CommandError → Prop where
  | unreadable {e : FileError} (hfile : f.holds file = true) (hread : f.read file = .error e) :
      f.LacksConnection file (.file e)
  | unparsed {text : String} (hfile : f.holds file = true) (hread : f.read file = .ok text)
      (htext : ContextStore.ofText? text = none) : f.LacksConnection file .unreadableContexts
  | noContext {s : ContextStore} (hs : f.store? file = some s) (hx : s.current? = none) :
      f.LacksConnection file .noCurrentContext
  | noServer {s : ContextStore} {x : Context} (hs : f.store? file = some s)
      (hx : s.current? = some x) (hserver : x.server = "") :
      f.LacksConnection file (.noServer x.name)
  | badServer {s : ContextStore} {x : Context} {e : Failure} (hs : f.store? file = some s)
      (hx : s.current? = some x) (hserver : x.server ≠ "")
      (he : Http.Endpoint.ofBaseUrl x.server = .error e) : f.LacksConnection file (.api e)

section Connecting

variable {f : Files} {file : Route}

/-- A file that lacks a connection for some reason gives none. -/
theorem Files.LacksConnection.not_connects {e : CommandError} (h : f.LacksConnection file e)
    {c : Connection} (hc : f.Connects file c) : False := by
  obtain ⟨hs, hx, hserver, he⟩ := hc
  cases h with
  | unreadable hfile hread => simp [store?, hfile, hread, Except.toOption] at hs
  | unparsed hfile hread htext => simp [store?, hfile, hread, htext, Except.toOption] at hs
  | noContext hs' hx' =>
    obtain rfl := Option.some.inj (hs.symm.trans hs')
    simp [hx'] at hx
  | noServer hs' hx' hserver' =>
    obtain rfl := Option.some.inj (hs.symm.trans hs')
    obtain rfl := Option.some.inj (hx.symm.trans hx')
    exact hserver hserver'
  | badServer hs' hx' _ he' =>
    obtain rfl := Option.some.inj (hs.symm.trans hs')
    obtain rfl := Option.some.inj (hx.symm.trans hx')
    simp [he'] at he

/-- The store of a file is loaded, or there is no connection because it cannot be read. -/
theorem runIn_loadContexts_cases (file : Route) (w : World) :
    (∃ s, w.files.store? file = some s ∧ (loadContexts file).runIn w = (.ok s, w)) ∨
      ∃ e, w.files.LacksConnection file e ∧ (loadContexts file).runIn w = (.error e, w) := by
  cases hfile : w.files.holds file with
  | false => exact .inl ⟨.empty, by simp [Files.store?, hfile], by simp [loadContexts, hfile]⟩
  | true =>
    cases hread : w.files.read file with
    | error e => exact .inr ⟨.file e, .unreadable hfile hread, by simp [loadContexts, hfile, hread]⟩
    | ok text =>
      cases htext : ContextStore.ofText? text with
      | none =>
        exact .inr ⟨.unreadableContexts, .unparsed hfile hread htext,
          by simp [loadContexts, hfile, hread, htext]⟩
      | some s =>
        exact .inl ⟨s, by simp [Files.store?, hfile, hread, htext, Except.toOption],
          by simp [loadContexts, hfile, hread, htext]⟩

/-- A context with a server has settings: this server, and its token unless that is empty. -/
theorem Context.settings?_of_server {x : Context} (h : x.server ≠ "") :
    ∃ settings, x.settings? = some settings ∧ settings.baseUrl = x.server ∧
      settings.token = if x.token = "" then none else some x.token := by
  unfold Context.settings?
  rw [if_neg (by simpa using h)]
  refine ⟨_, rfl, ?_⟩
  cases x.timeoutSecs <;> by_cases ht : x.token = "" <;>
    simp [ht, Settings.ofBaseUrl, Settings.withToken, Settings.withTimeoutMillis]

/-- A command connects, or fails for a reason, and leaves the world as it was. -/
theorem runIn_connect_cases (file : Route) (w : World) :
    (∃ c, w.files.Connects file c ∧ (connect file).runIn w = (.ok c, w)) ∨
      ∃ e, w.files.LacksConnection file e ∧ (connect file).runIn w = (.error e, w) := by
  obtain ⟨s, hs, hload⟩ | ⟨e, hlacks, hload⟩ := runIn_loadContexts_cases file w
  · cases hx : s.current? with
    | none => exact .inr ⟨_, .noContext hs hx, by simp [connect, hload, hx]⟩
    | some x =>
      by_cases hserver : x.server = ""
      · have hsettings : x.settings? = none := by simp [Context.settings?, hserver]
        exact .inr ⟨_, .noServer hs hx hserver, by simp [connect, hload, hx, hsettings]⟩
      · obtain ⟨settings, hsettings, hurl, htoken⟩ := Context.settings?_of_server hserver
        cases he : Http.Endpoint.ofBaseUrl x.server with
        | error e =>
          exact .inr ⟨_, .badServer hs hx hserver he,
            by simp [connect, hload, hx, hsettings, hurl, he, Except.map]⟩
        | ok e =>
          exact .inl ⟨_, .intro hs hx hserver he,
            by simp [connect, hload, hx, hsettings, hurl, htoken, he, Except.map]⟩
  · exact .inr ⟨e, hlacks, by simp [connect, hload]⟩

/-- A file gives one connection at most. -/
theorem Files.Connects.unique {c c' : Connection} (h : f.Connects file c)
    (h' : f.Connects file c') : c = c' := by
  obtain ⟨hs, hx, -, he⟩ := h
  obtain ⟨hs', hx', -, he'⟩ := h'
  obtain rfl := Option.some.inj (hs.symm.trans hs')
  obtain rfl := Option.some.inj (hx.symm.trans hx')
  obtain rfl := Except.ok.inj (he.symm.trans he')
  rfl

/-- The connection that a file gives is the one that is made. -/
theorem runIn_connect {w : World} {c : Connection} (h : w.files.Connects file c) :
    (connect file).runIn w = (.ok c, w) := by
  obtain ⟨c', hc', hrun⟩ | ⟨e, hlacks, -⟩ := runIn_connect_cases file w
  · rw [hrun, hc'.unique h]
  · exact (hlacks.not_connects h).elim

end Connecting

def oneContext : Files :=
  ⟨[(["c"], "current-context = \"a\"\n\n[[contexts]]\nname = \"a\"\n"
    ++ "server = \"http://h/api\"\ntoken = \"t\"\n")], []⟩

theorem connects_oneContext :
    oneContext.Connects (Route.ofText "c") ⟨⟨"http://h/api"⟩, some "t"⟩ :=
  .intro (s := ⟨"a", [⟨"a", "http://h/api", "t", none⟩]⟩) (x := ⟨"a", "http://h/api", "t", none⟩)
    (by decide +kernel) rfl (by decide)
    (Http.Endpoint.ofBaseUrl_of_toOption (by decide +kernel))

/-! ### Operations -/

/-- What is received is an empty success, unless it uses up an answer. -/
theorem answers_send_lt {n n' : Http.Network} {m : Http.Message} {status : Nat} {body : List UInt8}
    (h : n.send m = (.response status body, n')) :
    (status = 200 ∧ body = []) ∨ n'.answers.length < n.answers.length := by
  cases hn : n.reachable with
  | false => simp [hn] at h
  | true =>
    rw [Http.Endpoint.send_of_reachable hn] at h
    obtain ⟨ha, rfl⟩ := Prod.mk.inj h
    cases hanswers : n.answers with
    | nil => exact .inl (by simpa [hanswers, Http.Network.emptySuccess, eq_comm] using ha)
    | cons a rest => exact .inr (by simp)

/-- A value is that of a response which was received. -/
theorem exists_send_of_dispatch {e : Http.Endpoint} {s s' : Http.Endpoint.Session} {r : Request}
    {v : Json} (h : e.dispatch s r = (.ok v, s')) :
    ∃ m status body, s.network.send m = (.response status body, s'.network) ∧
      Http.Endpoint.reply status body = .ok v := by
  unfold Http.Endpoint.dispatch at h
  cases htoken : s.tokens.ask.1 with
  | error e => simp [htoken] at h
  | ok token =>
    cases hm : e.message? token r with
    | none => simp [htoken, hm] at h
    | some p =>
      rcases hsend : s.network.send p.2 with ⟨⟨status, body⟩ | _, n⟩
      · obtain ⟨hreply, rfl⟩ : Http.Endpoint.reply status body = .ok v ∧ _ = s' := by
          simpa [htoken, hm, hsend] using h
        exact ⟨p.2, status, body, hsend, hreply⟩
      · simp [htoken, hm, hsend] at h

/-- A call that succeeds uses up an answer, unless its value is null. -/
theorem answers_dispatch_lt {e : Http.Endpoint} {s s' : Http.Endpoint.Session} {r : Request}
    {v : Json} (h : e.dispatch s r = (.ok v, s')) :
    v = .null ∨ s'.network.answers.length < s.network.answers.length := by
  obtain ⟨m, status, body, hsend, hreply⟩ := exists_send_of_dispatch h
  obtain ⟨rfl, rfl⟩ | hlt := answers_send_lt hsend
  · exact .inl (Except.ok.inj hreply).symm
  · exact .inr hlt

/-- Each page uses up an answer: what is received without one is empty, and no page. -/
theorem exhausts_dispatch (e : Http.Endpoint) :
    Collection.Exhausts e.dispatch (some : Json → Option Json)
      fun s => s.network.answers.length := by
  intro s r p s' hsend
  rcases hd : e.dispatch s r with ⟨_ | v, s₁⟩
  · simp [Collection.send, Collection.decode, hd] at hsend
  · rw [Collection.send, hd] at hsend
    obtain ⟨hpage, rfl⟩ := Prod.mk.inj hsend
    obtain rfl | hlt := answers_dispatch_lt hd
    · have hnull : Page.ofJson? (some : Json → Option Json) .null = none := rfl
      simp [Collection.decode, hnull] at hpage
    · exact hlt

/-- Answers are null or read from JSON texts. -/
theorem printable_dispatch (e : Http.Endpoint) : Printable e.dispatch := by
  intro s r v s' h
  obtain ⟨m, status, body, -, hreply⟩ := exists_send_of_dispatch h
  have hreports := Http.Endpoint.reports_reply ⟨[], none, none, none, [], none, none⟩ status body
  rw [hreply] at hreports
  cases hreports with
  | blank => exact .null
  | value _ _ hv =>
    obtain ⟨text, -, htext⟩ := hv
    exact htext.fits

namespace Connection

/-- What an operation comes to over a connection, provided that it may send a request more than
there are answers. -/
def Yields (c : Connection) (path : String) (o : Operation) (n : Http.Network)
    (result : Except Failure Json) (n' : Http.Network) : Prop :=
  ∀ requests, n.answers.length < requests → ∃ session : Http.Endpoint.Session,
    o.run c.endpoint.dispatch some id (collectionPath path) requests
      (.start (.fixed c.token) n) = (some result, session) ∧ session.network = n'

/-- The value of an operation over a connection can be printed. -/
theorem Yields.fits {c : Connection} {path : String} {o : Operation} {n n' : Http.Network}
    {v : Json} (h : c.Yields path o n (.ok v) n') : Json.Fits Decimal.Binary64.IsKept 127 v := by
  obtain ⟨session, hrun, -⟩ := h _ (Nat.lt_succ_self _)
  exact Operation.fits_run (printable_dispatch c.endpoint) hrun

/-- A single call comes to the value of its one answer. -/
theorem Yields.of_call {c : Connection} {path : String} {call : Call} {n n' : Http.Network}
    {result : Except Failure Json} (h : c.Yields path (.call call) n result n') :
    let ran := c.endpoint.dispatch (.start (.fixed c.token) n)
      (call.request (collectionPath path))
    result = Collection.decode (fun v => (Operation.call call).value? some id [v])
      (call.request (collectionPath path)) ran.1 ∧ n' = ran.2.network := by
  obtain ⟨session, hrun, rfl⟩ := h _ (Nat.lt_succ_self _)
  rw [Operation.run_call] at hrun
  obtain ⟨hresult, rfl⟩ := Prod.mk.inj hrun
  exact ⟨(Option.some.inj hresult).symm, rfl⟩

/-- An operation is performed to its end; the files stay as they are. -/
theorem exists_runIn_perform (c : Connection) (path : String) (o : Operation) (w : World) :
    ∃ result n', c.Yields path o w.network result n' ∧
      (perform c path o).runIn w = (result.mapError .api, { w with network := n' }) := by
  obtain ⟨result, session, hrun⟩ := Operation.exists_run (exhausts_dispatch c.endpoint) id
    (collectionPath path) o (.start (.fixed c.token) w.network)
  refine ⟨result, session.network, fun requests hn => ⟨session, hrun requests hn, rfl⟩, ?_⟩
  have hbudget := hrun w.network.budget (Nat.lt_succ_self _)
  cases result with
  | ok v => simp [perform, hbudget, Except.mapError, Except.map]
  | error e => simp [perform, hbudget, Except.mapError]

end Connection

end ResourceApi.Command
