import ResourceApi.Proofs.Http.Attempt
import ResourceApi.Proofs.Url.Authority

/-!
Endpoints that are accepted, and what comes of calls to them with one token. What decides is whether
a message can be made of each request: then it is sent and answered, and else the call fails as if
the server were out of reach. Accepting an endpoint looks at its base URL alone. This is almost
enough for the URLs of all requests, but says nothing of the token.
-/

namespace ResourceApi.Http

namespace Endpoint

/-! ### Paths under an accepted endpoint -/

/-- An endpoint under which every path can be requested. -/
def IsOpen (e : Endpoint) : Prop := ∀ path, (Url.ofText (e.join path)).isOk = true

theorem ofBaseUrl_eq_ok {url : String} {e : Endpoint} (h : ofBaseUrl url = .ok e) :
    ∃ u, Url.ofText url = .ok u ∧ u.isHttp = true ∧ e = ⟨Path.trimmed url⟩ := by
  rw [ofBaseUrl] at h
  cases hu : Url.ofText url with
  | error cause => simp [hu] at h
  | ok u =>
    cases hhttp : u.isHttp with
    | false => simp [hu, hhttp] at h
    | true =>
      have heq : e = ⟨Path.trimmed url⟩ := by simpa [hu, hhttp, eq_comm] using h
      exact ⟨u, rfl, hhttp, heq⟩

/-- Endpoints can be compared, so that it can be decided which one is accepted. -/
theorem ofBaseUrl_of_toOption {url : String} {e : Endpoint}
    (h : (ofBaseUrl url).toOption = some e) : ofBaseUrl url = .ok e := by
  cases hr : ofBaseUrl url with
  | error cause => simp [hr, Except.toOption] at h
  | ok e' => simpa [hr, Except.toOption] using h

/-- The slashes in front of a path are lost where it is joined to a base. -/
theorem join_congr (e : Endpoint) {p q : String}
    (h : p.toList.dropWhile Path.isSlash = q.toList.dropWhile Path.isSlash) :
    e.join p = e.join q := by
  rw [join, join, h]

theorem toList_join (e : Endpoint) (path : String) :
    (e.join path).toList = e.base.toList ∨
      ∃ rest, (e.join path).toList = e.base.toList ++ '/' :: rest := by
  rw [join]
  split
  · exact .inl rfl
  · exact .inr ⟨_, by rw [String.toList_append, String.toList_append, String.toList_ofList,
      List.append_assoc]; rfl⟩

/-- An endpoint that is accepted is open, if no blank or control ends its base. -/
theorem isOpen_of_ofBaseUrl {url : String} {e : Endpoint} (h : ofBaseUrl url = .ok e)
    (hend : ∀ c ∈ e.base.toList.getLast?, 0x20 < c.toNat) : e.IsOpen := by
  obtain ⟨u, hu, hhttp, rfl⟩ := ofBaseUrl_eq_ok h
  have hbase : (Path.trimmed url).toList = Path.trimEnd url.toList := String.toList_ofList
  have hmargin : ∀ c ∈ (Path.trimEnd url.toList).getLast?, Url.isMargin c = false := by
    intro c hc
    have hlarge := hend c (hbase ▸ hc)
    simp only [Url.isMargin, decide_eq_false_iff_not]
    omega
  obtain ⟨hplain, hbehind⟩ := Url.isOk_ofChars_trimEnd hu hhttp hmargin
  intro path
  rw [Url.ofText]
  obtain hjoin | ⟨rest, hjoin⟩ := toList_join ⟨Path.trimmed url⟩ path
  · rw [hjoin, hbase]
    exact hplain
  · rw [hjoin, hbase]
    exact hbehind rest

/-- A blank does not count at the end of a base, but it does in front of a path. -/
example : (Url.ofText (join ⟨"http://h "⟩ "")).isOk = true ∧
    (Url.ofText (join ⟨"http://h "⟩ "/items")).isOk = false := by
  decide +kernel

/-! ### One call -/

/-- A session with one token, whose server answers whatever it receives. -/
structure Serves (token : Option String) (s : Session) : Prop where
  source : s.tokens = .fixed token
  reachable : s.network.reachable = true
  answered : .dropped ∉ s.network.answers

theorem serves_start {answers : List Answer} (h : .dropped ∉ answers) (token : Option String) :
    Serves token (Session.start (.fixed token) (.serving answers)) where
  source := rfl
  reachable := rfl
  answered := h

/-- Whether a reply says that there was no answer. -/
def isUnanswered : Reply → Bool
  | .error f => f.isTransport
  | .ok _ => false

theorem Reports.isUnanswered_eq_false {u : Url} {a : Answer} {reply : Reply}
    (h : Reports u a reply) (ha : a ≠ .dropped) : isUnanswered reply = false := by
  cases h with
  | dropped => exact absurd rfl ha
  | _ => rfl

theorem isSome_message?_iff {e : Endpoint} {token : Option String} {r : Request} :
    (e.message? token r).isSome = true ↔
      (∀ t ∈ token, isHeaderText t = true) ∧ (Url.ofText (e.join r.path)).isOk = true := by
  cases hu : Url.ofText (e.join r.path) with
  | error cause => cases token <;> simp [message?, hu, Except.toOption, Except.isOk, Except.toBool]
  | ok u =>
    by_cases ht : ∀ t ∈ token, isHeaderText t = true
    · simpa [message?_sendable ht hu, Except.isOk, Except.toBool] using ht
    · obtain ⟨t, rfl, hbad⟩ : ∃ t, token = some t ∧ isHeaderText t = false := by
        simpa using ht
      simp [message?_unsendable hbad, hbad]

section Call

variable {e : Endpoint} {token : Option String} {s : Session}

theorem Serves.headD_ne_dropped (h : Serves token s) :
    s.network.answers.headD Network.emptySuccess ≠ .dropped := by
  cases hanswers : s.network.answers with
  | nil => simp [Network.emptySuccess]
  | cons a rest =>
    intro hdropped
    apply h.answered
    rw [hanswers, ← hdropped]
    exact List.mem_cons_self

/-- A call sends its message if it has one, and else fails without an answer. -/
theorem Serves.dispatch (h : Serves token s) (r : Request) :
    Serves token (e.dispatch s r).2 ∧
      (e.dispatch s r).2.network.received = s.network.received ++ e.messages r (.ok token) ∧
      (isUnanswered (e.dispatch s r).1 = !(e.message? token r).isSome) ∧
      (e.message? token r = none → (e.dispatch s r).1 = .error (.transport .unsendable)) := by
  have htoken : s.tokens.current = .ok token := by rw [h.source]; rfl
  have hasked : s.tokens.ask.2 = .fixed token := by rw [h.source, TokenSource.ask_fixed]
  cases hm : e.message? token r with
  | none =>
    rw [dispatch_of_unsendable htoken hm, messages_of_unsendable hm, hasked, List.append_nil]
    exact ⟨⟨rfl, h.reachable, h.answered⟩, rfl, rfl, fun _ => rfl⟩
  | some p =>
    obtain ⟨u, m⟩ := p
    obtain ⟨hreport, hsession⟩ := dispatch_of_sent htoken hm h.reachable
    rw [hsession, messages_of_sent hm, hasked]
    refine ⟨⟨rfl, rfl, ?_⟩, rfl, ?_, by simp⟩
    · intro hdropped
      exact h.answered (List.mem_of_mem_drop hdropped)
    · rw [hreport.isUnanswered_eq_false h.headD_ne_dropped]
      rfl

end Call

/-! ### Many calls -/

/-- Each of several calls with one token puts one message on the wire, and none of them says that it
was not answered. -/
structure AllReach (e : Endpoint) (token : Option String) (answers : List Answer)
    (rs : List Request) : Prop where
  sent : ∀ i ≤ rs.length, (e.calls (rs.take i)
    (Session.start (.fixed token) (.serving answers))).2.network.received.length = i
  answered : ∀ reply ∈ (e.calls rs (Session.start (.fixed token) (.serving answers))).1,
    isUnanswered reply = false

section Run

variable {e : Endpoint} {token : Option String}

theorem Serves.received_calls {s : Session} (h : Serves token s) (rs : List Request) :
    (e.calls rs s).2.network.received =
      s.network.received ++ rs.flatMap fun r => e.messages r (.ok token) := by
  induction rs generalizing s with
  | nil => simp [calls]
  | cons r rs ih =>
    obtain ⟨hnext, hreceived, -⟩ := h.dispatch (e := e) r
    rw [calls, ih hnext, hreceived, List.flatMap_cons, List.append_assoc]

theorem Serves.answered_calls_iff {s : Session} (h : Serves token s) (rs : List Request) :
    (∀ reply ∈ (e.calls rs s).1, isUnanswered reply = false) ↔
      ∀ r ∈ rs, (e.message? token r).isSome = true := by
  induction rs generalizing s with
  | nil => simp [calls]
  | cons r rs ih =>
    obtain ⟨hnext, -, hreply, -⟩ := h.dispatch (e := e) r
    rw [calls, List.forall_mem_cons, List.forall_mem_cons, ih hnext, hreply, Bool.not_eq_false']

theorem Serves.replies_of_unsendable {s : Session} (h : Serves token s) {rs : List Request}
    (hm : ∀ r ∈ rs, e.message? token r = none) :
    (e.calls rs s).1 = rs.map fun _ => .error (.transport .unsendable) := by
  induction rs generalizing s with
  | nil => rfl
  | cons r rs ih =>
    obtain ⟨hfirst, hrest⟩ := List.forall_mem_cons.1 hm
    obtain ⟨hnext, -, -, hreply⟩ := h.dispatch (e := e) r
    rw [calls, ih hnext hrest, hreply hfirst, List.map_cons]

theorem length_messages (r : Request) :
    (e.messages r (.ok token)).length = if (e.message? token r).isSome then 1 else 0 := by
  cases hm : e.message? token r with
  | none => rw [messages_of_unsendable hm]; rfl
  | some p => rw [messages_of_sent (u := p.1) (m := p.2) hm]; rfl

theorem allReach_iff {answers : List Answer} (ha : .dropped ∉ answers) (rs : List Request) :
    AllReach e token answers rs ↔ ∀ r ∈ rs, (e.message? token r).isSome = true := by
  have hserves := serves_start ha token
  constructor
  · intro h
    exact (hserves.answered_calls_iff rs).1 h.answered
  · intro h
    refine ⟨fun i hi => ?_, (hserves.answered_calls_iff rs).2 h⟩
    have hone : ∀ r ∈ rs.take i, (e.messages r (.ok token)).length = 1 := by
      intro r hr
      rw [length_messages, if_pos (h r (List.mem_of_mem_take hr))]
    have hnone : (Session.start (.fixed token) (.serving answers)).network.received = [] := rfl
    rw [hserves.received_calls, hnone, List.nil_append, List.length_flatMap,
      List.map_congr_left hone, List.map_const', List.sum_replicate_nat, List.length_take,
      Nat.mul_one, Nat.min_eq_left hi]

end Run

/-- No header holds a line break. -/
theorem isHeaderText_of_newline {t : String} (h : '\n' ∈ t.toList) : isHeaderText t = false := by
  have hbyte : (10 : UInt8) ∈ Text.Utf8.encode t.toList :=
    List.mem_flatMap.2 ⟨'\n', h, by decide⟩
  rw [isHeaderText, List.all_eq_false]
  exact ⟨10, hbyte, by decide⟩

/-- Calls of an accepted endpoint reach their server if and only if the token can be sent, whatever
the calls are, and their URLs can be read, which only a base that ends in a blank can prevent. The
token is not looked at when the endpoint is accepted: if it cannot be sent, for example because of a
line break, then no call sends anything, and each says that it was not answered. -/
theorem accepted_calls_reach_iff {settings : Settings} {e : Endpoint}
    (he : ofBaseUrl settings.baseUrl = .ok e) {answers : List Answer} (ha : .dropped ∉ answers)
    (rs : List Request) :
    (AllReach e settings.token answers rs ↔
      rs = [] ∨ (∀ t ∈ settings.token, isHeaderText t = true) ∧
        ∀ r ∈ rs, (Url.ofText (e.join r.path)).isOk = true) ∧
    ((∀ c ∈ e.base.toList.getLast?, 0x20 < c.toNat) → e.IsOpen) ∧
    (∀ t ∈ settings.token, isHeaderText t = false →
      (e.calls rs (Session.start (.fixed settings.token) (.serving answers))).1 =
          rs.map (fun _ => .error (.transport .unsendable)) ∧
        (e.calls rs (Session.start (.fixed settings.token)
          (.serving answers))).2.network.received = []) ∧
    ∀ t : String, '\n' ∈ t.toList → isHeaderText t = false := by
  refine ⟨?_, isOpen_of_ofBaseUrl he, ?_, fun t ht => isHeaderText_of_newline ht⟩
  · rw [allReach_iff ha]
    simp only [isSome_message?_iff]
    constructor
    · intro h
      cases rs with
      | nil => exact .inl rfl
      | cons r rs =>
        exact .inr ⟨(h r List.mem_cons_self).1, fun r' hr => (h r' hr).2⟩
    · rintro (rfl | ⟨ht, hu⟩) r hr
      · cases hr
      · exact ⟨ht, hu r hr⟩
  · intro t htoken hbad
    have hserves := serves_start ha settings.token
    have hm : ∀ r ∈ rs, e.message? settings.token r = none := by
      intro r _
      rw [htoken]
      exact message?_unsendable hbad
    refine ⟨hserves.replies_of_unsendable hm, ?_⟩
    have hsent : rs.flatMap (fun r => e.messages r (.ok settings.token)) = [] :=
      List.flatMap_eq_nil_iff.2 fun r hr => messages_of_unsendable (hm r hr)
    rw [hserves.received_calls, hsent]
    rfl

/-- Two calls, with a token, of an endpoint that refuses the first of them. -/
theorem two_accepted_calls_reach :
    ofBaseUrl "http://h/api/" = .ok ⟨"http://h/api"⟩ ∧
    Answer.dropped ∉ [Answer.response 500 []] ∧
    AllReach ⟨"http://h/api"⟩ (some "t") [.response 500 []]
      [⟨.get, "/a b", none⟩, ⟨.post, "", some .null⟩] := by
  have he : ofBaseUrl (Settings.mk "http://h/api/" (some "t") 1000).baseUrl =
      .ok ⟨"http://h/api"⟩ := ofBaseUrl_of_toOption (by decide +kernel)
  have ha : Answer.dropped ∉ [Answer.response 500 []] := by decide
  obtain ⟨hreach, hopen, -⟩ :=
    accepted_calls_reach_iff he ha [⟨.get, "/a b", none⟩, ⟨.post, "", some .null⟩]
  have hend : ∀ c ∈ "http://h/api".toList.getLast?, 0x20 < c.toNat := by
    rintro c ⟨⟩
    decide
  have htoken : ∀ t ∈ some "t", isHeaderText t = true := by
    rintro t ⟨⟩
    decide
  exact ⟨he, ha, hreach.2 (.inr ⟨htoken, fun r _ => hopen hend r.path⟩)⟩

/-- A token with a line break is accepted, and then a call sends nothing and reports that it was not
answered, although the server answers everything. -/
theorem broken_token_is_accepted :
    ofBaseUrl (Settings.mk "http://h" (some "a\nb") 1000).baseUrl = .ok ⟨"http://h"⟩ ∧
    isHeaderText "a\nb" = false ∧
    (calls ⟨"http://h"⟩ [⟨.get, "/items", none⟩]
      (Session.start (.fixed (some "a\nb")) (.serving []))).1.map isUnanswered = [true] ∧
    (calls ⟨"http://h"⟩ [⟨.get, "/items", none⟩]
      (Session.start (.fixed (some "a\nb")) (.serving []))).2.network.received = [] := by
  have he : ofBaseUrl (Settings.mk "http://h" (some "a\nb") 1000).baseUrl = .ok ⟨"http://h"⟩ :=
    ofBaseUrl_of_toOption (by decide +kernel)
  exact ⟨he, by decide, by decide +kernel, by decide +kernel⟩

end Endpoint

end ResourceApi.Http
