import ResourceApi.Http.Endpoint
import ResourceApi.Proofs.Json.Printing
import ResourceApi.Proofs.Json.Reading
import ResourceApi.Proofs.Text.Lossy

/-!
Calls of an endpoint, one after the other. Each asks for a token once and makes one attempt: what it
sends follows from the request and the token, and what it returns from the one answer that this
consumes. So neither a call that fails nor the answer that it got is felt by the calls behind it.
-/

namespace ResourceApi.Http

/-! ### Tokens -/

namespace TokenSource

/-- What a source says when it is asked for a further time, counted from zero. -/
def nth (t : TokenSource) (i : Nat) : TokenAnswer :=
  (t.current :: t.later).getD i (t.later.getLastD t.current)

@[simp] theorem nth_ask (t : TokenSource) (i : Nat) : t.ask.2.nth i = t.nth (i + 1) := by
  obtain ⟨current, later⟩ := t
  cases later with
  | nil => cases i <;> simp [nth, ask]
  | cons a later =>
    simp only [nth, ask, List.getLastD_cons]
    rfl

end TokenSource

namespace Endpoint

/-! ### One call -/

/-- The bytes are a JSON text for the value, in UTF-8. -/
def IsJsonBody (v : Json) (body : List UInt8) : Prop :=
  ∃ s, Text.Utf8.encode s = body ∧ Json.IsTextOf v s

/-- How an answer is reported. -/
inductive Reports (u : Url) : Answer → Reply → Prop where
  | dropped : Reports u .dropped (.error (.transport (.unanswered (shown u) false)))
  | refused {status : Nat} {body : List UInt8} {v : Json} (hs : status < 200 ∨ 300 ≤ status)
      (hv : IsJsonBody v body) : Reports u (.response status body) (.error (.remote status v))
  | refusedText {status : Nat} {body : List UInt8} {s : List Char}
      (hs : status < 200 ∨ 300 ≤ status) (hv : ¬∃ v, IsJsonBody v body)
      (ht : Text.Utf8.IsLossyTextOf s body) :
      Reports u (.response status body) (.error (.remote status (.string (String.ofList s))))
  | blank {status : Nat} {body : List UInt8} (hs : 200 ≤ status ∧ status < 300)
      (hb : ∀ b ∈ body, b ∈ [9, 10, 12, 13, 32]) :
      Reports u (.response status body) (.ok .null)
  | value {status : Nat} {body : List UInt8} {v : Json} (hs : 200 ≤ status ∧ status < 300)
      (hb : ∃ b ∈ body, b ∉ [9, 10, 12, 13, 32]) (hv : IsJsonBody v body) :
      Reports u (.response status body) (.ok v)
  | undecodable {status : Nat} {body : List UInt8} (hs : 200 ≤ status ∧ status < 300)
      (hb : ∃ b ∈ body, b ∉ [9, 10, 12, 13, 32]) (hv : ¬∃ v, IsJsonBody v body) :
      Reports u (.response status body) (.error (.decode "response body: not a JSON text"))

/-- One call, given what the source of tokens says and the answer that is next: what it returns and
what it sends. -/
inductive Attempt (e : Endpoint) (r : Request) (a : Answer) :
    TokenAnswer → Reply → List Message → Prop where
  | noToken (f : Failure) : Attempt e r a (.error f) (.error f) []
  | unsendable {t : String} (ht : isHeaderText t = false) :
      Attempt e r a (.ok (some t)) (.error (.transport .unsendable)) []
  | sent {token : Option String} {u : Url} {reply : Reply}
      (ht : ∀ t ∈ token, isHeaderText t = true) (hu : Url.ofText (e.join r.path) = .ok u)
      (hr : Reports u a reply) :
      Attempt e r a (.ok token) reply
        [⟨r.method, String.ofList u.target, token.map ("Bearer " ++ ·),
          r.body.map fun _ => "application/json", r.body.map Json.text⟩]

theorem all_isSpace_iff (body : List UInt8) :
    body.all isSpace = true ↔ ∀ b ∈ body, b ∈ [9, 10, 12, 13, 32] := by
  simp [isSpace]

theorem jsonOfBytes?_eq_some_iff {body : List UInt8} {v : Json} :
    jsonOfBytes? body = some v ↔ IsJsonBody v body := by
  simp only [jsonOfBytes?, Option.bind_eq_some_iff, Text.Utf8.decode_eq_some_iff,
    Json.ofChars?_eq_some_iff, IsJsonBody]

theorem jsonOfBytes?_eq_none_iff {body : List UInt8} :
    jsonOfBytes? body = none ↔ ¬∃ v, IsJsonBody v body := by
  simp only [← jsonOfBytes?_eq_some_iff, Option.eq_none_iff_forall_ne_some, not_exists, ne_eq]

/-- A value that is printed is read as this value, provided that its doubles come back. -/
theorem isJsonBody_render {v : Json} (h : Json.Fits (Json.IsWritten Json.ReadsDouble) 127 v) :
    IsJsonBody v (Text.Utf8.encode (Json.render v)) :=
  ⟨_, rfl, Json.ofChars?_eq_some_iff.1 (Json.ofChars?_printed h).1⟩

theorem reports_reply (u : Url) (status : Nat) (body : List UInt8) :
    Reports u (.response status body) (reply status body) := by
  unfold reply
  split
  · rename_i hs
    cases hv : jsonOfBytes? body with
    | none =>
      rw [payload, hv, Option.getD_none]
      exact .refusedText hs (jsonOfBytes?_eq_none_iff.1 hv)
        (Text.Utf8.isLossyTextOf_decodeLossy body)
    | some v =>
      rw [payload, hv, Option.getD_some]
      exact .refused hs (jsonOfBytes?_eq_some_iff.1 hv)
  · rename_i hs
    have hs' : 200 ≤ status ∧ status < 300 := by omega
    split
    · rename_i hb
      exact .blank hs' ((all_isSpace_iff body).1 hb)
    · rename_i hb
      have hb' : ∃ b ∈ body, b ∉ [9, 10, 12, 13, 32] := by
        simpa using mt (all_isSpace_iff body).2 hb
      cases hv : jsonOfBytes? body with
      | none => exact .undecodable hs' hb' (jsonOfBytes?_eq_none_iff.1 hv)
      | some v => exact .value hs' hb' (jsonOfBytes?_eq_some_iff.1 hv)

theorem Reports.eq_reply {u : Url} {status : Nat} {body : List UInt8} {r : Reply}
    (h : Reports u (.response status body) r) : r = reply status body := by
  cases h with
  | refused hs hv =>
    rw [reply, if_pos hs, payload, jsonOfBytes?_eq_some_iff.2 hv, Option.getD_some]
  | refusedText hs hv ht =>
    rw [reply, if_pos hs, payload, jsonOfBytes?_eq_none_iff.2 hv, Option.getD_none,
      Text.Utf8.isLossyTextOf_iff.1 ht]
  | blank hs hb =>
    have hblank := (all_isSpace_iff body).2 hb
    rw [reply, if_neg (by omega), if_pos hblank]
  | value hs hb hv =>
    have hblank := mt (all_isSpace_iff body).1 (by simpa using hb)
    rw [reply, if_neg (by omega), if_neg hblank, jsonOfBytes?_eq_some_iff.2 hv]
  | undecodable hs hb hv =>
    have hblank := mt (all_isSpace_iff body).1 (by simpa using hb)
    rw [reply, if_neg (by omega), if_neg hblank, jsonOfBytes?_eq_none_iff.2 hv]

/-- An answer is reported in one way. -/
theorem Reports.unique {u : Url} {a : Answer} {r r' : Reply} (h : Reports u a r)
    (h' : Reports u a r') : r = r' := by
  cases a with
  | dropped =>
    cases h
    cases h'
    rfl
  | response status body => rw [h.eq_reply, h'.eq_reply]

/-- A request, a token and an answer leave a call no choice. -/
theorem Attempt.unique {e : Endpoint} {r : Request} {a : Answer} {t : TokenAnswer}
    {reply reply' : Reply} {ms ms' : List Message} (h : Attempt e r a t reply ms)
    (h' : Attempt e r a t reply' ms') : reply = reply' ∧ ms = ms' := by
  cases h with
  | noToken f =>
    cases h'
    exact ⟨rfl, rfl⟩
  | unsendable ht =>
    cases h' with
    | unsendable _ => exact ⟨rfl, rfl⟩
    | sent ht' _ _ => exact absurd (ht' _ rfl) (by simp [ht])
  | sent ht hu hr =>
    cases h' with
    | unsendable ht' => exact absurd (ht _ rfl) (by simp [ht'])
    | sent _ hu' hr' =>
      obtain rfl := Except.ok.inj (hu.symm.trans hu')
      exact ⟨hr.unique hr', rfl⟩

/-- What a call sends, which does not depend on answers. -/
def messages (e : Endpoint) (r : Request) : TokenAnswer → List Message
  | .error _ => []
  | .ok token => ((e.message? token r).map Prod.snd).toList

theorem send_of_reachable {n : Network} (h : n.reachable = true) (m : Message) :
    n.send m = (n.answers.headD Network.emptySuccess,
      ⟨true, n.answers.drop 1, n.received ++ [m]⟩) := by
  obtain ⟨reachable, answers, received⟩ := n
  obtain rfl : reachable = true := h
  cases answers <;> rfl

section Call

variable {e : Endpoint} {r : Request} {s : Session}

theorem message?_unsendable {t : String} (ht : isHeaderText t = false) :
    e.message? (some t) r = none := by
  cases hu : Url.ofText (e.join r.path) <;> simp [message?, hu, ht, Except.toOption]

theorem message?_sendable {token : Option String} {u : Url}
    (ht : ∀ t ∈ token, isHeaderText t = true) (hu : Url.ofText (e.join r.path) = .ok u) :
    e.message? token r = some (u, ⟨r.method, String.ofList u.target, token.map ("Bearer " ++ ·),
      r.body.map fun _ => "application/json", r.body.map Json.text⟩) := by
  cases token with
  | none => simp [message?, hu, Except.toOption]
  | some t => simp [message?, hu, ht t rfl, Except.toOption]

theorem messages_of_unsendable {token : Option String} (hm : e.message? token r = none) :
    e.messages r (.ok token) = [] := by
  simp [messages, hm]

theorem messages_of_sent {token : Option String} {u : Url} {m : Message}
    (hm : e.message? token r = some (u, m)) : e.messages r (.ok token) = [m] := by
  simp [messages, hm]

theorem dispatch_of_noToken {f : Failure} (ht : s.tokens.current = .error f) :
    e.dispatch s r = (.error f, { s with tokens := s.tokens.ask.2, asked := s.asked + 1 }) := by
  simp [dispatch, TokenSource.ask, ht]

theorem dispatch_of_unsendable {token : Option String} (ht : s.tokens.current = .ok token)
    (hm : e.message? token r = none) :
    e.dispatch s r = (.error (.transport .unsendable),
      { s with tokens := s.tokens.ask.2, asked := s.asked + 1 }) := by
  simp [dispatch, TokenSource.ask, ht, hm]

theorem dispatch_of_sent {token : Option String} {u : Url} {m : Message}
    (ht : s.tokens.current = .ok token) (hm : e.message? token r = some (u, m))
    (hn : s.network.reachable = true) :
    Reports u (s.network.answers.headD Network.emptySuccess) (e.dispatch s r).1 ∧
      (e.dispatch s r).2 = ⟨s.tokens.ask.2, s.asked + 1,
        ⟨true, s.network.answers.drop 1, s.network.received ++ [m]⟩⟩ := by
  have hsend := send_of_reachable hn m
  cases ha : s.network.answers.headD Network.emptySuccess with
  | dropped =>
    rw [ha] at hsend
    have hdispatch : e.dispatch s r = (.error (.transport (.unanswered (shown u) false)),
        ⟨s.tokens.ask.2, s.asked + 1,
          ⟨true, s.network.answers.drop 1, s.network.received ++ [m]⟩⟩) := by
      simp [dispatch, TokenSource.ask, ht, hm, hsend]
    rw [hdispatch]
    exact ⟨.dropped, rfl⟩
  | response status body =>
    rw [ha] at hsend
    have hdispatch : e.dispatch s r = (reply status body, ⟨s.tokens.ask.2, s.asked + 1,
        ⟨true, s.network.answers.drop 1, s.network.received ++ [m]⟩⟩) := by
      simp [dispatch, TokenSource.ask, ht, hm, hsend]
    rw [hdispatch]
    exact ⟨reports_reply u status body, rfl⟩

theorem network_dispatch {token : Option String} {u : Url} {m : Message}
    (ht : s.tokens.current = .ok token) (hm : e.message? token r = some (u, m)) :
    (e.dispatch s r).2.network = (s.network.send m).2 := by
  rcases hsend : s.network.send m with ⟨_ | _, n⟩ <;>
    simp [dispatch, TokenSource.ask, ht, hm, hsend]

/-- One call asks for one token, sends what follows from it, and takes as many answers as it sends
messages. -/
theorem dispatch_attempt (hu : (Url.ofText (e.join r.path)).isOk = true)
    (hn : s.network.reachable = true) :
    Attempt e r (s.network.answers.headD Network.emptySuccess) s.tokens.current (e.dispatch s r).1
        (e.messages r s.tokens.current) ∧
      (e.dispatch s r).2 = ⟨s.tokens.ask.2, s.asked + 1, ⟨true,
        s.network.answers.drop (e.messages r s.tokens.current).length,
        s.network.received ++ e.messages r s.tokens.current⟩⟩ := by
  have hleft : ⟨s.tokens.ask.2, s.asked + 1, s.network⟩ =
      (⟨s.tokens.ask.2, s.asked + 1,
        ⟨true, s.network.answers.drop 0, s.network.received ++ []⟩⟩ : Session) := by
    simp [← hn]
  cases htoken : s.tokens.current with
  | error f =>
    rw [dispatch_of_noToken htoken]
    exact ⟨.noToken f, hleft⟩
  | ok token =>
    by_cases ht : ∀ t ∈ token, isHeaderText t = true
    · cases hurl : Url.ofText (e.join r.path) with
      | error _ => simp [hurl, Except.isOk, Except.toBool] at hu
      | ok u =>
        have hm := message?_sendable ht hurl
        obtain ⟨hreport, hsession⟩ := dispatch_of_sent htoken hm hn
        rw [messages_of_sent hm]
        exact ⟨.sent ht hurl hreport, hsession⟩
    · cases token with
      | none => exact absurd (by simp) ht
      | some t =>
        have ht' : isHeaderText t = false := by simpa using ht
        have hm := message?_unsendable (e := e) (r := r) ht'
        rw [dispatch_of_unsendable htoken hm]
        rw [messages_of_unsendable hm]
        exact ⟨.unsendable ht', hleft⟩

end Call

/-! ### Many calls -/

/-- Makes calls one after the other, whether they succeed or not. -/
def calls (e : Endpoint) : List Request → Session → List Reply × Session
  | [], s => ([], s)
  | r :: rs, s =>
    ((e.dispatch s r).1 :: (e.calls rs (e.dispatch s r).2).1, (e.calls rs (e.dispatch s r).2).2)

theorem calls_append (e : Endpoint) (rs rs' : List Request) (s : Session) :
    e.calls (rs ++ rs') s = ((e.calls rs s).1 ++ (e.calls rs' (e.calls rs s).2).1,
      (e.calls rs' (e.calls rs s).2).2) := by
  induction rs generalizing s with
  | nil => rfl
  | cons r rs ih => simp [calls, ih]

theorem length_calls (e : Endpoint) (rs : List Request) (s : Session) :
    (e.calls rs s).1.length = rs.length := by
  induction rs generalizing s with
  | nil => rfl
  | cons r rs ih => simp [calls, ih]

/-- Where a session stands in what its source says and its server answers: so often it has asked,
and these messages it has sent. -/
structure Stands (tokens : TokenSource) (answers : List Answer) (n : Nat) (ms : List Message)
    (s : Session) : Prop where
  asked : s.asked = n
  source : ∀ j, s.tokens.nth j = tokens.nth (n + j)
  reachable : s.network.reachable = true
  left : s.network.answers = answers.drop ms.length
  received : s.network.received = ms

section Run

variable {e : Endpoint} {r : Request} {s : Session} {tokens : TokenSource} {answers : List Answer}
  {n : Nat} {ms : List Message}

/-- A call makes its attempt with the next token and the next answer. -/
theorem Stands.attempt (hs : Stands tokens answers n ms s)
    (hu : (Url.ofText (e.join r.path)).isOk = true) :
    Attempt e r (answers.getD ms.length Network.emptySuccess) (tokens.nth n) (e.dispatch s r).1
      (e.messages r (tokens.nth n)) := by
  obtain ⟨hattempt, -⟩ := dispatch_attempt hu hs.reachable
  have htoken : s.tokens.current = tokens.nth n := hs.source 0
  have hnext : s.network.answers.headD Network.emptySuccess =
      answers.getD ms.length Network.emptySuccess := by
    rw [hs.left, List.headD_eq_head?_getD, List.head?_drop, List.getD_eq_getElem?_getD]
  rwa [htoken, hnext] at hattempt

/-- After a call the session stands one token further, and one answer if anything was sent. -/
theorem Stands.dispatch (hs : Stands tokens answers n ms s)
    (hu : (Url.ofText (e.join r.path)).isOk = true) :
    Stands tokens answers (n + 1) (ms ++ e.messages r (tokens.nth n)) (e.dispatch s r).2 := by
  obtain ⟨-, hsession⟩ := dispatch_attempt hu hs.reachable
  have htoken : s.tokens.current = tokens.nth n := hs.source 0
  rw [hsession, htoken]
  constructor
  · rw [hs.asked]
  · intro j
    rw [TokenSource.nth_ask, hs.source, Nat.add_right_comm, Nat.add_assoc]
  · rfl
  · rw [hs.left, List.drop_drop, List.length_append]
  · rw [hs.received]

end Run

theorem stands_start (tokens : TokenSource) (answers : List Answer) :
    Stands tokens answers 0 [] (Session.start tokens (.serving answers)) where
  asked := rfl
  source j := by rw [Nat.zero_add]; rfl
  reachable := rfl
  left := rfl
  received := rfl

def allMessages (e : Endpoint) (tokens : TokenSource) (rs : List Request) : List (List Message) :=
  rs.mapIdx fun i r => e.messages r (tokens.nth i)

theorem take_succ_allMessages {e : Endpoint} {tokens : TokenSource} {rs : List Request} {i : Nat}
    {r : Request} (hr : rs[i]? = some r) :
    (e.allMessages tokens rs).take (i + 1) =
      (e.allMessages tokens rs).take i ++ [e.messages r (tokens.nth i)] := by
  rw [List.take_add_one, allMessages, List.getElem?_mapIdx, hr]
  rfl

theorem calls_take_succ {e : Endpoint} {rs : List Request} {i : Nat} {r : Request}
    (hr : rs[i]? = some r) (s : Session) :
    e.calls (rs.take (i + 1)) s =
      ((e.calls (rs.take i) s).1 ++ [(e.dispatch (e.calls (rs.take i) s).2 r).1],
        (e.dispatch (e.calls (rs.take i) s).2 r).2) := by
  rw [List.take_add_one, hr, Option.toList_some, calls_append]
  rfl

/-- After some calls, what was asked and sent does not depend on how they ended. -/
theorem stands_calls {e : Endpoint} {rs : List Request}
    (hu : ∀ r ∈ rs, (Url.ofText (e.join r.path)).isOk = true) (tokens : TokenSource)
    (answers : List Answer) {i : Nat} (hi : i ≤ rs.length) :
    Stands tokens answers i ((e.allMessages tokens rs).take i).flatten
      (e.calls (rs.take i) (Session.start tokens (.serving answers))).2 := by
  induction i with
  | zero => exact stands_start tokens answers
  | succ i ih =>
    have hlt : i < rs.length := hi
    have hr : rs[i]? = some rs[i] := List.getElem?_eq_getElem hlt
    have hs := (ih (Nat.le_of_lt hlt)).dispatch (r := rs[i]) (hu _ (List.getElem_mem hlt))
    rw [take_succ_allMessages hr, calls_take_succ hr]
    simpa using hs

/-- The reply of a call is the one after the calls in front of it. -/
theorem getElem?_calls {e : Endpoint} {rs : List Request} {i : Nat} {r : Request}
    (hr : rs[i]? = some r) (s : Session) :
    (e.calls rs s).1[i]? = some (e.dispatch (e.calls (rs.take i) s).2 r).1 := by
  obtain ⟨hlt, -⟩ := List.getElem?_eq_some_iff.1 hr
  have hlength : (e.calls (rs.take i) s).1.length = i := by
    rw [length_calls, List.length_take_of_le (Nat.le_of_lt hlt)]
  have hsplit : e.calls rs s = e.calls (rs.take (i + 1) ++ rs.drop (i + 1)) s := by
    rw [List.take_append_drop]
  rw [hsplit, calls_append, calls_take_succ hr, List.append_assoc,
    List.getElem?_append_right (Nat.le_of_eq hlength), hlength, Nat.sub_self]
  rfl

/-- Each call asks once for a token and makes one attempt, with the next answer if it sends
anything. What is sent does not depend on answers at all, and what a call returns depends on its own
answer only. -/
theorem calls_attempt {e : Endpoint} {rs : List Request}
    (hu : ∀ r ∈ rs, (Url.ofText (e.join r.path)).isOk = true) (tokens : TokenSource) :
    ∃ sent : List (List Message), sent.length = rs.length ∧
      (∀ answers, ∀ i ≤ rs.length,
        (e.calls (rs.take i) (Session.start tokens (.serving answers))).2.asked = i ∧
        (e.calls (rs.take i) (Session.start tokens (.serving answers))).2.network.received =
          (sent.take i).flatten) ∧
      ∀ i r, rs[i]? = some r → ∃ ms, sent[i]? = some ms ∧
        (∀ answers, ∃ reply,
          (e.calls rs (Session.start tokens (.serving answers))).1[i]? = some reply ∧
          Attempt e r (answers.getD (sent.take i).flatten.length Network.emptySuccess)
            (tokens.nth i) reply ms) ∧
        ∀ answers answers' : List Answer,
          answers.getD (sent.take i).flatten.length Network.emptySuccess =
            answers'.getD (sent.take i).flatten.length Network.emptySuccess →
          (e.calls rs (Session.start tokens (.serving answers))).1[i]? =
            (e.calls rs (Session.start tokens (.serving answers'))).1[i]? := by
  refine ⟨e.allMessages tokens rs, by simp [allMessages], ?_, ?_⟩
  · intro answers i hi
    have hs := stands_calls hu tokens answers hi
    exact ⟨hs.asked, hs.received⟩
  · intro i r hr
    obtain ⟨hlt, -⟩ := List.getElem?_eq_some_iff.1 hr
    have hattempt : ∀ answers, ∃ reply,
        (e.calls rs (Session.start tokens (.serving answers))).1[i]? = some reply ∧
        Attempt e r (answers.getD ((e.allMessages tokens rs).take i).flatten.length
          Network.emptySuccess) (tokens.nth i) reply (e.messages r (tokens.nth i)) := by
      intro answers
      have hs := stands_calls hu tokens answers (Nat.le_of_lt hlt)
      exact ⟨_, getElem?_calls hr _, hs.attempt (hu r (List.mem_of_getElem? hr))⟩
    refine ⟨e.messages r (tokens.nth i), ?_, hattempt, ?_⟩
    · rw [allMessages, List.getElem?_mapIdx, hr]
      rfl
    · intro answers answers' hsame
      obtain ⟨reply, hreply, hone⟩ := hattempt answers
      obtain ⟨reply', hreply', hother⟩ := hattempt answers'
      rw [← hsame] at hother
      rw [hreply, hreply', (hone.unique hother).1]

/-- A call for which there is no token, one with a token, and one without any. -/
def threeCalls : List Request := [⟨.get, "/a", none⟩, ⟨.post, "b", some .null⟩, ⟨.get, "", none⟩]

def threeTokens : TokenSource := .ofList [.error (.auth "none"), .ok (some "t"), .ok none]

/-- An object for the first request that is sent, and a refusal for the second one. -/
def twoAnswers : List Answer :=
  [.response 201 (Text.Utf8.encode "\x7b\"id\":7\x7d".toList),
    .response 404 (Text.Utf8.encode "[\"gone\"]".toList)]

/-- An object with one member, by the grammar. -/
theorem isJsonBody_object :
    IsJsonBody (.object [("id", .int 7)]) (Text.Utf8.encode "\x7b\"id\":7\x7d".toList) := by
  have hkey : Json.SpellsString "\"id\"".toList "id" :=
    .intro (.cons (.plain (by decide) (by decide) (by decide))
      (.cons (.plain (by decide) (by decide) (by decide)) .nil))
  have hseven : Json.SpellsInt ['7'] 7 :=
    .natural ⟨⟨by decide, List.forall_mem_singleton.2 rfl⟩, by decide⟩ (by decide)
  exact ⟨_, rfl, .item (a := []) (b := []) nofun
    (.object (.lastMember (.member (a := []) (b := []) nofun hkey nofun
      (.item (a := []) (b := []) nofun (.int hseven) nofun)))) nofun⟩

theorem isJsonBody_array :
    IsJsonBody (.array [.string "gone"]) (Text.Utf8.encode "[\"gone\"]".toList) := by
  have hrender : Json.render (.array [.string "gone"]) = "[\"gone\"]".toList := by decide +kernel
  rw [← hrender]
  exact isJsonBody_render (.array (List.forall_mem_singleton.2 (.string "gone")))

/-- The call without a token takes no answer from the others. -/
theorem threeCalls_attempt :
    let ran := calls ⟨"http://h"⟩ threeCalls (Session.start threeTokens (.serving twoAnswers))
    (∀ r ∈ threeCalls, (Url.ofText (join ⟨"http://h"⟩ r.path)).isOk = true) ∧
    ran.1 = [.error (.auth "none"), .ok (.object [("id", .int 7)]),
      .error (.remote 404 (.array [.string "gone"]))] ∧
    ran.2.network.received =
      [⟨.post, "/b", some "Bearer t", some "application/json", some "null"⟩,
        ⟨.get, "/", none, none, none⟩] := by
  intro ran
  have hu : ∀ r ∈ threeCalls, (Url.ofText (join ⟨"http://h"⟩ r.path)).isOk = true := by
    decide +kernel
  obtain ⟨sent, -, hsent, hcalls⟩ := calls_attempt hu threeTokens
  -- The first call sends nothing, so that the two others consume the answers in order.
  have hnone : (sent.take 1).flatten = [] := by
    rw [← (hsent twoAnswers 1 (by decide)).2]
    decide +kernel
  have hone : (sent.take 2).flatten =
      [⟨.post, "/b", some "Bearer t", some "application/json", some "null"⟩] := by
    rw [← (hsent twoAnswers 2 (by decide)).2]
    decide +kernel
  refine ⟨hu, ?_, by decide +kernel⟩
  obtain ⟨_, -, hfirst, -⟩ := hcalls 0 _ rfl
  obtain ⟨_, -, hsecond, -⟩ := hcalls 1 _ rfl
  obtain ⟨_, -, hthird, -⟩ := hcalls 2 _ rfl
  obtain ⟨first, hfirst, hnoToken⟩ := hfirst twoAnswers
  obtain ⟨second, hsecond, hvalue⟩ := hsecond twoAnswers
  obtain ⟨third, hthird, hrefused⟩ := hthird twoAnswers
  rw [hnone] at hvalue
  rw [hone] at hrefused
  have hfirstReply : first = .error (.auth "none") := by
    cases hnoToken
    rfl
  have hsecondReply : second = .ok (.object [("id", .int 7)]) := by
    cases hvalue with
    | unsendable ht => exact absurd ht (by decide +kernel)
    | sent _ _ hr =>
      exact hr.unique (.value ⟨by decide, by decide⟩ ⟨'7'.toUInt8, by decide +kernel, by decide⟩
        isJsonBody_object)
  have hthirdReply : third = .error (.remote 404 (.array [.string "gone"])) := by
    cases hrefused with
    | sent _ _ hr => exact hr.unique (.refused (by decide) isJsonBody_array)
  have hlength : ran.1.length = 3 := length_calls _ _ _
  refine List.ext_getElem? fun i => ?_
  match i with
  | 0 => rw [hfirst, hfirstReply]; rfl
  | 1 => rw [hsecond, hsecondReply]; rfl
  | 2 => rw [hthird, hthirdReply]; rfl
  | i + 3 => rw [List.getElem?_eq_none (by omega)]; rfl

end Endpoint

end ResourceApi.Http
