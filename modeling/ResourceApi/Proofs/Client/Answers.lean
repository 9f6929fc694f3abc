import ResourceApi.Client.Operation
import ResourceApi.Proofs.Client.PagingRule

/-!
What operations make of the answers to their requests. A failure ends an operation as it is, and
nothing is sent after it. A value counts for what it says, and only a value that does not have the
expected shape makes a failure of decoding.
-/

namespace ResourceApi

variable {σ α β : Type}

/-! ### One answer -/

namespace Collection

/-- A value is decoded just if the reply is one, and has the shape that is read. -/
theorem decode_eq_ok {read : Json → Option α} {r : Request} {reply : Reply} {x : α} :
    decode read r reply = .ok x ↔ ∃ v, reply = .ok v ∧ read v = some x := by
  cases reply with
  | error e => simp [decode]
  | ok v => cases h : read v <;> simp [decode, h]

theorem decode_of_none {read : Json → Option α} {v : Json} (h : read v = none) (r : Request) :
    decode read r (.ok v) =
      .error (.decode (r.method.name ++ " " ++ r.path ++ ": unexpected shape")) := by
  simp [decode, h]

theorem map_decode (read : Json → Option α) (r : Request) (reply : Reply) (f : α → β) :
    (decode read r reply).map f = decode (fun v => (read v).map f) r reply := by
  cases reply with
  | error e => rfl
  | ok v => cases h : read v <;> simp [decode, h, Except.map]

end Collection

namespace Operation

def body : Operation → Option Json
  | .call (.create v) => some v
  | .call (.update _ v) => some v
  | .call (.patch _ v) => some v
  | .call (.actionPost _ _ v) => v
  | _ => none

/-- What an operation gives for the values that answer its requests, if each has the shape that it
expects. The value that answers a deletion may have any. -/
def value? (read : Json → Option α) (print : α → Json) : Operation → List Json → Option Json
  | .call (.list _ _), [v] => (Page.ofJson? read v).map (Page.toJson print)
  | .call (.delete _), [_] => some .null
  | .call _, [v] => (read v).map print
  | .call _, _ => none
  | .listAll _ _, vs =>
    (vs.mapM (Page.ofJson? read)).map fun pages =>
      .array ((pages.flatMap Page.items).map print)

/-- How an operation conveys the answers to the requests that it sent. -/
structure Conveys (read : Json → Option α) (print : α → Json) (resource : String)
    (op : Operation) (sent : List Request) (answers : List Reply)
    (result : Option (Except Failure Json)) : Prop where
  single : ∀ c, op = .call c → sent = [c.request resource] ∧ result ≠ none
  body : ∀ r ∈ sent, r.body = op.body
  failure : ∀ k e, answers[k]? = some (.error e) →
    result = some (.error e) ∧ sent.length = k + 1
  values : ∀ vs, answers = vs.map .ok → ∀ x ∈ result,
    (∃ v, x = .ok v ∧ op.value? read print vs = some v) ∨
      ∃ v reason, x = .error (.decode reason) ∧ vs.getLast? = some v ∧
        op.value? read print [v] = none
  deletion : ∀ id v, op = .call (.delete id) → answers = [.ok v] → result = some (.ok .null)

def answers (replies : List Reply) (n : Nat) : List Reply :=
  (List.range n).map fun k => replies.getD k (.ok .null)

@[simp] theorem length_answers (replies : List Reply) (n : Nat) :
    (answers replies n).length = n := by
  simp [answers]

theorem answers_cons (replies : List Reply) (n : Nat) :
    answers replies (n + 1) = replies.getD 0 (.ok .null) :: answers replies.tail n := by
  rw [answers, List.range_succ_eq_map, List.map_cons, List.map_map]
  cases replies <;> simp [answers, Function.comp_def]

theorem answers_succ (replies : List Reply) (n : Nat) :
    answers replies (n + 1) = answers replies n ++ [replies.getD n (.ok .null)] := by
  simp [answers, List.range_succ]

variable {read : Json → Option α} {print : α → Json} {resource : String}

/-! ### Answers up to the first that ends an operation -/

/-- In front of the last reply there are values only, so a failure is the last one. -/
theorem eq_last_of_failure {vs : List Json} {reply : Reply} {k : Nat} {e : Failure}
    (h : (vs.map Except.ok ++ [reply])[k]? = some (.error e)) :
    reply = .error e ∧ k = vs.length := by
  rcases Nat.lt_trichotomy k vs.length with hk | rfl | hk
  · rw [List.getElem?_append_left (by simpa using hk)] at h
    simp [hk] at h
  · exact ⟨by simpa using h, rfl⟩
  · rw [List.getElem?_eq_none (by simp; omega)] at h
    cases h

/-- If all replies are values, so is the last one. -/
theorem eq_append_of_values {vs vs' : List Json} {reply : Reply}
    (h : vs.map Except.ok ++ [reply] = vs'.map Except.ok) :
    ∃ v, reply = .ok v ∧ vs' = vs ++ [v] := by
  obtain ⟨front, back, rfl, hfront, hback⟩ := List.append_eq_map_iff.1 h
  obtain ⟨v, rfl, hv⟩ := List.map_eq_singleton_iff.1 hback
  have hinj : Function.Injective (Except.ok : Json → Reply) := fun _ _ => Except.ok.inj
  exact ⟨v, hv.symm, by rw [hinj.list_map hfront]⟩

/-- An operation that ends with its last answer, after values only, conveys its answers. -/
theorem conveys_of_last {op : Operation} {sent : List Request} {vs : List Json} {reply : Reply}
    {x : Except Failure Json}
    (hsingle : ∀ c, op = .call c → sent = [c.request resource])
    (hbody : ∀ r ∈ sent, r.body = op.body) (hlength : sent.length = vs.length + 1)
    (herror : ∀ e, reply = .error e → x = .error e)
    (hvalue : ∀ v, reply = .ok v → (∃ w, x = .ok w ∧ op.value? read print (vs ++ [v]) = some w) ∨
      ∃ reason, x = .error (.decode reason) ∧ op.value? read print [v] = none) :
    op.Conveys read print resource sent (vs.map .ok ++ [reply]) (some x) where
  single c hc := ⟨hsingle c hc, by simp⟩
  body := hbody
  failure k e h := by
    obtain ⟨hreply, rfl⟩ := eq_last_of_failure h
    exact ⟨congrArg some (herror e hreply), hlength⟩
  values vs' h := by
    rintro y ⟨⟩
    obtain ⟨v, hreply, rfl⟩ := eq_append_of_values h
    rcases hvalue v hreply with hdone | ⟨reason, hx, hshape⟩
    · exact .inl hdone
    · exact .inr ⟨v, reason, hx, by simp, hshape⟩
  deletion id v hop h := by
    have hone : vs.map Except.ok ++ [reply] = [v].map Except.ok := h
    obtain ⟨u, hreply, hvs⟩ := eq_append_of_values hone
    obtain ⟨rfl, rfl⟩ : vs = [] ∧ u = v := by simpa [List.singleton_eq_append_iff] using hvs
    subst hop
    rcases hvalue u hreply with ⟨w, rfl, hw⟩ | ⟨-, -, hshape⟩
    · exact congrArg (some ∘ Except.ok) (Option.some.inj hw).symm
    · cases hshape

/-! ### Operations that send one request -/

/-- A single call decodes its answer, in whatever way its answers are read. -/
theorem run_call (dispatch : Dispatcher σ) (read : Json → Option α) (print : α → Json)
    (resource : String) (requests : Nat) (c : Call) (s : σ) :
    (Operation.call c).run dispatch read print resource requests s =
      (some (Collection.decode (fun v => (Operation.call c).value? read print [v])
          (c.request resource) (dispatch s (c.request resource)).1),
        (dispatch s (c.request resource)).2) := by
  cases c with
  | list criteria options =>
    simp only [run, settled, Collection.list, Collection.send, Collection.map_decode]
    rfl
  | delete id =>
    simp only [run, settled, Collection.delete, Collection.send, Collection.map_decode]
    rfl
  | _ =>
    simp only [run, settled, Collection.record, Collection.send, Collection.map_decode]
    rfl

/-- A single call conveys its one answer. -/
theorem conveys_of_single (c : Call) (reply : Reply) :
    (Operation.call c).Conveys read print resource [c.request resource] [reply]
      (some (Collection.decode (fun v => (Operation.call c).value? read print [v])
        (c.request resource) reply)) := by
  have hbody : (c.request resource).body = (Operation.call c).body := by
    cases c <;> rfl
  show (Operation.call c).Conveys read print resource [c.request resource]
    (([] : List Json).map Except.ok ++ [reply]) _
  refine conveys_of_last (by simp) (by simpa using hbody) rfl ?_ ?_
  · rintro e rfl
    rfl
  · rintro v rfl
    cases hshape : (Operation.call c).value? read print [v] with
    | some w => exact .inl ⟨w, Collection.decode_eq_ok.2 ⟨v, rfl, hshape⟩, hshape⟩
    | none => exact .inr ⟨_, Collection.decode_of_none hshape _, rfl⟩

/-! ### The walk -/

/-- The pages that a run goes on from are those that its answers say. -/
theorem exists_values {ask : Nat → Request} {size : Int} {replies : List Reply} {start n : Nat}
    {pages : List (Page α)} {last : Option (Except Failure (Page α))}
    (h : Collection.IsRun read ask size replies start n pages last) :
    ∃ vs : List Json, answers replies pages.length = vs.map .ok ∧
      vs.mapM (Page.ofJson? read) = some pages := by
  induction pages generalizing replies start n with
  | nil => exact ⟨[], rfl, rfl⟩
  | cons p pages ih =>
    obtain ⟨⟨hfirst, -⟩, htail⟩ := Collection.isRun_tail h
    obtain ⟨v, hv, hread⟩ := Collection.decode_eq_ok.1 hfirst
    obtain ⟨vs, hvs, hpages⟩ := ih htail
    refine ⟨v :: vs, ?_, by simp [hread, hpages]⟩
    rw [List.length_cons, answers_cons, hv, hvs, List.map_cons]

/-- If every answer is a page, the value of a walk is the list of all their items. -/
theorem value?_listAll {criteria : Option Criteria} {options : Option RequestOptions}
    {vs : List Json} {pages : List (Page α)} (h : vs.mapM (Page.ofJson? read) = some pages) :
    (Operation.listAll criteria options).value? read print vs =
      some (.array ((Collection.itemsOf pages).map print)) := by
  simp [value?, h, Collection.itemsOf]

/-- The page with which a run ends, or the failure, is what its last answer says. -/
theorem conveys_of_ended {criteria : Option Criteria} {options : Option RequestOptions}
    {sent : List Request} {r : Request} {vs : List Json} {reply : Reply} {pages : List (Page α)}
    (hbody : ∀ r ∈ sent, r.body = none) (hlength : sent.length = vs.length + 1)
    (hpages : vs.mapM (Page.ofJson? read) = some pages) :
    (Operation.listAll criteria options).Conveys read print resource sent
      (vs.map .ok ++ [reply])
      (some (((Collection.decode (Page.ofJson? read) r reply).map fun p =>
        Collection.itemsOf (pages ++ [p])).map fun items => .array (items.map print))) := by
  refine conveys_of_last (by simp) hbody hlength ?_ ?_
  · rintro e rfl
    rfl
  · rintro v rfl
    cases hv : Page.ofJson? read v with
    | none =>
      rw [Collection.decode_of_none hv]
      exact .inr ⟨_, rfl, by simp [value?, hv]⟩
    | some p =>
      have hdecode : Collection.decode (Page.ofJson? read) r (.ok v) = .ok p :=
        Collection.decode_eq_ok.2 ⟨v, rfl, hv⟩
      rw [hdecode]
      exact .inl ⟨_, rfl, value?_listAll (by simp [List.mapM_append, hpages, hv])⟩

theorem length_offsets (start : Nat) (pages : List (Page α))
    (last : Option (Except Failure (Page α))) :
    (Collection.offsets start pages last).length = pages.length + last.toList.length := by
  simp [Collection.offsets]

/-- A run that is cut off has been answered with values only. -/
theorem conveys_of_cut {criteria : Option Criteria} {options : Option RequestOptions}
    {sent : List Request} (vs : List Json) (hbody : ∀ r ∈ sent, r.body = none) :
    (Operation.listAll criteria options).Conveys read print resource sent (vs.map .ok) none where
  single := by simp
  body := hbody
  failure k e h := by
    obtain ⟨v, -, hv⟩ := Option.map_eq_some_iff.1 (List.getElem?_map .. ▸ h)
    cases hv
  values := by simp
  deletion := by simp

/-- What a run comes to conveys the answers to its requests. -/
theorem conveys_of_run {criteria : Option Criteria} {options : Option RequestOptions}
    {ask : Nat → Request} {size : Int} {replies : List Reply} {start n : Nat}
    {pages : List (Page α)} {last : Option (Except Failure (Page α))}
    (h : Collection.IsRun read ask size replies start n pages last)
    (hask : ∀ k, (ask k).body = none) :
    (Operation.listAll criteria options).Conveys read print resource
      ((Collection.offsets start pages last).map ask)
      (answers replies (Collection.offsets start pages last).length)
      ((Collection.outcome pages last).map fun x =>
        x.map fun items => .array (items.map print)) := by
  obtain ⟨vs, hvs, hpages⟩ := exists_values h
  have hlength : vs.length = pages.length := by simpa using (congrArg List.length hvs).symm
  have hbody : ∀ r ∈ (Collection.offsets start pages last).map ask, r.body = none := by
    simpa using fun k _ => hask k
  rw [length_offsets]
  cases last with
  | none =>
    rw [Option.toList_none, List.length_nil, Nat.add_zero, hvs]
    exact conveys_of_cut vs hbody
  | some x =>
    obtain ⟨-, rfl, -⟩ := h.ends x rfl
    rw [Option.toList_some, List.length_singleton, answers_succ, hvs]
    refine conveys_of_ended hbody ?_ hpages
    rw [List.length_map, length_offsets, hlength]
    rfl

/-- Listing all pages is a run of the script. -/
theorem exists_run_listAll (read : Json → Option α) (print : α → Json) (resource : String)
    (criteria : Option Criteria) (options : Option RequestOptions) (requests : Nat)
    (replies : List Reply) :
    ∃ (ask : Nat → Request) (start : Nat) (pages : List (Page α))
      (last : Option (Except Failure (Page α))), (∀ k, (ask k).body = none) ∧
        Collection.IsRun read ask (Collection.pageSize (Compose.merge criteria options)) replies
          start requests pages last ∧
        (Operation.listAll criteria options).run Script.answer read print resource requests
            (Script.start replies) =
          ((Collection.outcome pages last).map fun x => x.map fun items => .array (items.map print),
            ⟨replies.drop (Collection.offsets start pages last).length,
              (Collection.offsets start pages last).map ask⟩) := by
  have hfirst : 0 ≤ Collection.startOffset (Compose.merge criteria options) := by
    rw [Collection.startOffset]
    omega
  obtain ⟨start, hstart⟩ := Int.eq_ofNat_of_zero_le hfirst
  let ask (k : Nat) : Request :=
    Collection.pageRequest resource (Compose.merge criteria options) k
  have hask : ∀ k : Nat,
      Collection.pageRequest resource (Compose.merge criteria options) k = ask k := fun _ => rfl
  obtain ⟨pages, last, hrun, hwalk⟩ := Collection.exists_run read hask requests start replies []
  refine ⟨ask, start, pages, last, fun _ => rfl, hrun, ?_⟩
  rw [run, Collection.listAll, hstart, Script.start, hwalk, List.nil_append]

/-- Whatever a script answers, each operation conveys its answers: a failure as it is and at once,
and values for what they say. A single call sends one request; a walk lacks a result only if it may
send no more. -/
theorem run_conveys_answers (read : Json → Option α) (print : α → Json) (resource : String)
    (op : Operation) (requests : Nat) (replies : List Reply) :
    ∃ result sent,
      op.run Script.answer read print resource requests (Script.start replies) =
          (result, ⟨replies.drop sent.length, sent⟩) ∧
        op.Conveys read print resource sent (answers replies sent.length) result ∧
        (result = none → sent.length = requests ∧
          ∃ vs : List Json, answers replies sent.length = vs.map .ok) ∧
        (replies.length < requests → result ≠ none) := by
  cases op with
  | call c =>
    refine ⟨_, [c.request resource], ?_, conveys_of_single c (replies.getD 0 (.ok .null)),
      by simp, by simp⟩
    rw [run_call, Script.start, Collection.answer_eq]
    simp
  | listAll criteria options =>
    obtain ⟨ask, start, pages, last, hask, hrun, hresult⟩ :=
      exists_run_listAll read print resource criteria options requests replies
    have hlength : ((Collection.offsets start pages last).map ask).length =
        (Collection.offsets start pages last).length := List.length_map ..
    refine ⟨_, _, by rw [hresult, hlength], ?_, ?_, ?_⟩
    · rw [hlength]
      exact conveys_of_run hrun hask
    · intro hnone
      obtain rfl : last = none := by simpa [Collection.outcome] using hnone
      obtain ⟨vs, hvs, -⟩ := exists_values hrun
      have hpages : (Collection.offsets start pages none).length = pages.length :=
        length_offsets start pages none
      rw [hlength, hpages]
      exact ⟨hrun.cut rfl, vs, hvs⟩
    · intro enough
      simpa [Collection.outcome] using Collection.last_ne_none hrun enough

end Operation

end ResourceApi
