import ResourceApi.Proofs.Client.Answers
import ResourceApi.Proofs.Client.Path

/-!
Where operations send their requests. An operation on a collection has one address: the path of the
collection without its final slashes, and behind it the id of a record or the name and parameters of
an action. All requests of an operation go there, with one exception: a new record is sent to the
path of the collection as it was given, final slashes included.
-/

namespace ResourceApi

variable {α : Type}

/-! ### Addresses -/

/-- What a call adds to the path of its collection, each part behind a slash. The name of an action
counts without the slashes around it. -/
def Call.part : Call → List Char
  | .list _ _ | .create _ => []
  | .get id _ | .update id _ | .patch id _ | .delete id => '/' :: Text.Percent.encode id.toList
  | .actionGet action params _ | .actionPost action params _ =>
    Path.behindSlash (Path.trim action.toList) ++
      params.flatMap fun p => '/' :: Text.Percent.encode p.toList

def Operation.part : Operation → List Char
  | .call c => c.part
  | .listAll _ _ => []

def Operation.address (resource : String) (op : Operation) : List Char :=
  Path.trimEnd resource.toList ++ op.part

/-- A request for an address: nothing follows the address but a query, so that it is the location of
the request, unless it has a question mark itself. -/
structure Request.IsFor (address : List Char) (r : Request) : Prop where
  written : ∃ query, r.path.toList = Path.withQuery address query
  location : '?' ∉ address → Path.location r.path.toList = address

/-- A path without a question mark, with a query behind it, is a request for that path. -/
theorem Request.isFor_of_written {address query : List Char} {r : Request}
    (h : r.path.toList = Path.withQuery address query) : r.IsFor address where
  written := ⟨query, h⟩
  location hmark := by rw [h, Path.location_withQuery hmark]

/-! ### Requests -/

namespace Call

theorem segments_params (params : List String) :
    Path.segments (params.map String.toList) =
      params.flatMap fun p => '/' :: Text.Percent.encode p.toList := by
  rw [Path.segments, List.flatMap_map]

/-- The path of a record: its collection, a slash, and the encoded id. -/
theorem toList_build_id (resource id query : String) :
    (Path.build resource [id] query).toList =
      Path.withQuery (Path.trimEnd resource.toList ++ '/' :: Text.Percent.encode id.toList)
        query.toList := by
  rw [Path.toList_build, segments_params, List.flatMap_singleton]

/-- The path of an action: its collection, the name of the action if there is one, and the encoded
parameters, each behind a slash. -/
theorem toList_build_action (resource action : String) (params : List String) (query : String) :
    (Path.build (actionPath resource action) params query).toList =
      Path.withQuery (Path.trimEnd resource.toList ++
        (Path.behindSlash (Path.trim action.toList) ++
          params.flatMap fun p => '/' :: Text.Percent.encode p.toList)) query.toList := by
  rw [Path.toList_build, segments_params, actionPath, String.toList_ofList,
    Path.trimEnd_append_name, List.append_assoc]

/-- Every call but the creation of a record is sent to the address of its operation. -/
theorem isFor_request (resource : String) (c : Call) (h : ∀ v, c ≠ .create v) :
    (c.request resource).IsFor (Operation.address resource (.call c)) := by
  cases c with
  | list criteria options => exact Request.isFor_of_written (Path.toList_build ..)
  | get id options => exact Request.isFor_of_written (toList_build_id ..)
  | create v => exact absurd rfl (h v)
  | update id v => exact Request.isFor_of_written (toList_build_id ..)
  | patch id v => exact Request.isFor_of_written (toList_build_id ..)
  | delete id => exact Request.isFor_of_written (toList_build_id ..)
  | actionGet action params options => exact Request.isFor_of_written (toList_build_action ..)
  | actionPost action params v => exact Request.isFor_of_written (toList_build_action ..)

/-- The path of a collection as it was given is its address if no slash ends it. -/
theorem isFor_request_create_iff (resource : String) (v : Json) :
    (request resource (.create v)).IsFor (Operation.address resource (.call (.create v))) ↔
      resource.toList.getLast? ≠ some '/' := by
  have haddress : Operation.address resource (.call (.create v)) = Path.trimEnd resource.toList :=
    List.append_nil _
  rw [haddress, ← Path.trimEnd_eq_self_iff]
  constructor
  · rintro ⟨⟨query, hpath⟩, -⟩
    obtain ⟨slashes, hsplit, hall⟩ :=
      Text.exists_trimEndBy_append Path.isSlash resource.toList
    rw [Path.withQuery] at hpath
    split at hpath
    · exact hpath.symm
    · have htail : slashes = '?' :: query := List.append_cancel_left (hsplit.symm.trans hpath)
      have hmark : Path.isSlash '?' = true := hall '?' (by rw [htail]; exact List.mem_cons_self)
      exact absurd hmark (by decide)
  · intro hself
    have hwritten : (request resource (.create v)).path.toList =
        Path.withQuery (Path.trimEnd resource.toList) [] := hself.symm
    exact Request.isFor_of_written hwritten

end Call

namespace Operation

variable (read : Json → Option α) (print : α → Json) (resource : String)

/-- A single call sends its request and no other. -/
theorem requests_run_call (c : Call) (requests : Nat) (replies : List Reply) :
    ((Operation.call c).run Script.answer read print resource requests
      (Script.start replies)).2.requests = [c.request resource] := by
  rw [run_call, Script.start, Collection.answer_eq]
  rfl

/-- A walk that may send a request sends one for a page, and then others. -/
theorem requests_run_listAll (criteria : Option Criteria) (options : Option RequestOptions)
    (requests : Nat) (replies : List Reply) :
    ∃ offsets : List Nat, offsets ≠ [] ∧
      ((Operation.listAll criteria options).run Script.answer read print resource (requests + 1)
        (Script.start replies)).2.requests =
        offsets.map fun k : Nat =>
          Collection.pageRequest resource (Compose.merge criteria options) k := by
  have hfirst : 0 ≤ Collection.startOffset (Compose.merge criteria options) := by
    rw [Collection.startOffset]
    omega
  obtain ⟨start, hstart⟩ := Int.eq_ofNat_of_zero_le hfirst
  have hask : ∀ k : Nat, Collection.pageRequest resource (Compose.merge criteria options) k =
      Collection.pageRequest resource (Compose.merge criteria options) k := fun _ => rfl
  obtain ⟨pages, last, hrun, hwalk⟩ :=
    Collection.exists_run read hask (requests + 1) start replies []
  refine ⟨Collection.offsets start pages last, ?_, ?_⟩
  · intro hempty
    have hlength := length_offsets start pages last
    rw [hempty, List.length_nil] at hlength
    cases last with
    | none =>
      have hcut := hrun.cut rfl
      omega
    | some x => simp at hlength
  · rw [run, Collection.listAll, hstart, Script.start, hwalk, List.nil_append]

/-- All requests of an operation are for its address, whatever they are answered; only a record that
is created goes to the path as it was given, which is the address if no slash ends it. -/
theorem run_isFor_address_iff (op : Operation) (requests : Nat) (replies : List Reply) :
    ∃ sent, (op.run Script.answer read print resource (requests + 1)
        (Script.start replies)).2.requests = sent ∧ sent ≠ [] ∧
      (∀ v, op = .call (.create v) → sent = [⟨.post, resource, some v⟩]) ∧
      ((∀ r ∈ sent, r.IsFor (op.address resource)) ↔
        ∀ v, op = .call (.create v) → resource.toList.getLast? ≠ some '/') := by
  refine ⟨_, rfl, ?_⟩
  cases op with
  | call c =>
    rw [requests_run_call]
    refine ⟨by simp, ?_, ?_⟩
    · rintro v ⟨⟩
      rfl
    · rw [List.forall_mem_singleton]
      by_cases hc : ∃ v, c = .create v
      · obtain ⟨v, rfl⟩ := hc
        rw [Call.isFor_request_create_iff]
        simp
      · have hother : ∀ v, c ≠ .create v := fun v hv => hc ⟨v, hv⟩
        simp [Call.isFor_request resource c hother, hother]
  | listAll criteria options =>
    obtain ⟨offsets, hne, hsent⟩ :=
      requests_run_listAll read print resource criteria options requests replies
    rw [hsent]
    refine ⟨by simpa using hne, by simp, ?_⟩
    have hall : ∀ k : Nat, Request.IsFor (address resource (.listAll criteria options))
        (Collection.pageRequest resource (Compose.merge criteria options) k) :=
      fun k => Request.isFor_of_written (Path.toList_build ..)
    simp [hall]

/-- At a path with a slash behind it, what is created does not go where the others are listed. -/
theorem create_keeps_final_slash :
    address "/items/" (.call (.create .null)) = "/items".toList ∧
    ((Operation.call (.create .null)).run Script.answer some id "/items/" 1
      (Script.start [])).2.requests.map (Path.location ·.path.toList) = ["/items/".toList] ∧
    ((Operation.call (.list none none)).run Script.answer some id "/items/" 1
      (Script.start [])).2.requests.map (Path.location ·.path.toList) = ["/items".toList] := by
  decide

end Operation

end ResourceApi
