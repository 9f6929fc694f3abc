import ResourceApi.Client.Compose
import ResourceApi.Client.Exchange
import ResourceApi.Client.Path
import ResourceApi.Page.Envelope

/-!
Operations on one collection. Each is a single request, given by `Call.request`, whose value is then
read in the shape that the operation promises; failures of the dispatcher are passed on as they
are. Only the walk over all pages sends several requests.
-/

namespace ResourceApi

inductive Call where
  | list (criteria : Option Criteria) (options : Option RequestOptions)
  | get (id : String) (options : Option RequestOptions)
  | create (body : Json)
  | update (id : String) (body : Json)
  | patch (id : String) (body : Json)
  | delete (id : String)
  | actionGet (action : String) (params : List String) (options : Option RequestOptions)
  | actionPost (action : String) (params : List String) (body : Option Json)

namespace Call

/-- The path of an action: slashes at the joint count once. -/
def actionPath (resource action : String) : String :=
  String.ofList (Path.trimEnd resource.toList ++ '/' :: Path.trim action.toList)

/-- The request of an operation on the collection at a path. A new record is posted to the path as
it was given. -/
def request (resource : String) : Call → Request
  | .list criteria options =>
    ⟨.get, Path.build resource [] (Compose.merge criteria options).query, none⟩
  | .get id options => ⟨.get, Path.build resource [id] (RequestOptions.queryOf options), none⟩
  | .create body => ⟨.post, resource, some body⟩
  | .update id body => ⟨.put, Path.build resource [id] "", some body⟩
  | .patch id body => ⟨.patch, Path.build resource [id] "", some body⟩
  | .delete id => ⟨.delete, Path.build resource [id] "", none⟩
  | .actionGet action params options =>
    ⟨.get, Path.build (actionPath resource action) params (RequestOptions.queryOf options), none⟩
  | .actionPost action params body =>
    ⟨.post, Path.build (actionPath resource action) params "", body⟩

end Call

namespace Collection

variable {σ α : Type}

def decode (read : Json → Option α) (r : Request) : Reply → Except Failure α
  | .error e => .error e
  | .ok v => match read v with
    | some x => .ok x
    | none => .error (.decode (r.method.name ++ " " ++ r.path ++ ": unexpected shape"))

def send (dispatch : Dispatcher σ) (read : Json → Option α) (r : Request) (s : σ) :
    Except Failure α × σ :=
  let (reply, s) := dispatch s r
  (decode read r reply, s)

def record (dispatch : Dispatcher σ) (read : Json → Option α) (resource : String) (call : Call) :
    σ → Except Failure α × σ :=
  send dispatch read (call.request resource)

def list (dispatch : Dispatcher σ) (read : Json → Option α) (resource : String)
    (criteria : Option Criteria) (options : Option RequestOptions) :
    σ → Except Failure (Page α) × σ :=
  send dispatch (Page.ofJson? read) (Call.request resource (.list criteria options))

/-- Deletes a record; every value is an answer. -/
def delete (dispatch : Dispatcher σ) (resource id : String) : σ → Except Failure Unit × σ :=
  send dispatch (fun _ => some ()) (Call.request resource (.delete id))

def defaultPageSize : Int := 100

/-- A limit that is not positive asks for pages of the default size. -/
def pageSize (o : RequestOptions) : Int :=
  match o.limit with
  | some n => if 0 < n then n else defaultPageSize
  | none => defaultPageSize

def startOffset (o : RequestOptions) : Int := max 0 (o.offset.getD 0)

def pageRequest (resource : String) (o : RequestOptions) (offset : Int) : Request :=
  let o := { o with limit := some (pageSize o), offset := some offset }
  ⟨.get, Path.build resource [] o.query, none⟩

/-- Whether the walk goes on after a page: the page is not empty, and more follows by what the page
says or, where it says nothing, because it is full. -/
def goesOn (size offset : Int) (p : Page α) : Bool :=
  !p.items.isEmpty && (p.isFollowed offset).getD (decide ((p.items.length : Int) = size))

/-- Collects the items of the pages from an offset on, with at most so many requests; `none` if
more would be needed. Each page starts where the items received so far end, which is meant for
offsets that a signed word of 64 bits can hold. -/
def walk (dispatch : Dispatcher σ) (read : Json → Option α) (resource : String)
    (o : RequestOptions) : Nat → Int → σ → Option (Except Failure (List α)) × σ
  | 0, _, s => (none, s)
  | n + 1, offset, s =>
    match send dispatch (Page.ofJson? read) (pageRequest resource o offset) s with
    | (.error e, s) => (some (.error e), s)
    | (.ok p, s) =>
      if goesOn (pageSize o) offset p then
        match walk dispatch read resource o n (offset + p.items.length) s with
        | (some (.ok rest), s) => (some (.ok (p.items ++ rest)), s)
        | other => other
      else (some (.ok p.items), s)

/-- All records that meet the criteria, page by page. -/
def listAll (dispatch : Dispatcher σ) (read : Json → Option α) (resource : String)
    (criteria : Option Criteria) (options : Option RequestOptions) (requests : Nat) :
    σ → Option (Except Failure (List α)) × σ :=
  let o := Compose.merge criteria options
  walk dispatch read resource o requests (startOffset o)

end Collection

end ResourceApi
