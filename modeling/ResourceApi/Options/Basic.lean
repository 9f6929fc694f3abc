import ResourceApi.Ascending
import ResourceApi.Json.Reader
import ResourceApi.Options.Sort

/-!
Options of a request: paging, projection, sort, a filter text, and further parameters by name. They
are read from a JSON object whose known members have fixed types and whose other members are the
further parameters, kept in ascending order.
-/

namespace ResourceApi

structure RequestOptions where
  fields : List String
  sort : Option SortOrder
  limit : Option Int
  offset : Option Int
  filter : Option String
  count : Bool
  expandLevel : Option String
  extra : Ascending Json

namespace RequestOptions

def default : RequestOptions := ⟨[], none, none, none, none, false, none, .empty⟩

def recognised : List String :=
  ["limit", "offset", "fields", "sort", "q", "count", "expandLevel"]

def withParameter (o : RequestOptions) (name : String) (value : Json) : RequestOptions :=
  { o with extra := o.extra.insert name value }

def strings? : Json → Option (List String)
  | .array items => items.mapM Json.asString?
  | _ => none

/-- An absent member and a null one both stand for no value. -/
def optional? {α : Type} (read : Json → Option α) : Option Json → Option (Option α)
  | none | some .null => some none
  | some v => (read v).map some

/-- An absent member stands for a default, but a null one is a value like others. -/
def orDefault? {α : Type} (d : α) (read : Json → Option α) : Option Json → Option α
  | none => some d
  | some v => read v

def sort? (v : Json) : Option SortOrder := (SortOrder.ofJson v).toOption

/-- Reads the members of an object; a recognised name may occur once, any other one may be
repeated and then has its last value. -/
def ofMembers? (members : List (String × Json)) : Option RequestOptions := do
  let isKnown (m : String × Json) : Bool := recognised.contains m.1
  let known := members.filter isKnown
  let extra := members.filter fun m => !isKnown m
  if ¬(Ordered.keys known).Nodup then none
  let get (k : String) := (Ordered.get? k known).map Json.merged
  let fields ← orDefault? [] strings? (get "fields")
  let sort ← optional? sort? (get "sort")
  let limit ← optional? Json.asInt64? (get "limit")
  let offset ← optional? Json.asInt64? (get "offset")
  let filter ← optional? Json.asString? (get "q")
  let count ← orDefault? false Json.asBool? (get "count")
  let expandLevel ← optional? Json.asString? (get "expandLevel")
  some ⟨fields, sort, limit, offset, filter, count, expandLevel,
    .ofPairs (extra.map fun m => (m.1, m.2.merged))⟩

def ofJson? : Json → Option RequestOptions
  | .object members => ofMembers? members
  | _ => none

def ofText? (s : String) : Option RequestOptions := (Json.ofTextRaw? s).bind ofJson?

end RequestOptions

end ResourceApi
