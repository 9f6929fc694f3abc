import ResourceApi.Json.Printer
import ResourceApi.Json.Reader
import ResourceApi.Page.Basic

/-!
The envelope of a page in JSON. Absent parts are left out when a page is written, and a null part
reads as an absent one; only the items must be there.
-/

namespace ResourceApi.Page

variable {α : Type}

/-- The members of an envelope, in the order in which they are written. -/
def members : List String :=
  ["items", "totalCount", "offset", "limit", "first", "next", "previous"]

def toJson (item : α → Json) (p : Page α) : Json :=
  .object <|
    [("items", .array (p.items.map item))]
      ++ (p.totalCount.map fun n => ("totalCount", .int n.toNat)).toList
      ++ (p.offset.map fun n => ("offset", .int n.toInt)).toList
      ++ (p.limit.map fun n => ("limit", .int n.toInt)).toList
      ++ (p.first.map fun l => ("first", l.toJson)).toList
      ++ (p.next.map fun l => ("next", l.toJson)).toList
      ++ (p.previous.map fun l => ("previous", l.toJson)).toList

def items? (item : Json → Option α) : Json → Option (List α)
  | .array vs => vs.mapM item
  | _ => none

def word? (v : Json) : Option UInt64 := v.asUInt64?.map UInt64.ofNat

def signed? (v : Json) : Option Int64 := v.asInt64?.map Int64.ofInt

def ofJson? (item : Json → Option α) (v : Json) : Option (Page α) := do
  let present ← Json.record? members v
  let items ← Json.member? (items? item) "items" present
  let totalCount ← Json.optionalMember? word? "totalCount" present
  let offset ← Json.optionalMember? signed? "offset" present
  let limit ← Json.optionalMember? signed? "limit" present
  let first ← Json.optionalMember? Link.ofJson? "first" present
  let next ← Json.optionalMember? Link.ofJson? "next" present
  let previous ← Json.optionalMember? Link.ofJson? "previous" present
  some ⟨items, totalCount, offset, limit, first, next, previous⟩

/-- A page of JSON items from text. Members that an envelope does not have are not read. -/
def ofText? (s : String) : Option (Page Json) :=
  (Json.ofTextRestricted? members s).bind (ofJson? fun v => some v.merged)

end ResourceApi.Page
