import ResourceApi.Json.Basic

/-!
Records in JSON: objects with known members, of which each may occur once, and arrays that give the
same members by position. Members beyond the known ones are passed over in an object and refused in
an array.
-/

namespace ResourceApi.Json

def record? (known : List String) : Json → Option (List (String × Json))
  | .object members =>
    let present := members.filter fun m => known.contains m.1
    if (Ordered.keys present).Nodup then some present else none
  | .array items => if items.length ≤ known.length then some (known.zip items) else none
  | _ => none

def optionalMember? {α : Type} (read : Json → Option α) (k : String)
    (members : List (String × Json)) : Option (Option α) :=
  match Ordered.get? k members with
  | none | some .null => some none
  | some v => (read v).map some

def member? {α : Type} (read : Json → Option α) (k : String) (members : List (String × Json)) :
    Option α :=
  (Ordered.get? k members).bind read

end ResourceApi.Json
