import ResourceApi.Json.Printer
import ResourceApi.Text.Blank

/-!
Sort orders: fields, and one direction for all of them. The canonical text lists the fields with
commas and adds `desc` for the descending direction; the ascending one is never written. Besides
this text a sort order has JSON forms: a flat array of fields and an optional direction, or an
array of fields inside an array with an optional direction beside it.
-/

namespace ResourceApi

inductive Direction where
  | asc | desc
  deriving DecidableEq, Repr

structure SortOrder where
  fields : List String
  direction : Direction
  deriving DecidableEq, Repr

inductive SortError where
  | unknownDirection (word : String)
  | noFields
  | emptyArray
  | fieldsAndDirection
  | fieldName (found : Json)
  | unsupported (found : Json)
  deriving Repr

def SortError.message : SortError → String
  | .unknownDirection word => "invalid sort: unknown sort direction `" ++ word ++ "`"
  | .noFields => "invalid sort: no sort fields"
  | .emptyArray => "invalid sort: empty sort array"
  | .fieldsAndDirection => "invalid sort: expected [fields, direction]"
  | .fieldName v => "invalid sort: expected a field name, got " ++ v.text
  | .unsupported v => "invalid sort: unsupported sort value " ++ v.text

def Direction.name : Direction → String
  | .asc => "asc"
  | .desc => "desc"

/-- Blanks around the word and the case of its ASCII letters do not matter. -/
def Direction.ofChars (s : List Char) : Except SortError Direction :=
  match String.ofList ((Text.trim s).map Char.toLower) with
  | "asc" => .ok .asc
  | "desc" => .ok .desc
  | word => .error (.unknownDirection word)

def Direction.ofText (s : String) : Except SortError Direction := ofChars s.toList

namespace SortOrder

def single (field : String) : SortOrder := ⟨[field], .asc⟩

def ofFields (fields : List String) : SortOrder := ⟨fields, .asc⟩

def withDirection (s : SortOrder) (d : Direction) : SortOrder := { s with direction := d }

/-- Fields, of which the last may be a direction unless it is the only one. -/
def ofTokens (tokens : List String) : Except SortError SortOrder :=
  match tokens with
  | [] => .error .noFields
  | [field] => .ok (single field)
  | _ => match tokens.getLast?.map Direction.ofText with
    | some (.ok d) => .ok ⟨tokens.dropLast, d⟩
    | _ => .ok (ofFields tokens)

/-- The parts between commas, without blanks around them and without empty ones. -/
def tokens (s : List Char) : List (List Char) :=
  ((s.splitOn ',').map Text.trim).filter fun t => !t.isEmpty

def ofText (s : String) : Except SortError SortOrder :=
  ofTokens ((tokens s.toList).map String.ofList)

def strings : List Json → Except SortError (List String)
  | [] => .ok []
  | .string s :: rest => do
    let more ← strings rest
    .ok (s :: more)
  | v :: _ => .error (.fieldName v)

def ofJson : Json → Except SortError SortOrder
  | .string s => ofText s
  | .array [] => .error .emptyArray
  | .array (.array list :: rest) => do
    let fields ← strings list
    match rest with
    | [] => .ok (ofFields fields)
    | [.string d] => do
      let d ← Direction.ofText d
      .ok ⟨fields, d⟩
    | _ => .error .fieldsAndDirection
  | .array items => do
    let tokens ← strings items
    ofTokens tokens
  | v => .error (.unsupported v)

/-- The fields, then `desc` if the direction is descending. -/
def words (s : SortOrder) : List String :=
  s.fields ++ match s.direction with
    | .asc => []
    | .desc => ["desc"]

def text (s : SortOrder) : String :=
  ",".intercalate s.fields ++ match s.direction with
    | .asc => ""
    | .desc => ",desc"

end SortOrder

end ResourceApi
