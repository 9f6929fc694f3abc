import ResourceApi.Options.Basic
import ResourceApi.Text.Percent

/-!
The query string of options. A parameter is a name and a list of values; names and values are
percent-encoded one by one, so that the `&`, `=` and `,` of the string are exactly its separators.
The order is fixed: the options by kind, then the further parameters in ascending order, without
those that bear the name of an option or are null.
-/

namespace ResourceApi

structure Parameter where
  name : String
  values : List String
  deriving DecidableEq, Repr

def Parameter.render (p : Parameter) : List Char :=
  Text.Percent.encode p.name.toList ++ '=' :: Text.Percent.encodeAll (p.values.map String.toList)

namespace RequestOptions

/-- A text parameter is its own value; another JSON value is written as JSON. -/
def extraValue? : Json → Option String
  | .null => none
  | .string s => some s
  | v => some v.text

def extraParameter? (m : String × Json) : Option Parameter :=
  if recognised.contains m.1 then none else (extraValue? m.2).map fun s => ⟨m.1, [s]⟩

def parameters (o : RequestOptions) : List Parameter :=
  (o.limit.map fun n => ⟨"limit", [toString n]⟩).toList
    ++ (o.offset.map fun n => ⟨"offset", [toString n]⟩).toList
    ++ (if o.fields.isEmpty then [] else [⟨"fields", o.fields⟩])
    ++ (match o.sort with
      | some s => if s.fields.isEmpty then [] else [⟨"sort", s.words⟩]
      | none => [])
    ++ (o.filter.map fun q => ⟨"q", [q]⟩).toList
    ++ (if o.count then [⟨"count", ["true"]⟩] else [])
    ++ (o.expandLevel.map fun l => ⟨"expandLevel", [l]⟩).toList
    ++ o.extra.entries.filterMap extraParameter?

def renderParameters (ps : List Parameter) : List Char :=
  ['&'].intercalate (ps.map Parameter.render)

def query (o : RequestOptions) : String := String.ofList (renderParameters o.parameters)

/-- No options have the empty query string. -/
def queryOf : Option RequestOptions → String
  | none => ""
  | some o => o.query

end RequestOptions

end ResourceApi
