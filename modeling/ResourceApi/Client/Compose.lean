import ResourceApi.Filter.Compile
import ResourceApi.Options.Query

/-!
Criteria and options in one request. A filter that the options hold already is grouped and joined
in front of the compiled criteria, so that none of its alternatives reaches beyond it. Without
compiled criteria it stays as it is.
-/

namespace ResourceApi.Compose

/-- Follows a text from a depth of parentheses on, outside or inside a quoted literal; true when
the first parenthesis that brings the depth back to zero is the last character. -/
def closesAtEnd : (depth : Nat) → (quoted : Bool) → List Char → Bool
  | _, _, [] => false
  | depth, quoted, c :: rest =>
    if c = '\'' then closesAtEnd depth (!quoted) rest
    else if quoted then closesAtEnd depth quoted rest
    else if c = '(' then closesAtEnd (depth + 1) quoted rest
    else if c = ')' then
      if depth - 1 = 0 then rest.isEmpty else closesAtEnd (depth - 1) quoted rest
    else closesAtEnd depth quoted rest

/-- Whether a text is one group: the parenthesis that opens it closes at its end. -/
def isEnclosed : List Char → Bool
  | '(' :: rest => closesAtEnd 1 false rest
  | _ => false

/-- Trims a filter and puts it in parentheses, unless it is blank or one group already. -/
def enclose (q : List Char) : List Char :=
  let t := Text.trim q
  if t.isEmpty || isEnclosed t then t else '(' :: t ++ [')']

/-- The options of a request for the records that meet the criteria. -/
def merge (criteria : Option Criteria) (options : Option RequestOptions) : RequestOptions :=
  let merged := options.getD .default
  match criteria.bind Filter.compile with
  | none => merged
  | some filter =>
    let existing := merged.filter.map fun q => String.ofList (enclose q.toList)
    { merged with filter := Filter.join (existing.toList ++ [filter]) }

end ResourceApi.Compose
