import ResourceApi.Text.Blank
import ResourceApi.Text.Percent

/-!
Request paths: a resource without its final slashes, one encoded segment after each further slash,
and a query string after a question mark if there is one.
-/

namespace ResourceApi.Path

def isSlash (c : Char) : Bool := c = '/'

def trimEnd (s : List Char) : List Char := Text.trimEndBy isSlash s

def trimmed (s : String) : String := String.ofList (trimEnd s.toList)

def trim (s : List Char) : List Char := Text.trimBy isSlash s

def segments (ss : List (List Char)) : List Char :=
  ss.flatMap fun s => '/' :: Text.Percent.encode s

def withQuery (path query : List Char) : List Char :=
  if query.isEmpty then path else path ++ '?' :: query

def build (resource : String) (ss : List String) (query : String) : String :=
  String.ofList <|
    withQuery (trimEnd resource.toList ++ segments (ss.map String.toList)) query.toList

end ResourceApi.Path
