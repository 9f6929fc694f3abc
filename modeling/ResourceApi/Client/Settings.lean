import ResourceApi.Json.Reader
import ResourceApi.Json.Record
import ResourceApi.Json.Printer

/-!
Settings of a connection: the base URL, a bearer token unless requests are anonymous, and the time
that a request may take. In JSON the time is in whole seconds.
-/

namespace ResourceApi

structure Settings where
  baseUrl : String
  token : Option String
  timeoutMillis : Nat
  deriving DecidableEq, Repr

namespace Settings

def defaultSeconds : Nat := 30

def ofBaseUrl (url : String) : Settings := ⟨url, none, 1000 * defaultSeconds⟩

def withToken (s : Settings) (token : String) : Settings := { s with token := some token }

def withTimeoutMillis (s : Settings) (n : Nat) : Settings := { s with timeoutMillis := n }

def members : List String := ["base_url", "token", "timeout_secs"]

/-- The base URL must be there; a null token is none, but a null time is no time. -/
def ofJson? (v : Json) : Option Settings := do
  let present ← Json.record? members v
  let url ← Json.member? Json.asString? "base_url" present
  let token ← Json.optionalMember? Json.asString? "token" present
  let seconds ← match Ordered.get? "timeout_secs" present with
    | none => some defaultSeconds
    | some v => v.asUInt64?
  some ⟨url, token, 1000 * seconds⟩

def ofText? (s : String) : Option Settings := (Json.ofTextRestricted? members s).bind ofJson?

/-- An absent token is left out, and the time is rounded down to seconds. -/
def toJson (s : Settings) : Json :=
  .object <|
    [("base_url", .string s.baseUrl)]
      ++ (s.token.map fun t => ("token", .string t)).toList
      ++ [("timeout_secs", .int (s.timeoutMillis / 1000 : Nat))]

end Settings

end ResourceApi
