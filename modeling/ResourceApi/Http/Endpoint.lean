import ResourceApi.Client.Path
import ResourceApi.Client.Settings
import ResourceApi.Http.Network
import ResourceApi.Http.Token
import ResourceApi.Text.Quoted
import ResourceApi.Url.Reader

/-!
Endpoints: a base URL under which requests are sent. Its scheme must be one of HTTP. A request
path is joined to the base with a single slash; a request is answered as the status says, and it is
made once, whatever the answer.
-/

namespace ResourceApi.Http

structure Endpoint where
  base : String
  deriving DecidableEq, Repr

namespace Endpoint

/-- The endpoint at a base URL, which is kept as it is given, without its final slashes. -/
def ofBaseUrl (url : String) : Except Failure Endpoint :=
  match Url.ofText url with
  | .error e => .error (.config ("invalid base URL " ++ Text.Quoted.quote url ++ ": " ++ e.message))
  | .ok u =>
    if u.isHttp then .ok ⟨Path.trimmed url⟩
    else .error (.config ("base URL must be http or https, got " ++ Text.Quoted.quote url))

/-- Base and path, with one slash between them unless the path is empty. -/
def join (e : Endpoint) (path : String) : String :=
  match path.toList.dropWhile Path.isSlash with
  | [] => e.base
  | rest => e.base ++ "/" ++ String.ofList rest

def isHeaderByte (b : UInt8) : Bool := b = 9 || (32 ≤ b && b ≠ 127)

def isHeaderText (s : String) : Bool := (Text.Utf8.encode s.toList).all isHeaderByte

/-- The message of a request, and the URL that it is sent to; none if the URL cannot be read or the
token cannot be the value of a header. -/
def message? (e : Endpoint) (token : Option String) (r : Request) : Option (Url × Message) := do
  let url ← (Url.ofText (e.join r.path)).toOption
  if token.any fun t => !isHeaderText t then none
  else
    let contentType := r.body.map fun _ => "application/json"
    some (url, ⟨r.method, String.ofList url.target, token.map ("Bearer " ++ ·), contentType,
      r.body.map Json.text⟩)

def isSpace (b : UInt8) : Bool := [9, 10, 12, 13, 32].contains b

def jsonOfBytes? (body : List UInt8) : Option Json := (Text.Utf8.decode body).bind Json.ofChars?

/-- What a refusal holds: JSON, or else its text as well as it can be read. -/
def payload (body : List UInt8) : Json :=
  (jsonOfBytes? body).getD (.string (String.ofList (Text.Utf8.decodeLossy body)))

/-- The value of a response. A success without a body has the value null. -/
def reply (status : Nat) (body : List UInt8) : Reply :=
  if status < 200 ∨ 300 ≤ status then .error (.remote status (payload body))
  else if body.all isSpace then .ok .null
  else match jsonOfBytes? body with
    | some v => .ok v
    | none => .error (.decode "response body: not a JSON text")

/-- How a URL is shown in messages: without the user in it. -/
def shown (u : Url) : String := { u with user := none }.text

structure Session where
  tokens : TokenSource
  /-- How often the source of tokens was asked. -/
  asked : Nat
  network : Network

def Session.start (tokens : TokenSource) (network : Network) : Session := ⟨tokens, 0, network⟩

def dispatch (e : Endpoint) : Dispatcher Session := fun s r =>
  let (token, tokens) := s.tokens.ask
  let s := { s with tokens := tokens, asked := s.asked + 1 }
  match token with
  | .error failure => (.error failure, s)
  | .ok token => match e.message? token r with
    | none => (.error (.transport .unsendable), s)
    | some (url, m) => match s.network.send m with
      | (.dropped, n) =>
        (.error (.transport (.unanswered (shown url) false)), { s with network := n })
      | (.response status body, n) => (reply status body, { s with network := n })

end Endpoint

end ResourceApi.Http
