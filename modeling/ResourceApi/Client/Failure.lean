import ResourceApi.Json.Printer

/-!
How a request can fail: without an answer, by an answer that refuses it, before it is sent, or
after it was answered because the answer has the wrong shape. Each failure has a message whose
first words say which of these it was.
-/

namespace ResourceApi

inductive Fault where
  /-- No request could be made of what was given. -/
  | unsendable
  | unanswered (url : String) (timedOut : Bool)
  deriving DecidableEq, Repr

inductive Failure where
  | transport (fault : Fault)
  | remote (status : Nat) (payload : Json)
  | encode (reason : String)
  | decode (reason : String)
  | config (reason : String)
  | auth (reason : String)
  deriving Repr

def Fault.message : Fault → String
  | .unsendable => "builder error"
  | .unanswered url _ => "error sending request for url (" ++ url ++ ")"

namespace Failure

def message : Failure → String
  | .transport f => "transport: " ++ f.message
  | .remote status payload => "HTTP " ++ toString status ++ ": " ++ payload.text
  | .encode reason => "encode: " ++ reason
  | .decode reason => "decode: " ++ reason
  | .config reason => "config: " ++ reason
  | .auth reason => "auth: " ++ reason

def status? : Failure → Option Nat
  | .remote status _ => some status
  | _ => none

def isTransport : Failure → Bool
  | .transport _ => true
  | _ => false

def isTimeout : Failure → Bool
  | .transport (.unanswered _ timedOut) => timedOut
  | _ => false

/-- The members in which a payload may say what went wrong, the first of them that holds a text
being the one that counts. -/
def messageKeys : List String := ["message", "error", "Message"]

/-- What the server says went wrong: the payload itself if it is a text. -/
def explanation? : Failure → Option String
  | .remote _ (.string s) => some s
  | .remote _ payload => messageKeys.findSome? fun k => (payload.get? k).bind Json.asString?
  | _ => none

end Failure

end ResourceApi
