import ResourceApi.Client.Exchange

/-!
The network as a client sees it: requests go out, and each is answered by a status and a body or
not at all. A network either reaches its server, which then answers from a list that is given, or
reaches nothing; every request that was received is kept.
-/

namespace ResourceApi.Http

structure Message where
  method : Method
  /-- Path and query. -/
  target : String
  authorization : Option String
  contentType : Option String
  body : Option String
  deriving DecidableEq, Repr

inductive Answer where
  | response (status : Nat) (body : List UInt8)
  /-- The connection was closed without an answer. -/
  | dropped
  deriving DecidableEq, Repr

structure Network where
  reachable : Bool
  /-- What is answered in turn; after that every answer is a success without a body. -/
  answers : List Answer
  received : List Message
  deriving DecidableEq, Repr

namespace Network

def isolated : Network := ⟨false, [], []⟩

def serving (answers : List Answer) : Network := ⟨true, answers, []⟩

def emptySuccess : Answer := .response 200 []

/-- Sends a message; there is no answer where nothing is reached. -/
def send (n : Network) (m : Message) : Answer × Network :=
  if n.reachable then
    match n.answers with
    | [] => (emptySuccess, { n with received := n.received ++ [m] })
    | a :: rest => (a, { n with answers := rest, received := n.received ++ [m] })
  else (.dropped, n)

/-- As many requests as the answers that are left can keep a walk over pages going. -/
def budget (n : Network) : Nat := n.answers.length + 1

@[simp] theorem send_of_unreachable {n : Network} (h : n.reachable = false) (m : Message) :
    n.send m = (.dropped, n) := by
  simp [send, h]

end Network

end ResourceApi.Http
