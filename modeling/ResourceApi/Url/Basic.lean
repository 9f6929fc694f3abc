import ResourceApi.Url.Host

/-!
URLs by their parts. Paths, queries and fragments are kept in escaped form, a path with the slash
that it starts with; the number behind the host is absent if it is the one that the scheme has
anyway.
-/

namespace ResourceApi

structure Url where
  scheme : List Char
  user : Option (List Char)
  host : Option Url.Host
  portNumber : Option Nat
  path : List Char
  query : Option (List Char)
  fragment : Option (List Char)
  deriving DecidableEq, Repr

namespace Url

/-- A part in front of which a mark stands, if it is there. -/
def marked (mark : Char) : Option (List Char) → List Char
  | none => []
  | some s => mark :: s

def authority (u : Url) : List Char :=
  match u.host with
  | none => []
  | some h =>
    '/' :: '/' :: (u.user.map (· ++ ['@'])).getD [] ++ h.text
      ++ marked ':' (u.portNumber.map (Nat.toDigits 10))

def target (u : Url) : List Char := u.path ++ marked '?' u.query

def render (u : Url) : List Char :=
  u.scheme ++ ':' :: u.authority ++ u.target ++ marked '#' u.fragment

def text (u : Url) : String := String.ofList u.render

def isWebScheme (scheme : List Char) : Bool :=
  ["http", "https", "ws", "wss", "ftp"].contains (String.ofList scheme)

def usualNumber? (scheme : List Char) : Option Nat :=
  match String.ofList scheme with
  | "http" | "ws" => some 80
  | "https" | "wss" => some 443
  | "ftp" => some 21
  | _ => none

def isHttp (u : Url) : Bool := ["http", "https"].contains (String.ofList u.scheme)

end Url

end ResourceApi
