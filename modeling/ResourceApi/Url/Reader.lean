import ResourceApi.Url.Basic

/-!
Reading URLs. The text is cut from the outside in: blanks at the ends, the scheme, the fragment,
the query, the authority, and the path segment by segment. Much that is odd is mended on the way
(slashes after the scheme of the web may be missing or too many or turned around, and dots in
the path are resolved); refused are texts without a scheme, without a host where the scheme needs
one, with a host that can be none, and with anything but a small number behind the host.
-/

namespace ResourceApi

inductive UrlError where
  | noScheme
  | noHost
  | badHost
  | badNumber
  deriving DecidableEq, Repr

def UrlError.message : UrlError → String
  | .noScheme => "there is no scheme"
  | .noHost => "there is no host"
  | .badHost => "the host is not valid"
  | .badNumber => "the number behind the host is not valid"

namespace Url

def isIgnored (c : Char) : Bool := c = '\t' || c = '\n' || c = '\r'

/-- The text that counts: controls and spaces at the ends do not, nor do tabs and line ends. -/
def counting (s : List Char) : List Char :=
  (Text.trimBy (fun c => c.toNat ≤ 0x20) s).filter fun c => !isIgnored c

def isSchemeChar (c : Char) : Bool := c.isAlphanum || c = '+' || c = '-' || c = '.'

def takeScheme (s : List Char) : Option (List Char × List Char) :=
  match s.takeWhile isSchemeChar, s.dropWhile isSchemeChar with
  | c :: scheme, ':' :: rest =>
    if c.isAlpha then some ((c :: scheme).map Char.toLower, rest) else none
  | _, _ => none

def cut (p : Char → Bool) (s : List Char) : List Char × List Char :=
  (s.takeWhile fun c => !p c, s.dropWhile fun c => !p c)

def after (mark : Char) : List Char → Option (List Char)
  | [] => none
  | c :: rest => if c = mark then some rest else none

/-- In the schemes of the web both slashes separate. -/
def isSlash (web : Bool) (c : Char) : Bool := c = '/' || (web && c = '\\')

/-- The text behind the last at sign is the host with its number. -/
def splitUser (s : List Char) : Option (List Char) × List Char :=
  let host := (s.reverse.takeWhile (· != '@')).reverse
  if host.length = s.length then (none, s)
  else (some (s.take (s.length - host.length - 1)), host)

/-- Cuts at the first colon outside brackets; the flag says whether the text is inside. -/
def splitNumber : Bool → List Char → List Char × Option (List Char)
  | _, [] => ([], none)
  | inside, c :: rest =>
    if c = ':' && !inside then ([], some rest)
    else
      let stillInside := c = '[' || (inside && c != ']')
      let (host, number) := splitNumber stillInside rest
      (c :: host, number)

/-- The number behind a host; an empty one and the usual one of the scheme are none. -/
def readNumber (scheme : List Char) : Option (List Char) → Except UrlError (Option Nat)
  | none | some [] => .ok none
  | some ds =>
    match Text.Digit.number? 10 ds with
    | none => .error .badNumber
    | some n =>
      if 65535 < n then .error .badNumber
      else .ok (if usualNumber? scheme = some n then none else some n)

/-- A user name and a password, which the first colon separates; none if both are empty. -/
def userText (s : List Char) : Option (List Char) :=
  let (name, rest) := cut (· = ':') s
  let password := (after ':' rest).filter fun p => !p.isEmpty
  let text := escape escapedInUser name ++ marked ':' (password.map (escape escapedInUser))
  if text.isEmpty then none else some text

def isSingleDot (s : List Char) : Bool :=
  [['.'], ['%', '2', 'e']].contains (s.map Char.toLower)

def isDoubleDot (s : List Char) : Bool :=
  [['.', '.'], ['.', '%', '2', 'e'], ['%', '2', 'e', '.'],
    ['%', '2', 'e', '%', '2', 'e']].contains (s.map Char.toLower)

/-- Resolves the dots among segments, the innermost segment so far being the first of `done`. A
dot in the last segment leaves an empty one in its place. -/
def resolve : (done : List (List Char)) → List (List Char) → List (List Char)
  | done, [] => done.reverse
  | done, s :: rest =>
    if isDoubleDot s then
      resolve (if rest.isEmpty then [] :: done.drop 1 else done.drop 1) rest
    else if isSingleDot s then resolve (if rest.isEmpty then [] :: done else done) rest
    else resolve (escape escapedInPath s :: done) rest

/-- A path whose segments are resolved, each behind a slash. -/
def pathText (web : Bool) (s : List Char) : List Char :=
  (resolve [] (s.splitOnP (isSlash web))).flatMap ('/' :: ·)

/-- The path of a URL with a host; in the schemes of the web it is never empty. -/
def readPath (web : Bool) : List Char → List Char
  | [] => if web then ['/'] else []
  | c :: rest => if isSlash web c then pathText web rest else pathText web (c :: rest)

/-- A host with user and number, and the path behind it. -/
def withAuthority (scheme s : List Char) (query fragment : Option (List Char)) :
    Except UrlError Url := do
  let web := isWebScheme scheme
  let (front, rest) := cut (isSlash web) s
  let (user, hostNumber) := splitUser front
  let (hostText, numberText) := splitNumber false hostNumber
  if hostText.isEmpty && (web || user.isSome || numberText.isSome) then .error .noHost
  else match Host.ofText? web hostText with
    | none => .error .badHost
    | some host => do
      let p ← readNumber scheme numberText
      .ok ⟨scheme, user.bind userText, some host, p, readPath web rest, query, fragment⟩

def isDriveLetter : List Char → Bool
  | [c, ':'] | [c, '|'] => c.isAlpha
  | _ => false

/-- A file: its host may be empty, and one that looks like a drive belongs to the path. -/
def ofFile (s : List Char) (query fragment : Option (List Char)) : Except UrlError Url :=
  let here (p : List Char) : Url :=
    ⟨"file".toList, none, some (.other []), none, readPath true (if p.isEmpty then ['/'] else p),
      query, fragment⟩
  match s with
  | c :: d :: rest =>
    if isSlash true c && isSlash true d then
      let (hostText, more) := cut (isSlash true) rest
      if hostText.isEmpty then .ok (here more)
      else if isDriveLetter hostText then .ok (here rest)
      else match Host.ofText? true hostText with
        | none => .error .badHost
        | some h =>
          if h = .name "localhost".toList then .ok (here more)
          else .ok { here more with host := some h }
    else .ok (here s)
  | _ => .ok (here s)

/-- What a scheme does not give a host is a path, or text of its own kind. -/
def withoutAuthority (scheme s : List Char) (query fragment : Option (List Char)) : Url :=
  let text := match s with
    | '/' :: rest => pathText false rest
    | _ => escape isControl s
  ⟨scheme, none, none, none, text, query, fragment⟩

def ofChars (s : List Char) : Except UrlError Url :=
  match takeScheme (counting s) with
  | none => .error .noScheme
  | some (scheme, rest) =>
    let web := isWebScheme scheme
    let (rest, fragment) := cut (· = '#') rest
    let (rest, query) := cut (· = '?') rest
    let file := scheme = "file".toList
    let query := (after '?' query).map (escape (escapedInQuery (web || file)))
    let fragment := (after '#' fragment).map (escape escapedInFragment)
    if web then withAuthority scheme (rest.dropWhile (isSlash true)) query fragment
    else if file then ofFile rest query fragment
    else match rest with
      | '/' :: '/' :: rest => withAuthority scheme rest query fragment
      | _ => .ok (withoutAuthority scheme rest query fragment)

def ofText (s : String) : Except UrlError Url := ofChars s.toList

end Url

end ResourceApi
