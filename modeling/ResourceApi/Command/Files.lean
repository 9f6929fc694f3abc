import ResourceApi.Ordered

/-!
Files and folders as the commands see them: texts by path, relative to the folder in which a command
runs. A folder is there as soon as something is in it, or because it was made.
-/

namespace ResourceApi.Command

/-- The names on the way to a file or folder. -/
abbrev Route := List String

inductive FileError where
  | notFound
  | isFolder
  | notFolder
  | occupied
  deriving DecidableEq, Repr

def FileError.message : FileError → String
  | .notFound => "No such file or directory (os error 2)"
  | .isFolder => "Is a directory (os error 21)"
  | .notFolder => "Not a directory (os error 20)"
  | .occupied => "File exists (os error 17)"

/-- Goes on by one name; a dot stays where it is and two dots go back. -/
def Route.follow (route : Route) (name : String) : Route :=
  if name = "" ∨ name = "." then route
  else if name = ".." then route.dropLast
  else route ++ [name]

def Route.ofText (path : String) : Route :=
  ((path.toList.splitOn '/').map String.ofList).foldl Route.follow
    (if path.toList.head? = some '/' then ["/"] else [])

def Route.text (r : Route) : String := "/".intercalate r

structure Files where
  texts : List (Route × String)
  made : List Route
  deriving DecidableEq, Repr

namespace Files

def empty : Files := ⟨[], []⟩

def isBelow (r folder : Route) : Bool := folder.isPrefixOf r && folder.length < r.length

def isFile (f : Files) (r : Route) : Bool := (Ordered.get? r f.texts).isSome

def isFolder (f : Files) (r : Route) : Bool :=
  r = [] || r = ["/"] || f.made.any (r.isPrefixOf ·) || (Ordered.keys f.texts).any (isBelow · r)

def holds (f : Files) (r : Route) : Bool := f.isFile r || f.isFolder r

/-- Whether a file stands in the way of a route. -/
def isBlocked (f : Files) (r : Route) : Bool := (Ordered.keys f.texts).any (isBelow r ·)

def read (f : Files) (r : Route) : Except FileError String :=
  match Ordered.get? r f.texts with
  | some text => .ok text
  | none =>
    if f.isBlocked r then .error .notFolder
    else if f.isFolder r then .error .isFolder
    else .error .notFound

/-- Makes a folder and those that lead to it, as far as they are missing. -/
def makeFolder (f : Files) (r : Route) : Except FileError Files :=
  if f.isFolder r then .ok f
  else if f.isFile r then .error .occupied
  else if f.isBlocked r then .error .notFolder
  else .ok { f with made := f.made ++ [r] }

def write (f : Files) (r : Route) (text : String) : Except FileError Files :=
  if f.isBlocked r then .error .notFolder
  else if f.isFolder r then .error .isFolder
  else if f.isFolder r.dropLast then .ok { f with texts := Ordered.put r text f.texts }
  else .error .notFound

/-- What was created or changed since an earlier state. -/
def changes (before now : Files) : List (Route × String) :=
  now.texts.filter fun p => Ordered.get? p.1 before.texts ≠ some p.2

end Files

end ResourceApi.Command
