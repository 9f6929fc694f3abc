import ResourceApi.Text.Blank

/-!
The names that a manifest may use. Resources are called like types, actions and parameters like
functions; a path consists of segments that need no encoding; a type is a path of identifiers with
type arguments to any depth.
-/

namespace ResourceApi.Name

def isWordChar (c : Char) : Bool := c.isAlphanum || c = '_'

def keywords : List String :=
  ["as", "async", "await", "break", "const", "continue", "crate", "dyn", "else", "enum", "extern",
    "false", "fn", "for", "if", "impl", "in", "let", "loop", "match", "mod", "move", "mut", "pub",
    "ref", "return", "self", "static", "struct", "super", "trait", "true", "type", "unsafe", "use",
    "where", "while"]

def isKeyword (s : String) : Bool := keywords.contains s

def isSnakeChar (c : Char) : Bool := c.isLower || c.isDigit || c = '_'

/-- Small letters, digits and underscores, not starting with a digit, and no keyword. -/
def isPlainName (s : String) : Bool :=
  match s.toList with
  | [] => false
  | c :: rest =>
    (c.isLower || c = '_') && rest.all isSnakeChar && s ≠ "_" && !isKeyword s

/-- A capital, then letters and digits. -/
def isCapitalised (s : String) : Bool :=
  match s.toList with
  | [] => false
  | c :: rest => c.isUpper && rest.all Char.isAlphanum

def isSegmentChar (c : Char) : Bool :=
  c.isAlphanum || c = '-' || c = '.' || c = '_' || c = '~'

def isPlain (s : List Char) : Bool := !s.isEmpty && s.all isSegmentChar

/-- A path segment of characters that need no encoding. -/
def isPlainSegment (s : String) : Bool := isPlain s.toList

/-- Segments with a slash in front of each. -/
def isCollectionPath (s : String) : Bool :=
  match s.toList with
  | '/' :: rest => (rest.splitOn '/').all isPlain
  | _ => false

def skipBlanks (s : List Char) : List Char := s.dropWhile Text.isBlank

def identifier? : List Char → Option (List Char)
  | [] => none
  | c :: rest => if c.isAlpha || c = '_' then some (rest.dropWhile isWordChar) else none

/-- Takes identifiers joined by double colons off the front, in so many steps at most. -/
def identifiers? : Nat → List Char → Option (List Char)
  | 0, _ => none
  | n + 1, s => match identifier? s with
    | some (':' :: ':' :: rest) => identifiers? n rest
    | other => other

mutual

/-- Takes a type off the front, with the blanks after it. -/
def type? : Nat → List Char → Option (List Char)
  | 0, _ => none
  | n + 1, s => do
    let rest ← identifiers? s.length s
    match skipBlanks rest with
    | '<' :: rest => arguments? n (skipBlanks rest)
    | rest => some rest

/-- Takes type arguments and the bracket after them off the front. -/
def arguments? : Nat → List Char → Option (List Char)
  | 0, _ => none
  | n + 1, s => do
    let rest ← type? n s
    match skipBlanks rest with
    | ',' :: rest => arguments? n (skipBlanks rest)
    | '>' :: rest => some rest
    | _ => none

end

/-- A type, with blanks around it. -/
def isTypeText (s : String) : Bool :=
  match type? (2 * s.length + 2) (skipBlanks s.toList) with
  | some rest => rest.all Text.isBlank
  | none => false

/-- Small letters, with an underscore in front of a capital that follows a small letter or a digit;
the flag says whether one came before. -/
def snakeFrom : Bool → List Char → List Char
  | _, [] => []
  | afterSmall, c :: rest =>
    if c.isUpper then
      let more := c.toLower :: snakeFrom false rest
      if afterSmall then '_' :: more else more
    else c :: snakeFrom (c.isLower || c.isDigit) rest

def snake (s : String) : String := String.ofList (snakeFrom false s.toList)

end ResourceApi.Name
