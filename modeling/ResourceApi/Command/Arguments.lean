/-!
Command-line arguments. What a command takes is described by its options, the number of its
positional arguments, and its subcommands; reading goes once through the arguments and refuses the
line as a whole at anything that the description does not cover. An option is given by its long
name or by a letter, and its value stands behind an equals sign, behind the letter, or in the next
argument, where it must not look like an option itself. Two hyphens end the options.
-/

namespace ResourceApi.Command

inductive OptionKind where
  | flag
  | value
  /-- A value that may be a negative number. -/
  | number
  /-- A value that must not be empty. -/
  | path
  deriving DecidableEq, Repr

structure OptionSpec where
  name : String
  letter : Option Char
  kind : OptionKind
  /-- Whether it may be given more than once. -/
  repeated : Bool
  deriving DecidableEq, Repr

namespace OptionSpec

def flag (name : String) : OptionSpec := ⟨name, none, .flag, false⟩
def value (name : String) : OptionSpec := ⟨name, none, .value, false⟩
def number (name : String) : OptionSpec := ⟨name, none, .number, false⟩
def path (name : String) : OptionSpec := ⟨name, none, .path, false⟩

def withLetter (o : OptionSpec) (c : Char) : OptionSpec := { o with letter := some c }

def withRepetition (o : OptionSpec) : OptionSpec := { o with repeated := true }

def accepts (o : OptionSpec) (value : String) : Bool := !(o.kind = .path && value.isEmpty)

end OptionSpec

structure CommandSpec where
  options : List OptionSpec
  positionals : Nat
  subcommands : List String
  deriving DecidableEq, Repr

structure Reading where
  /-- Options in the order in which they were given, flags with an empty value. -/
  options : List (String × String)
  positionals : List String
  /-- The subcommand, with the arguments that are left to it. -/
  subcommand : Option (String × List String)
  deriving DecidableEq, Repr

namespace Reading

def empty : Reading := ⟨[], [], none⟩

def values (r : Reading) (name : String) : List String :=
  r.options.filterMap fun p => if p.1 = name then some p.2 else none

def value? (r : Reading) (name : String) : Option String := (r.values name).head?

def has (r : Reading) (name : String) : Bool := (r.value? name).isSome

def addOption (r : Reading) (name value : String) : Reading :=
  { r with options := (name, value) :: r.options }

def addPositional (r : Reading) (text : String) : Reading :=
  { r with positionals := text :: r.positionals }

end Reading

inductive Argument where
  | long (name : String) (value : Option String)
  | letters (cs : List Char)
  | endOfOptions
  | plain
  deriving DecidableEq, Repr

def splitValue (s : List Char) : String × Option String :=
  match s.dropWhile (· != '=') with
  | [] => (String.ofList s, none)
  | _ :: value => (String.ofList (s.takeWhile (· != '=')), some (String.ofList value))

/-- A single hyphen is plain text. -/
def Argument.ofText (s : String) : Argument :=
  match s.toList with
  | ['-', '-'] => .endOfOptions
  | '-' :: '-' :: rest =>
    let (name, value) := splitValue rest
    .long name value
  | '-' :: c :: rest => .letters (c :: rest)
  | _ => .plain

def isNegativeNumber (s : String) : Bool :=
  match s.toList with
  | '-' :: c :: rest => (c :: rest).all Char.isDigit
  | _ => false

namespace CommandSpec

def long? (c : CommandSpec) (name : String) : Option OptionSpec :=
  c.options.find? (·.name == name)

def letter? (c : CommandSpec) (letter : Char) : Option OptionSpec :=
  c.options.find? (·.letter = some letter)

/-- Whether an argument can be the value of the option in front of it. -/
def canFollow (o : OptionSpec) (s : String) : Bool :=
  o.accepts s && (Argument.ofText s = .plain || (o.kind = .number && isNegativeNumber s))

/-- What a cluster of letters gives: its options, and the last one if it still needs a value. -/
def cluster? (c : CommandSpec) : List Char → Option (List (String × String) × Option OptionSpec)
  | [] => some ([], none)
  | letter :: rest => do
    let o ← c.letter? letter
    if o.kind = .flag then
      let (given, waiting) ← cluster? c rest
      some ((o.name, "") :: given, waiting)
    else match rest with
      | [] => some ([], some o)
      | '=' :: value =>
        if o.accepts (String.ofList value) then some ([(o.name, String.ofList value)], none)
        else none
      | value => some ([(o.name, String.ofList value)], none)

/-- Reads arguments in turn, the first of them being the value of an option that waits for one;
`none` if the line cannot be understood. -/
def readFrom (c : CommandSpec) : Option OptionSpec → List String → Option Reading
  | none, [] => some .empty
  | some _, [] => none
  | some o, arg :: rest =>
    if canFollow o arg then (readFrom c none rest).map (·.addOption o.name arg) else none
  | none, arg :: rest =>
    if c.subcommands.contains arg then some { Reading.empty with subcommand := some (arg, rest) }
    else match Argument.ofText arg with
      | .endOfOptions => some { Reading.empty with positionals := rest }
      | .plain => (readFrom c none rest).map (·.addPositional arg)
      | .long name given => do
        let o ← c.long? name
        match o.kind, given with
        | .flag, none => (readFrom c none rest).map (·.addOption name "")
        | .flag, some _ => none
        | _, some v =>
          if o.accepts v then (readFrom c none rest).map (·.addOption name v) else none
        | _, none => readFrom c (some o) rest
      | .letters letters => do
        let (given, waiting) ← c.cluster? letters
        let r ← readFrom c waiting rest
        some { r with options := given ++ r.options }

def countsAgree (c : CommandSpec) (r : Reading) : Bool :=
  c.options.all fun o => o.repeated || (r.values o.name).length ≤ 1

/-- Reads the arguments of a command. A command with subcommands needs one of them. -/
def read (c : CommandSpec) (args : List String) : Option Reading := do
  let r ← c.readFrom none args
  if c.countsAgree r && r.positionals.length ≤ c.positionals
      && (c.subcommands.isEmpty || r.subcommand.isSome) then some r
  else none

end CommandSpec

end ResourceApi.Command
