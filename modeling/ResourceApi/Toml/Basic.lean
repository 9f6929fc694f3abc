import ResourceApi.Ordered

/-!
TOML documents as trees. A table remembers how it came to be, because the format allows some tables
to be opened again and others not: a table that a header or a dotted key only passed through is
implicit, one that a dotted key created is dotted, and one that was written in braces is inline and
closed. Doubles and dates are read but carry no value here: nothing in this library uses one.
-/

namespace ResourceApi

structure TableForm where
  inline : Bool
  dotted : Bool
  implicit : Bool
  deriving DecidableEq, Repr

inductive Toml where
  | string (value : String)
  | integer (value : Int)
  | float
  | boolean (value : Bool)
  | datetime
  | array (items : List Toml)
  /-- The tables of headers in double brackets. -/
  | tables (items : List Toml)
  | table (form : TableForm) (entries : List (String × Toml))
  deriving Repr

namespace Toml

instance : Inhabited Toml := ⟨.datetime⟩

def headed : TableForm := ⟨false, false, false⟩

/-- Changes the table at the end of a path, creating the tables on the way. A dotted path passes
only through tables that were created on the way to others, and no path leads from headers into an
inline table. Of tables in double brackets the last one is meant. -/
def modifyAt (inline dotted : Bool) (change : Toml → Option Toml) :
    List String → Toml → Option Toml
  | [], t => change t
  | k :: path, .table form entries => do
    let child := (Ordered.get? k entries).getD (.table ⟨inline, dotted, true⟩ [])
    let child ← match child with
      | .table f es =>
        if f.inline ≠ inline || (dotted && !f.implicit) then none
        else modifyAt inline dotted change path (.table f es)
      | .tables items => do
        let last ← items.getLast?
        let last ← modifyAt inline dotted change path last
        some (.tables (items.dropLast ++ [last]))
      | _ => none
    some (.table form (Ordered.put k child entries))
  | _ :: _, _ => none

/-- Adds an entry that must be new. A dotted path must end in a table made by dotted keys. -/
def addEntry (viaPath : Bool) (k : String) (v : Toml) : Toml → Option Toml
  | .table form entries =>
    if form.dotted ≠ viaPath || (Ordered.get? k entries).isSome then none
    else some (.table form (Ordered.put k v entries))
  | _ => none

def addKey (inline : Bool) (path : List String) (k : String) (v : Toml) : Toml → Option Toml :=
  modifyAt inline (!path.isEmpty) (addEntry (!path.isEmpty) k v) path

def openTable (k : String) : Toml → Option Toml
  | .table form entries => match Ordered.get? k entries with
    | none => some (.table form (Ordered.put k (.table headed []) entries))
    | some (.table f es) =>
      if f.inline || f.dotted || !f.implicit then none
      else some (.table form (Ordered.put k (.table headed es) entries))
    | some _ => none
  | _ => none

def openTables (k : String) : Toml → Option Toml
  | .table form entries => match Ordered.get? k entries with
    | none => some (.table form (Ordered.put k (.tables [.table headed []]) entries))
    | some (.tables items) =>
      some (.table form (Ordered.put k (.tables (items ++ [.table headed []])) entries))
    | some _ => none
  | _ => none

end Toml

inductive TomlLine where
  | table (path : List String) (key : String)
  | tables (path : List String) (key : String)
  | entry (path : List String) (key : String) (value : Toml)
  deriving Repr

namespace Toml

/-- The root, and the path of the table that entries go to. -/
structure Building where
  root : Toml
  current : List String

def Building.start : Building := ⟨.table headed [], []⟩

def Building.step (b : Building) : TomlLine → Option Building
  | .table path k =>
    (modifyAt false false (openTable k) path b.root).map fun root => ⟨root, path ++ [k]⟩
  | .tables path k =>
    (modifyAt false false (openTables k) path b.root).map fun root => ⟨root, path ++ [k]⟩
  | .entry path k v =>
    (modifyAt false false (addKey false path k v) b.current b.root).map fun root =>
      ⟨root, b.current⟩

def ofLines? (lines : List TomlLine) : Option Toml :=
  (lines.foldlM Building.step Building.start).map Building.root

end Toml

end ResourceApi
