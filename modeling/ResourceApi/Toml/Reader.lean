import ResourceApi.Toml.Lexeme

/-!
TOML text: values, lines and documents. Values nest to a bounded depth; an inline table is complete
where its brace closes. The first argument of the readers bounds their steps.
-/

namespace ResourceApi.Toml

open Lexeme

def inlineForm : TableForm := ⟨true, false, false⟩

def ofPairs? (pairs : List ((List String × String) × Toml)) : Option Toml :=
  pairs.foldlM (fun t p => addKey true p.1.1 p.1.2 p.2 t) (.table inlineForm [])

mutual

def readValue : Nat → (depth : Nat) → List Char → Option (Toml × List Char)
  | 0, _, _ => none
  | n + 1, depth, s => match s with
    | '[' :: rest =>
      if limit ≤ depth + 1 then none
      else (readItems n (depth + 1) rest).map fun (vs, rest) => (.array vs, rest)
    | '\x7b' :: rest =>
      if limit ≤ depth + 1 then none
      else match skipBlanks rest with
        | '\x7d' :: rest => some (.table inlineForm [], rest)
        | rest => do
          let (pairs, rest) ← readPairs n (depth + 1) rest
          let t ← ofPairs? pairs
          some (t, rest)
    | '"' :: _ => (Lexeme.string s).map fun (t, rest) => (.string (String.ofList t), rest)
    | '\'' :: _ => (Lexeme.string s).map fun (t, rest) => (.string (String.ofList t), rest)
    | 't' :: 'r' :: 'u' :: 'e' :: rest => some (.boolean true, rest)
    | 'f' :: 'a' :: 'l' :: 's' :: 'e' :: rest => some (.boolean false, rest)
    | _ => numberOrDate s

def readItems : Nat → (depth : Nat) → List Char → Option (List Toml × List Char)
  | 0, _, _ => none
  | n + 1, depth, s => do
    match ← skipLines false s with
    | ']' :: rest => some ([], rest)
    | rest =>
      let (v, rest) ← readValue n depth rest
      match ← skipLines false rest with
      | ']' :: rest => some ([v], rest)
      | ',' :: rest => (readItems n depth rest).map fun (vs, rest) => (v :: vs, rest)
      | _ => none

def readPairs : Nat → (depth : Nat) → List Char →
    Option (List ((List String × String) × Toml) × List Char)
  | 0, _, _ => none
  | n + 1, depth, s => do
    let (k, rest) ← key s
    match rest with
    | '=' :: rest =>
      let (v, rest) ← readValue n depth (skipBlanks rest)
      match skipBlanks rest with
      | '\x7d' :: rest => some ([(k, v)], rest)
      | ',' :: rest => (readPairs n depth rest).map fun (ps, rest) => ((k, v) :: ps, rest)
      | _ => none
    | _ => none

end

/-- One header or entry, to the end of its line. -/
def readLine (s : List Char) : Option (TomlLine × List Char) :=
  match s with
  | '[' :: '[' :: rest => do
    let ((path, k), rest) ← key rest
    match rest with
    | ']' :: ']' :: rest => (lineEnd false rest).map (.tables path k, ·)
    | _ => none
  | '[' :: rest => do
    let ((path, k), rest) ← key rest
    match rest with
    | ']' :: rest => (lineEnd false rest).map (.table path k, ·)
    | _ => none
  | s => do
    let ((path, k), rest) ← key s
    match rest with
    | '=' :: rest =>
      let (v, rest) ← readValue (2 * rest.length + 2) 0 (skipBlanks rest)
      (lineEnd false rest).map (.entry path k v, ·)
    | _ => none

def readLines : Nat → List Char → Option (List TomlLine)
  | 0, _ => none
  | n + 1, s => match skipBlanks s with
    | [] => some []
    | '\n' :: rest => readLines n rest
    | '\r' :: '\n' :: rest => readLines n rest
    | '#' :: rest => (lineEnd true rest).bind (readLines n)
    | rest => do
      let (line, rest) ← readLine rest
      (readLines n rest).map (line :: ·)

/-- A document; a byte order mark in front of it is not part of it. -/
def ofText? (s : String) : Option Toml :=
  let cs := match s.toList with
    | '\uFEFF' :: rest => rest
    | cs => cs
  (readLines (cs.length + 1) cs).bind ofLines?

end ResourceApi.Toml
