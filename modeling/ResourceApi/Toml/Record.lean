import ResourceApi.Toml.Basic

/-!
Reading typed data out of TOML. A record is a table with known keys, of which others are passed
over, or an array that gives its members by position; a word out of a fixed set is a text, or a
table with the word as its only key and nothing below it.
-/

namespace ResourceApi.Toml

def record? (known : List String) : Toml → Option (List (String × Toml))
  | .table _ entries => some (entries.filter fun m => known.contains m.1)
  | .array items => some (known.zip items)
  | .tables items => some (known.zip items)
  | _ => none

def string? : Toml → Option String
  | .string s => some s
  | _ => none

def bool? : Toml → Option Bool
  | .boolean b => some b
  | _ => none

def nat? : Toml → Option Nat
  | .integer n => if 0 ≤ n then some n.toNat else none
  | _ => none

def list? {α : Type} (read : Toml → Option α) : Toml → Option (List α)
  | .array items => items.mapM read
  | .tables items => items.mapM read
  | _ => none

def isEmpty : Toml → Bool
  | .array [] | .tables [] | .table _ [] => true
  | _ => false

def word? : Toml → Option String
  | .string s => some s
  | .table form ((k, v) :: rest) =>
    if isEmpty v && (rest.isEmpty || !form.inline) then some k else none
  | _ => none

def member? {α : Type} (read : Toml → Option α) (k : String) (members : List (String × Toml)) :
    Option α :=
  (Ordered.get? k members).bind read

def optionalMember? {α : Type} (read : Toml → Option α) (k : String)
    (members : List (String × Toml)) : Option (Option α) :=
  match Ordered.get? k members with
  | none => some none
  | some v => (read v).map some

end ResourceApi.Toml
