import ResourceApi.Json.Record

/-!
One page of a collection: its items, and what the server says about where the page lies. Numbers
are words of 64 bits, as in the envelope. Whether more items follow is told by the total count if
there is one, else by a next link if there is one, and else not at all.
-/

namespace ResourceApi

inductive Link where
  | object (href : String)
  | url (href : String)
  deriving DecidableEq, Repr

structure Page (α : Type) where
  items : List α
  totalCount : Option UInt64
  offset : Option Int64
  limit : Option Int64
  first : Option Link
  next : Option Link
  previous : Option Link
  deriving DecidableEq, Repr

namespace Link

def href : Link → String
  | .object s => s
  | .url s => s

def toJson : Link → Json
  | .object s => .object [("href", .string s)]
  | .url s => .string s

/-- An object with one `href`, or a text. -/
def ofJson? : Json → Option Link
  | .string s => some (.url s)
  | .object members => do
    let present ← Json.record? ["href"] (.object members)
    let s ← Json.member? Json.asString? "href" present
    some (.object s)
  | _ => none

end Link

namespace Page

variable {α : Type}

/-- How many items there are up to the end of this page, which was asked for at an offset. The
number is a word, and the largest one where it would go beyond; offsets below zero count as zero. -/
def reached (p : Page α) (requested : Int) : UInt64 :=
  let offset := max 0 ((p.offset.map Int64.toInt).getD requested)
  UInt64.ofNatClamp (offset.toNat + p.items.length)

/-- Whether items follow this page, which was asked for at an offset; nothing is known without a
total count and a next link. -/
def isFollowed (p : Page α) (requested : Int) : Option Bool :=
  match p.totalCount with
  | some total => some (decide (p.reached requested < total))
  | none => p.next.map fun _ => true

theorem ofNatClamp_lt_iff (n : Nat) (w : UInt64) : UInt64.ofNatClamp n < w ↔ n < w.toNat := by
  have hw := w.toNat_lt_size
  rw [UInt64.lt_iff_toNat_lt]
  by_cases hn : n < UInt64.size
  · rw [UInt64.toNat_ofNatClamp_of_lt hn]
  · rw [UInt64.toNat_ofNatClamp_of_le (Nat.le_of_not_lt hn)]
    omega

/-- Words compare as the numbers they stand for, also where the largest one stands for more. -/
theorem reached_lt_iff (p : Page α) (requested : Int) (total : UInt64) :
    p.reached requested < total ↔
      max 0 ((p.offset.map Int64.toInt).getD requested) + p.items.length < (total.toNat : Int) := by
  rw [reached, ofNatClamp_lt_iff]
  omega

end Page

end ResourceApi
