import ResourceApi.Decimal.Reading
import ResourceApi.Filter.Clause
import ResourceApi.Text.Blank

/-!
The language of filters, as a grammar over tokens. A comparison is a column, an operator and a
literal; `and` binds tighter than `or`, and parentheses hold a whole filter, to any depth. Blanks
separate tokens and mean nothing else. Nothing here looks at how a filter is compiled.
-/

namespace ResourceApi.Filter

inductive Expression where
  | compare (comparison : Comparison)
  | and (left right : Expression)
  | or (left right : Expression)
  deriving DecidableEq, Repr

namespace Expression

/-- The truth of a filter, given that of its comparisons. -/
def Holds (I : Comparison → Prop) : Expression → Prop
  | .compare c => I c
  | .and a b => a.Holds I ∧ b.Holds I
  | .or a b => a.Holds I ∨ b.Holds I

def comparisons : Expression → List Comparison
  | .compare c => [c]
  | .and a b | .or a b => a.comparisons ++ b.comparisons

/-- The parts of a conjunction, in the order of its text; whatever is none is one part. -/
def conjuncts : Expression → List Expression
  | .compare c => [.compare c]
  | .and a b => a.conjuncts ++ b.conjuncts
  | .or a b => [.or a b]

/-- The conjunction of at least one expression, nested to the right. -/
def allOf : Expression → List Expression → Expression
  | e, [] => e
  | e, f :: more => .and e (allOf f more)

def anyOf : Expression → List Expression → Expression
  | e, [] => e
  | e, f :: more => .or e (anyOf f more)

@[simp] theorem holds_compare (I : Comparison → Prop) (c : Comparison) :
    (compare c).Holds I ↔ I c := Iff.rfl
@[simp] theorem holds_and (I : Comparison → Prop) (a b : Expression) :
    (and a b).Holds I ↔ a.Holds I ∧ b.Holds I := Iff.rfl
@[simp] theorem holds_or (I : Comparison → Prop) (a b : Expression) :
    (or a b).Holds I ↔ a.Holds I ∨ b.Holds I := Iff.rfl

/-- A filter holds if all parts of its conjunction hold. -/
theorem holds_iff_conjuncts (I : Comparison → Prop) (e : Expression) :
    e.Holds I ↔ ∀ x ∈ e.conjuncts, x.Holds I := by
  induction e with
  | compare c => simp [conjuncts]
  | and a b iha ihb => simp only [conjuncts, holds_and, iha, ihb, List.forall_mem_append]
  | or a b => simp [conjuncts]

/-- A nested conjunction holds if all its members do. -/
theorem holds_allOf (I : Comparison → Prop) (e : Expression) (more : List Expression) :
    (allOf e more).Holds I ↔ ∀ f ∈ e :: more, f.Holds I := by
  induction more generalizing e with
  | nil => simp [allOf]
  | cons f more ih => simp [allOf, ih f]

/-- A nested alternative holds if one of its members does. -/
theorem holds_anyOf (I : Comparison → Prop) (e : Expression) (more : List Expression) :
    (anyOf e more).Holds I ↔ ∃ f ∈ e :: more, f.Holds I := by
  induction more generalizing e with
  | nil => simp [anyOf]
  | cons f more ih => simp [anyOf, ih f]

theorem comparisons_allOf (e : Expression) (more : List Expression) :
    (allOf e more).comparisons = (e :: more).flatMap comparisons := by
  induction more generalizing e with
  | nil => simp [allOf]
  | cons f more ih => simp [allOf, comparisons, ih f]

theorem conjuncts_allOf (e : Expression) (more : List Expression) :
    (allOf e more).conjuncts = (e :: more).flatMap conjuncts := by
  induction more generalizing e with
  | nil => simp [allOf]
  | cons f more ih => simp [allOf, conjuncts, ih f]

theorem comparisons_anyOf (e : Expression) (more : List Expression) :
    (anyOf e more).comparisons = (e :: more).flatMap comparisons := by
  induction more generalizing e with
  | nil => simp [anyOf]
  | cons f more ih => simp [anyOf, comparisons, ih f]

end Expression

inductive Token where
  | opening
  | closing
  | word (w : List Char)
  | quoted (content : List Char)
  deriving DecidableEq, Repr

namespace Token

def and : Token := .word ['a', 'n', 'd']

def or : Token := .word ['o', 'r']

/-- Membership is no operator of the language; it is written as alternatives. -/
def operator? : Token → Option Operator
  | .word w => (Operator.ofName? (String.ofList w)).filter fun op => op != .in
  | _ => none

/-- The words that are literals: truth values and numbers. -/
def isBare (w : List Char) : Bool :=
  w == "true".toList || w == "false".toList || (Decimal.Numeral.ofText? w).isSome

def literal? : Token → Option Literal
  | .word w => if isBare w then some (.bare w) else none
  | .quoted s => some (.quoted s)
  | _ => none

end Token

/-- How tightly an expression holds together. -/
inductive Level where
  | primary | conjunction | disjunction
  deriving DecidableEq, Repr

/-- The tokens that spell an expression at a level. -/
inductive Derives : Level → List Token → Expression → Prop where
  | comparison {column : List Char} {o l : Token} {op : Operator} {x : Literal}
      (ho : o.operator? = some op) (hl : l.literal? = some x) :
      Derives .primary [.word column, o, l] (.compare ⟨column, op, x⟩)
  | group {ts : List Token} {e : Expression} (h : Derives .disjunction ts e) :
      Derives .primary (.opening :: ts ++ [.closing]) e
  | single {ts : List Token} {e : Expression} (h : Derives .primary ts e) :
      Derives .conjunction ts e
  | and {ts us : List Token} {e f : Expression} (h : Derives .primary ts e)
      (h' : Derives .conjunction us f) : Derives .conjunction (ts ++ .and :: us) (.and e f)
  | lone {ts : List Token} {e : Expression} (h : Derives .conjunction ts e) :
      Derives .disjunction ts e
  | or {ts us : List Token} {e f : Expression} (h : Derives .conjunction ts e)
      (h' : Derives .disjunction us f) : Derives .disjunction (ts ++ .or :: us) (.or e f)

namespace Derives

theorem ne_nil {l : Level} {ts : List Token} {e : Expression} (h : Derives l ts e) : ts ≠ [] := by
  induction h with
  | comparison | group => simp
  | single _ ih | lone _ ih => exact ih
  | and | or => simp

end Derives

end ResourceApi.Filter
