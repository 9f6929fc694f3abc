import ResourceApi.Criteria.Scalar
import ResourceApi.Decimal.Layout

/-!
Literals of the filter language: a text in single quotes, in which a quote is written twice, or a
bare word for numbers and truth values. Null and the doubles that are no numbers have no literal.
-/

namespace ResourceApi.Filter

inductive Literal where
  | quoted (content : List Char)
  | bare (word : List Char)
  deriving DecidableEq, Repr

def doubleQuotes : List Char → List Char
  | [] => []
  | c :: rest => if c = '\'' then '\'' :: '\'' :: doubleQuotes rest else c :: doubleQuotes rest

@[simp] theorem doubleQuotes_nil : doubleQuotes [] = [] := rfl

def Literal.render : Literal → List Char
  | .quoted s => '\'' :: doubleQuotes s ++ ['\'']
  | .bare w => w

end ResourceApi.Filter

namespace ResourceApi

/-- The literal of a scalar, if it has one. Doubles are written without a power of ten. -/
def Scalar.literal? : Scalar → Option Filter.Literal
  | .null => none
  | .bool b => some (.bare (if b then "true".toList else "false".toList))
  | .int n => some (.bare (toString n).toList)
  | .float x => if x.isFinite then some (.bare (Decimal.plain.write x)) else none
  | .string s => some (.quoted s.toList)
  | .date d => some (.quoted d.text)
  | .instant t => some (.quoted t.text)

end ResourceApi
