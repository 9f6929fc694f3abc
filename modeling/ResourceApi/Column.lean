import ResourceApi.Text.Letter

/-!
From the name of a field to the name of its column. A name is cut into words, at separators and at
capitals that start a word; the column is the words in capitals, joined by single underscores.
Names that are columns already are cut and joined again without a change.
-/

namespace ResourceApi.Column

open Text

def isSeparator (c : Char) : Bool := c = '_' || c = '-' || c = '.' || c = ' '

/-- A capital starts a word after a small letter or a digit, and at the end of a run of capitals
that a small letter follows. -/
def startsWord (before c : Char) (after : Option Char) : Bool :=
  isCapital c && (isSmall before || before.isDigit || (isCapital before && after.any isSmall))

/-- The words of a name, empty ones included; the character before the name decides whether its
first one starts a word. -/
def words : Option Char → List Char → List (List Char)
  | _, [] => [[]]
  | before, c :: rest =>
    match words (some c) rest with
    | [] => []
    | word :: more =>
      if isSeparator c then [] :: word :: more
      else if before.any (startsWord · c rest.head?) then [] :: (c :: word) :: more
      else (c :: word) :: more

/-- The words in capitals, without the empty ones. -/
def parts (name : List Char) : List (List Char) :=
  ((words none name).filter fun w => !w.isEmpty).map fun w => w.flatMap capitals

def fold (name : List Char) : List Char := ['_'].intercalate (parts name)

def ofName (name : String) : String := String.ofList (fold name.toList)

theorem words_ne_nil (before : Option Char) (name : List Char) : words before name ≠ [] := by
  induction name generalizing before with
  | nil => simp [words]
  | cons c rest ih =>
    simp only [words]
    split
    · rename_i h
      exact absurd h (ih _)
    · split
      · simp
      · split <;> simp

end ResourceApi.Column
