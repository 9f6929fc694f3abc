import ResourceApi.Text.Run

/-!
Blank characters, by the Unicode property White_Space, and the trimming of a text at its ends.
-/

namespace ResourceApi.Text

def blankRuns : List Run :=
  [⟨0x9, 0xD, 1⟩, ⟨0x20, 0x20, 1⟩, ⟨0x85, 0x85, 1⟩, ⟨0xA0, 0xA0, 1⟩, ⟨0x1680, 0x1680, 1⟩,
   ⟨0x2000, 0x200A, 1⟩, ⟨0x2028, 0x2029, 1⟩, ⟨0x202F, 0x202F, 1⟩, ⟨0x205F, 0x205F, 1⟩,
   ⟨0x3000, 0x3000, 1⟩]

def isBlank (c : Char) : Bool := inRuns blankRuns c

def trimEndBy (p : Char → Bool) (s : List Char) : List Char := (s.reverse.dropWhile p).reverse

def trimBy (p : Char → Bool) (s : List Char) : List Char := trimEndBy p (s.dropWhile p)

def trim (s : List Char) : List Char := trimBy isBlank s

@[simp] theorem trimEndBy_nil (p : Char → Bool) : trimEndBy p [] = [] := rfl
@[simp] theorem trim_nil : trim [] = [] := rfl

theorem trimEndBy_append_of_pos {p : Char → Bool} {s : List Char} {c : Char} (h : p c = true) :
    trimEndBy p (s ++ [c]) = trimEndBy p s := by
  simp [trimEndBy, h]

theorem trimEndBy_append_of_neg {p : Char → Bool} {s : List Char} {c : Char} (h : p c = false) :
    trimEndBy p (s ++ [c]) = s ++ [c] := by
  simp [trimEndBy, h]

end ResourceApi.Text
