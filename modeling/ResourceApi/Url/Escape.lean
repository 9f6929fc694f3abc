import ResourceApi.Text.Percent

/-!
Percent escapes inside URLs. Unlike the encoding of a single value this one leaves alone whatever
its part of a URL can hold, percent signs included, so that a part that is escaped already stays as
it is. Each part has its own set of characters that must be escaped.
-/

namespace ResourceApi.Url

def isControl (c : Char) : Bool := c.toNat < 0x20 || 0x7E < c.toNat

def escapedInFragment (c : Char) : Bool :=
  isControl c || [' ', '"', '<', '>', '\x60'].contains c

/-- A query is held to one more character in the schemes of the web. -/
def escapedInQuery (web : Bool) (c : Char) : Bool :=
  isControl c || [' ', '"', '#', '<', '>'].contains c || (web && c = '\'')

def escapedInPath (c : Char) : Bool :=
  escapedInQuery false c || ['?', '^', '\x60', '\x7b', '\x7d'].contains c

def escapedInUser (c : Char) : Bool :=
  escapedInPath c || ['/', ':', ';', '=', '@', '[', '\\', ']', '|'].contains c

def escapeChar (escaped : Char → Bool) (c : Char) : List Char :=
  if escaped c then (String.utf8EncodeChar c).flatMap Text.Percent.encodeByte else [c]

def escape (escaped : Char → Bool) (s : List Char) : List Char := s.flatMap (escapeChar escaped)

@[simp] theorem escape_nil (escaped : Char → Bool) : escape escaped [] = [] := rfl

@[simp] theorem escape_append (escaped : Char → Bool) (s t : List Char) :
    escape escaped (s ++ t) = escape escaped s ++ escape escaped t := by
  simp [escape]

theorem escape_eq_self {escaped : Char → Bool} {s : List Char} (h : ∀ c ∈ s, escaped c = false) :
    escape escaped s = s := by
  induction s with
  | nil => rfl
  | cons c s ih =>
    have hc := h c List.mem_cons_self
    have hs := ih fun d hd => h d (List.mem_cons_of_mem _ hd)
    simp_all [escape, escapeChar]

end ResourceApi.Url
