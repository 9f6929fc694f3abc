import Mathlib.Data.List.Induction
import ResourceApi.Proofs.Filter.Expression

/-!
Cutting a filter text into tokens, character by character. The only memory is the token that the
end of the text so far stands in. A quote inside a quoted literal is either its end or the first of
two, which the next character decides.
-/

namespace ResourceApi.Filter

open Text

/-- Characters of columns, operators and bare literals. -/
def isWordChar (c : Char) : Bool := !isBlank c && c != '\'' && c != '(' && c != ')'

/-- Texts that are one word. -/
def IsWord (w : List Char) : Prop := w ≠ [] ∧ ∀ c ∈ w, isWordChar c = true

instance (w : List Char) : Decidable (IsWord w) :=
  decidable_of_iff (w ≠ [] ∧ w.all isWordChar = true) (by simp [IsWord])

/-- The token in which a text breaks off. -/
inductive Cut where
  | between
  | word (w : List Char)
  | quoted (s : List Char)
  | quote (s : List Char)
  deriving DecidableEq, Repr

namespace Cut

/-- A literal that still waits for its last quote. -/
def isOpen : Cut → Bool
  | .quoted _ => true
  | _ => false

/-- The token that ends with the text. -/
def pending : Cut → List Token
  | .word w => [.word w]
  | .quote s => [.quoted s]
  | _ => []

/-- A character at which no token goes on. -/
def start (c : Char) : List Token × Cut :=
  if isBlank c then ([], .between)
  else if c = '(' then ([.opening], .between)
  else if c = ')' then ([.closing], .between)
  else if c = '\'' then ([], .quoted [])
  else ([], .word [c])

def step : Cut → Char → List Token × Cut
  | .between, c => start c
  | .word w, c =>
    if isWordChar c then ([], .word (w ++ [c])) else (.word w :: (start c).1, (start c).2)
  | .quoted s, c => ([], if c = '\'' then .quote s else .quoted (s ++ [c]))
  | .quote s, c =>
    if c = '\'' then ([], .quoted (s ++ [c])) else (.quoted s :: (start c).1, (start c).2)

/-- The tokens that are complete after a text, and where it breaks off. -/
def run : Cut → List Char → List Token × Cut
  | cut, [] => ([], cut)
  | cut, c :: rest => ((cut.step c).1 ++ (run (cut.step c).2 rest).1, (run (cut.step c).2 rest).2)

/-- All tokens of a text that goes on from a cut; an open literal has no end. -/
def finish (cut : Cut) (s : List Char) : Option (List Token) :=
  if (cut.run s).2.isOpen then none else some ((cut.run s).1 ++ (cut.run s).2.pending)

@[simp] theorem run_nil (cut : Cut) : cut.run [] = ([], cut) := rfl

theorem run_cons (cut : Cut) (c : Char) (rest : List Char) :
    cut.run (c :: rest) =
      ((cut.step c).1 ++ ((cut.step c).2.run rest).1, ((cut.step c).2.run rest).2) := rfl

theorem run_append (cut : Cut) (s t : List Char) :
    cut.run (s ++ t) =
      ((cut.run s).1 ++ ((cut.run s).2.run t).1, ((cut.run s).2.run t).2) := by
  induction s generalizing cut with
  | nil => simp
  | cons c s ih => simp [run_cons, ih]

theorem finish_append (cut : Cut) (s t : List Char) :
    cut.finish (s ++ t) = ((cut.run s).2.finish t).map ((cut.run s).1 ++ ·) := by
  simp only [finish, run_append]
  split <;> simp

/-- Where no token goes on, the pending one is complete. -/
theorem step_of_start {cut : Cut} {c : Char} (h : cut.isOpen = false) (hw : isWordChar c = false)
    (hq : c ≠ '\'') : cut.step c = (cut.pending ++ (start c).1, (start c).2) := by
  cases cut with
  | between => rfl
  | word w => simp [step, pending, hw]
  | quoted s => simp [isOpen] at h
  | quote s => simp [step, pending, hq]

end Cut

/-- The tokens of a text, unless a literal in it has no end. -/
def tokens? (s : List Char) : Option (List Token) := Cut.between.finish s

theorem isWordChar_of_isBlank {c : Char} (h : isBlank c = true) : isWordChar c = false := by
  simp [isWordChar, h]

theorem ne_quote_of_isBlank {c : Char} (h : isBlank c = true) : c ≠ '\'' := by
  rintro rfl
  exact absurd h (by decide)

theorem Cut.step_blank {cut : Cut} {c : Char} (h : cut.isOpen = false) (hc : isBlank c = true) :
    cut.step c = (cut.pending, .between) := by
  rw [step_of_start h (isWordChar_of_isBlank hc) (ne_quote_of_isBlank hc)]
  simp [start, hc]

/-- A text with tokens does not break off inside a literal. -/
theorem closed_of_tokens? {s : List Char} {ts : List Token} (h : tokens? s = some ts) :
    (Cut.between.run s).2.isOpen = false ∧
      ts = (Cut.between.run s).1 ++ (Cut.between.run s).2.pending := by
  rw [tokens?, Cut.finish] at h
  split at h
  · simp at h
  · rename_i hc
    exact ⟨by simpa using hc, (Option.some.inj h).symm⟩

/-- What follows a blank is cut on its own. -/
theorem tokens?_append_blank {s t : List Char} {c : Char} {ts : List Token}
    (h : tokens? s = some ts) (hc : isBlank c = true) :
    tokens? (s ++ c :: t) = (tokens? t).map (ts ++ ·) := by
  obtain ⟨hclosed, rfl⟩ := closed_of_tokens? h
  have hstep : Cut.between.run (s ++ [c]) =
      ((Cut.between.run s).1 ++ (Cut.between.run s).2.pending, .between) := by
    rw [Cut.run_append, Cut.run_cons, Cut.step_blank hclosed hc]
    simp
  have hs : s ++ c :: t = (s ++ [c]) ++ t := by simp
  rw [hs, tokens?, Cut.finish_append, hstep]
  rfl

theorem tokens?_cons_blank {t : List Char} {c : Char} (hc : isBlank c = true) :
    tokens? (c :: t) = tokens? t := by
  have h : tokens? ([] ++ c :: t) = (tokens? t).map ([] ++ ·) := tokens?_append_blank rfl hc
  simpa using h

theorem tokens?_append_blank_end {s : List Char} {c : Char} (hc : isBlank c = true) :
    tokens? (s ++ [c]) = tokens? s := by
  cases hopen : (Cut.between.run s).2.isOpen with
  | false =>
    have h : tokens? s = some ((Cut.between.run s).1 ++ (Cut.between.run s).2.pending) := by
      simp [tokens?, Cut.finish, hopen]
    have hnil : tokens? [] = some [] := rfl
    rw [tokens?_append_blank h hc, h, hnil, Option.map_some, List.append_nil]
  | true =>
    have hq := ne_quote_of_isBlank hc
    cases hcut : (Cut.between.run s).2 with
    | quoted x =>
      simp [tokens?, Cut.finish, Cut.run_append, Cut.run_cons, hcut, Cut.step, hq, Cut.isOpen]
    | _ => simp [hcut, Cut.isOpen] at hopen

theorem tokens?_dropWhile (s : List Char) : tokens? (s.dropWhile isBlank) = tokens? s := by
  induction s with
  | nil => rfl
  | cons c s ih =>
    cases hc : isBlank c with
    | false => simp [hc]
    | true => simpa [hc, tokens?_cons_blank hc] using ih

theorem tokens?_trimEndBy (s : List Char) : tokens? (trimEndBy isBlank s) = tokens? s := by
  induction s using List.reverseRecOn with
  | nil => rfl
  | append_singleton s c ih =>
    cases hc : isBlank c with
    | false => rw [trimEndBy_append_of_neg hc]
    | true => rw [trimEndBy_append_of_pos hc, ih, tokens?_append_blank_end hc]

/-- Blanks at the ends are no tokens. -/
@[simp] theorem tokens?_trim (s : List Char) : tokens? (trim s) = tokens? s := by
  rw [trim, trimBy, tokens?_trimEndBy, tokens?_dropWhile]

/-- Parentheses around a text are around its tokens. -/
theorem tokens?_enclosed {s : List Char} {ts : List Token} (h : tokens? s = some ts) :
    tokens? ('(' :: s ++ [')']) = some (.opening :: ts ++ [.closing]) := by
  obtain ⟨hclosed, rfl⟩ := closed_of_tokens? h
  have hopen : Cut.between.step '(' = ([.opening], .between) := rfl
  have hclose := Cut.step_of_start (c := ')') hclosed (by decide) (by decide)
  have hstart : Cut.start ')' = ([.closing], .between) := rfl
  have hrun : Cut.between.run ('(' :: s ++ [')']) =
      (.opening :: ((Cut.between.run s).1 ++ (Cut.between.run s).2.pending) ++ [.closing],
        .between) := by
    rw [List.cons_append, Cut.run_cons, hopen, Cut.run_append, Cut.run_cons, hclose, hstart]
    simp
  rw [tokens?, Cut.finish, hrun]
  simp [Cut.isOpen, Cut.pending]

theorem Cut.run_word (w s : List Char) (h : ∀ c ∈ s, isWordChar c = true) :
    (Cut.word w).run s = ([], .word (w ++ s)) := by
  induction s generalizing w with
  | nil => simp
  | cons c s ih =>
    have hc : isWordChar c = true := h c (by simp)
    have hs := ih (w ++ [c]) fun d hd => h d (by simp [hd])
    rw [run_cons, show (Cut.word w).step c = ([], .word (w ++ [c])) by simp [step, hc], hs]
    simp

theorem Cut.start_of_isWordChar {c : Char} (h : isWordChar c = true) :
    start c = ([], .word [c]) := by
  simp only [isWordChar, Bool.and_eq_true, Bool.not_eq_true', bne_iff_ne, ne_eq] at h
  obtain ⟨⟨⟨hb, hq⟩, ho⟩, hc⟩ := h
  simp [start, hb, hq, ho, hc]

theorem tokens?_word {w : List Char} (h : IsWord w) : tokens? w = some [.word w] := by
  obtain ⟨hne, hw⟩ := h
  cases w with
  | nil => exact absurd rfl hne
  | cons c w =>
    have hc : isWordChar c = true := hw c (by simp)
    have hrun : Cut.between.run (c :: w) = ([], .word (c :: w)) := by
      rw [Cut.run_cons, show Cut.between.step c = Cut.start c from rfl, Cut.start_of_isWordChar hc,
        Cut.run_word [c] w fun d hd => hw d (by simp [hd])]
      simp
    simp [tokens?, Cut.finish, hrun, Cut.isOpen, Cut.pending]

/-- The reading of a literal finds its content back, whatever characters it has. -/
theorem Cut.run_doubleQuotes (x s : List Char) :
    (Cut.quoted x).run (doubleQuotes s) = ([], .quoted (x ++ s)) := by
  induction s generalizing x with
  | nil => simp
  | cons c s ih =>
    by_cases hc : c = '\''
    · subst hc
      simp [doubleQuotes, run_cons, step, ih]
    · simp [doubleQuotes, hc, run_cons, step, ih]

theorem tokens?_quoted (s : List Char) :
    tokens? (Literal.quoted s).render = some [.quoted s] := by
  have hstart : Cut.between.step '\'' = ([], .quoted []) := rfl
  have hrun : Cut.between.run (Literal.quoted s).render = ([], .quote s) := by
    rw [Literal.render, List.cons_append, Cut.run_cons, hstart, Cut.run_append,
      Cut.run_doubleQuotes]
    simp [Cut.run_cons, Cut.step]
  simp [tokens?, Cut.finish, hrun, Cut.isOpen, Cut.pending]

end ResourceApi.Filter
