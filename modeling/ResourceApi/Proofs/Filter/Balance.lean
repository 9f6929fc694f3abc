import ResourceApi.Proofs.Filter.Lexer
import ResourceApi.Proofs.Filter.Quoting
import ResourceApi.Proofs.Text.Trim

/-!
Balanced texts: their literals end, and their parentheses, those inside literals apart, stand in
pairs. A scan that counts the open parentheses outside literals passes over such a text unchanged.
So the parenthesis that matches the first one is found by counting, there is only one, and balance
itself can be decided.
-/

namespace ResourceApi.Filter

open Text

/-- Characters that neither open nor close anything. -/
def isOrdinary (c : Char) : Bool := c != '\'' && c != '(' && c != ')'

theorem isOrdinary_iff {c : Char} :
    isOrdinary c = true ↔ c ≠ '\'' ∧ c ≠ '(' ∧ c ≠ ')' := by
  simp [isOrdinary, and_assoc]

theorem isOrdinary_of_isBlank {c : Char} (h : isBlank c = true) : isOrdinary c = true := by
  refine isOrdinary_iff.2 ⟨ne_quote_of_isBlank h, ?_, ?_⟩
  all_goals
    rintro rfl
    exact absurd h (by decide)

/-- Texts in which every parenthesis outside literals has its partner and every literal ends. -/
inductive IsBalanced : List Char → Prop where
  | nil : IsBalanced []
  | char {c : Char} {s : List Char} (hc : isOrdinary c = true) (h : IsBalanced s) :
      IsBalanced (c :: s)
  | literal {s content rest : List Char} (hread : readQuoted? s = some (content, rest))
      (h : IsBalanced rest) : IsBalanced s
  | group {s t : List Char} (h : IsBalanced s) (h' : IsBalanced t) :
      IsBalanced ('(' :: s ++ ')' :: t)

/-- A text that starts with a parenthesis, cut at the one that matches it. -/
structure IsCutAt (s inner rest : List Char) : Prop where
  text : s = '(' :: inner ++ ')' :: rest
  inner_balanced : IsBalanced inner

/-! ### Scans over balanced texts -/

/-- Scans that follow the depth of parentheses outside literals, from a lowest depth on. -/
structure IsCounter {α : Type} (scan : Nat → Bool → List Char → α) : Prop where
  quote : ∀ d quoted rest, scan d quoted ('\'' :: rest) = scan d (!quoted) rest
  inside : ∀ d c rest, c ≠ '\'' → scan d true (c :: rest) = scan d true rest
  ordinary : ∀ d c rest, isOrdinary c = true → scan d false (c :: rest) = scan d false rest
  opening : ∀ d rest, scan d false ('(' :: rest) = scan (d + 1) false rest
  closing : ∀ d rest, scan (d + 1) false (')' :: rest) = scan d false rest

namespace IsCounter

variable {α : Type} {scan : Nat → Bool → List Char → α}

theorem content (h : IsCounter scan) (d : Nat) (s rest : List Char) :
    scan d true (doubleQuotes s ++ '\'' :: rest) = scan d false rest := by
  induction s with
  | nil => exact h.quote d true rest
  | cons c s ih =>
    by_cases hc : c = '\''
    · subst hc
      simpa [doubleQuotes, h.quote] using ih
    · simpa [doubleQuotes, hc, h.inside d c _ hc] using ih

theorem literal (h : IsCounter scan) (d : Nat) (s rest : List Char) :
    scan d false ((Literal.quoted s).render ++ rest) = scan d false rest := by
  have hcontent := h.content d s rest
  simpa [Literal.render, h.quote] using hcontent

/-- A balanced text leaves a scan as it was. -/
theorem balanced (h : IsCounter scan) {s : List Char} (hs : IsBalanced s) (d : Nat)
    (rest : List Char) : scan d false (s ++ rest) = scan d false rest := by
  induction hs generalizing d rest with
  | nil => rfl
  | @char c s hc _ ih => rw [List.cons_append, h.ordinary d c _ hc, ih]
  | literal hread _ ih =>
    obtain ⟨rfl, -⟩ := (isLiteralOf_quoted _ _ _).1 hread
    rw [List.append_assoc, h.literal, ih]
  | @group s t _ _ ih ih' =>
    -- The first part is passed one level deeper, where its own parentheses come back to.
    have hassoc : '(' :: s ++ ')' :: t ++ rest = '(' :: (s ++ ')' :: (t ++ rest)) := by simp
    rw [hassoc, h.opening, ih, h.closing, ih']

end IsCounter

/-! ### The matching parenthesis -/

/-- What stands behind the first parenthesis that closes more than so many open ones. -/
def behind : (depth : Nat) → (quoted : Bool) → List Char → List Char
  | _, _, [] => []
  | depth, quoted, c :: rest =>
    if c = '\'' then behind depth (!quoted) rest
    else if quoted then behind depth quoted rest
    else if c = '(' then behind (depth + 1) quoted rest
    else if c = ')' then
      if depth = 0 then rest else behind (depth - 1) quoted rest
    else behind depth quoted rest

theorem isCounter_behind : IsCounter behind where
  quote d quoted rest := by simp [behind]
  inside d c rest hc := by simp [behind, hc]
  ordinary d c rest hc := by simp [behind, isOrdinary_iff.1 hc]
  opening d rest := by simp [behind]
  closing d rest := by simp [behind]

/-- Behind a balanced text comes the parenthesis that closes it. -/
theorem behind_balanced {s : List Char} (hs : IsBalanced s) (rest : List Char) :
    behind 0 false (s ++ ')' :: rest) = rest :=
  (isCounter_behind.balanced hs 0 _).trans (by simp [behind])

/-- There is one way to cut. -/
theorem IsCutAt.unique {s inner inner' rest rest' : List Char} (h : IsCutAt s inner rest)
    (h' : IsCutAt s inner' rest') : inner = inner' ∧ rest = rest' := by
  have htext : inner ++ ')' :: rest = inner' ++ ')' :: rest' :=
    (List.cons.inj (h.text.symm.trans h'.text)).2
  have hrest : rest = rest' := by
    rw [← behind_balanced h.inner_balanced rest, htext, behind_balanced h'.inner_balanced]
  subst hrest
  exact ⟨List.append_cancel_right htext, rfl⟩

/-- A balanced text that starts with a parenthesis is cut at the one that matches it. -/
theorem IsBalanced.exists_cut {s : List Char} (hs : IsBalanced s) (hhead : s.head? = some '(') :
    ∃ inner rest, IsCutAt s inner rest := by
  cases hs with
  | nil => cases hhead
  | @char c s hc _ =>
    obtain rfl : c = '(' := Option.some.inj hhead
    cases hc
  | literal hread _ =>
    obtain ⟨rfl, -⟩ := (isLiteralOf_quoted _ _ _).1 hread
    cases hhead
  | @group s t h _ => exact ⟨s, t, rfl, h⟩

/-! ### Balance as a count -/

/-- Counts the parentheses that are open; none may be left, and none closed before it is opened. -/
def balances : (depth : Nat) → (quoted : Bool) → List Char → Bool
  | depth, quoted, [] => depth == 0 && !quoted
  | depth, quoted, c :: rest =>
    if c = '\'' then balances depth (!quoted) rest
    else if quoted then balances depth quoted rest
    else if c = '(' then balances (depth + 1) quoted rest
    else if c = ')' then depth != 0 && balances (depth - 1) quoted rest
    else balances depth quoted rest

theorem isCounter_balances : IsCounter balances where
  quote d quoted rest := by simp [balances]
  inside d c rest hc := by simp [balances, hc]
  ordinary d c rest hc := by simp [balances, isOrdinary_iff.1 hc]
  opening d rest := by simp [balances]
  closing d rest := by simp [balances]

/-- Texts with so many closing parentheses too many, balanced in front of each and behind the
last. -/
def Closes : Nat → List Char → Prop
  | 0, s => IsBalanced s
  | d + 1, s => ∃ u v, s = u ++ ')' :: v ∧ IsBalanced u ∧ Closes d v

theorem Closes.char {d : Nat} {c : Char} {s : List Char} (hc : isOrdinary c = true)
    (h : Closes d s) : Closes d (c :: s) := by
  cases d with
  | zero => exact IsBalanced.char hc h
  | succ d =>
    obtain ⟨u, v, rfl, hu, hv⟩ := h
    exact ⟨c :: u, v, rfl, hu.char hc, hv⟩

theorem Closes.literal {d : Nat} {s content rest : List Char}
    (hread : readQuoted? s = some (content, rest)) (h : Closes d rest) : Closes d s := by
  cases d with
  | zero => exact IsBalanced.literal hread h
  | succ d =>
    obtain ⟨rfl, hrest⟩ := (isLiteralOf_quoted _ _ _).1 hread
    obtain ⟨u, v, rfl, hu, hv⟩ := h
    have hhead : u.head? ≠ some '\'' := fun hq => hrest (by simp [hq])
    have hfront : readQuoted? ((Literal.quoted content).render ++ u) = some (content, u) :=
      (isLiteralOf_quoted _ _ _).2 ⟨rfl, hhead⟩
    exact ⟨_, v, by simp, .literal hfront hu, hv⟩

theorem Closes.group {d : Nat} {s : List Char} (h : Closes (d + 1) s) : Closes d ('(' :: s) := by
  obtain ⟨u, v, rfl, hu, hv⟩ := h
  cases d with
  | zero => exact hu.group hv
  | succ d =>
    obtain ⟨w, x, rfl, hw, hx⟩ := hv
    exact ⟨'(' :: u ++ ')' :: w, x, by simp, hu.group hw, hx⟩

theorem balances_of_readContent? {s : List Char} (h : readContent? s = none) (d : Nat) :
    balances d true s = false := by
  fun_induction readContent? s with
  | case1 => simp [balances]
  | case2 rest ih => simpa [balances] using ih (by simpa using h)
  | case3 => cases h
  | case4 c rest _ hc ih =>
    have hne : c ≠ '\'' := hc
    simpa [balances, hne] using ih (by simpa using h)

/-- If parentheses balance from inside a literal on, the literal ends. -/
theorem exists_read_of_balances {d : Nat} {s : List Char} (h : balances d true s = true) :
    ∃ content rest, readContent? s = some (content, rest) ∧ rest.length < s.length ∧
      balances d false rest = true := by
  cases hread : readContent? s with
  | none =>
    rw [balances_of_readContent? hread] at h
    cases h
  | some read =>
    obtain ⟨rfl, -⟩ := eq_of_readContent? hread
    rw [isCounter_balances.content] at h
    exact ⟨_, _, rfl, by simp; omega, h⟩

theorem closes_of_balances {d : Nat} {s : List Char} (h : balances d false s = true) :
    Closes d s := by
  -- The induction is on the length, since a literal is passed in one step.
  match s with
  | [] =>
    obtain rfl : d = 0 := by simpa [balances] using h
    exact .nil
  | c :: s =>
    by_cases hq : c = '\''
    · subst hq
      rw [isCounter_balances.quote] at h
      obtain ⟨content, rest, hread, hshorter, hrest⟩ := exists_read_of_balances h
      exact .literal hread (closes_of_balances hrest)
    by_cases ho : c = '('
    · subst ho
      rw [isCounter_balances.opening] at h
      exact .group (closes_of_balances h)
    by_cases hc : c = ')'
    · subst hc
      cases d with
      | zero => simp [balances] at h
      | succ d =>
        rw [isCounter_balances.closing] at h
        exact ⟨[], s, rfl, .nil, closes_of_balances h⟩
    · have hordinary : isOrdinary c = true := isOrdinary_iff.2 ⟨hq, ho, hc⟩
      rw [isCounter_balances.ordinary _ _ _ hordinary] at h
      exact .char hordinary (closes_of_balances h)
termination_by s.length
decreasing_by all_goals (simp only [List.length_cons]; omega)

/-- Counting decides whether a text is balanced. -/
theorem isBalanced_iff {s : List Char} : IsBalanced s ↔ balances 0 false s = true := by
  constructor
  · intro h
    have hscan := isCounter_balances.balanced h 0 []
    rw [List.append_nil] at hscan
    exact hscan.trans rfl
  · exact closes_of_balances

instance (s : List Char) : Decidable (IsBalanced s) := decidable_of_iff _ isBalanced_iff.symm

/-! ### Trimming -/

theorem balances_blank {c : Char} (hc : isBlank c = true) (d : Nat) (quoted : Bool)
    (rest : List Char) : balances d quoted (c :: rest) = balances d quoted rest := by
  cases quoted with
  | false => exact isCounter_balances.ordinary d c rest (isOrdinary_of_isBlank hc)
  | true => exact isCounter_balances.inside d c rest (ne_quote_of_isBlank hc)

theorem balances_dropWhile (d : Nat) (s : List Char) :
    balances d false (s.dropWhile isBlank) = balances d false s := by
  induction s with
  | nil => rfl
  | cons c s ih =>
    cases hc : isBlank c with
    | false => rw [List.dropWhile_cons_of_neg (by simp [hc])]
    | true => rw [List.dropWhile_cons_of_pos hc, ih, balances_blank hc]

theorem balances_append_blanks {t : List Char} (ht : ∀ c ∈ t, isBlank c = true) (d : Nat)
    (quoted : Bool) (s : List Char) : balances d quoted (s ++ t) = balances d quoted s := by
  induction s generalizing d quoted with
  | nil =>
    induction t with
    | nil => rfl
    | cons c t ih =>
      obtain ⟨hc, ht⟩ := List.forall_mem_cons.1 ht
      exact (balances_blank hc d quoted t).trans (ih ht)
  | cons c s ih => simp only [List.cons_append, balances, ih]

theorem IsBalanced.trim {s : List Char} (h : IsBalanced s) : IsBalanced (trim s) := by
  obtain ⟨t, ht, hblank⟩ := exists_trimEndBy_append isBlank (s.dropWhile isBlank)
  rw [isBalanced_iff] at h ⊢
  rw [← h, ← balances_dropWhile 0 s, ht, balances_append_blanks hblank]
  rfl

/-- A group has no blanks at its ends. -/
theorem IsCutAt.trim_eq {s inner : List Char} (h : IsCutAt s inner []) : trim s = s := by
  obtain ⟨rfl, -⟩ := h
  refine trimBy_eq_self_iff.2 ⟨?_, ?_⟩
  · simp only [List.cons_append, List.head?_cons, Option.mem_some_iff, forall_eq']
    decide
  · simp only [List.getLast?_append, List.getLast?_singleton, Option.some_or,
      Option.mem_some_iff, forall_eq']
    decide

end ResourceApi.Filter
