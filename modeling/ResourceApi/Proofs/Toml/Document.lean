import ResourceApi.Proofs.Decimal.Positional
import ResourceApi.Proofs.Toml.Quoted
import ResourceApi.Toml.Reader

/-!
Documents line by line. A document with bare keys, whose values are quoted text, whole numbers and
the empty array, is read as the lines that were written, in whatever number of steps its length
allows.
-/

namespace ResourceApi.Toml

open Lexeme

/-- Characters of two kinds are different. -/
theorem ne_of_kinds {p : Char → Bool} {c d : Char} (hc : p c = true) (hd : p d = false) :
    c ≠ d := by
  rintro rfl
  exact absurd hc (by simp [hd])

/-! ### Keys -/

/-- A key that needs no quotes. -/
def IsBare (k : List Char) : Prop := k ≠ [] ∧ ∀ c ∈ k, isKeyChar c = true

instance (k : List Char) : Decidable (IsBare k) :=
  decidable_of_iff (k ≠ [] ∧ k.all isKeyChar = true) (by simp [IsBare])

theorem skipBlanks_of_head {s : List Char} (h : ∀ c ∈ s.head?, isBlank c = false) :
    skipBlanks s = s := by
  cases s with
  | nil => rfl
  | cons c s => simp [skipBlanks, h c rfl]

theorem not_blank_of_isKeyChar {c : Char} (h : isKeyChar c = true) : isBlank c = false := by
  have hspace : c ≠ ' ' := ne_of_kinds h (by decide)
  have htab : c ≠ '\t' := ne_of_kinds h (by decide)
  simp [isBlank, hspace, htab]

/-- A bare key starts with a character of a key. -/
theorem IsBare.head {k : List Char} (hk : IsBare k) (t : List Char) :
    ∃ c rest, k ++ t = c :: rest ∧ isKeyChar c = true := by
  obtain ⟨hne, hall⟩ := hk
  cases k with
  | nil => exact absurd rfl hne
  | cons c k => exact ⟨c, k ++ t, rfl, hall c List.mem_cons_self⟩

theorem simpleKey_bare {k t : List Char} (hk : IsBare k)
    (ht : ∀ c ∈ t.head?, isKeyChar c = false) : simpleKey (k ++ t) = some (k, t) := by
  have htake : (k ++ t).takeWhile isKeyChar = k := by
    rw [List.takeWhile_append_of_pos hk.2]
    cases t with
    | nil => simp
    | cons c t => simp [ht c rfl]
  have hdrop : (k ++ t).dropWhile isKeyChar = t := by
    rw [List.dropWhile_append_of_pos hk.2]
    cases t with
    | nil => rfl
    | cons c t => simp [ht c rfl]
  obtain ⟨c, rest, htext, hc⟩ := hk.head t
  have hdouble : c ≠ '"' := ne_of_kinds hc (by decide)
  have hsingle : c ≠ '\'' := ne_of_kinds hc (by decide)
  have hne : k ≠ [] := hk.1
  rw [htext] at htake hdrop ⊢
  simp [simpleKey, hdouble, hsingle, htake, hdrop]

theorem key_bare {k t : List Char} (hk : IsBare k) (ht : ∀ c ∈ t.head?, isKeyChar c = false)
    (hdot : (skipBlanks t).head? ≠ some '.') :
    Lexeme.key (k ++ t) = some (([], String.ofList k), skipBlanks t) := by
  have hskip : skipBlanks (k ++ t) = k ++ t := by
    apply skipBlanks_of_head
    obtain ⟨c, rest, htext, hc⟩ := hk.head t
    rw [htext]
    rintro d hd
    obtain rfl := Option.some.inj hd
    exact not_blank_of_isKeyChar hc
  have hparts : keyParts ((k ++ t).length + 1) (k ++ t) =
      some ([String.ofList k], skipBlanks t) := by
    rw [keyParts, hskip, simpleKey_bare hk ht]
    cases hrest : skipBlanks t with
    | nil => simp [hrest]
    | cons c rest =>
      have hc : c ≠ '.' := by simpa [hrest] using hdot
      simp [hrest, hc]
  simp only [Lexeme.key, hparts, Option.bind_eq_bind, Option.bind_some]
  rfl

/-! ### Values -/

/-- Text that is read as a value at the end of a line. -/
structure Writes (t : List Char) (v : Toml) : Prop where
  start : ∀ c ∈ t.head?, isBlank c = false
  reads : ∀ n rest, readValue (n + 2) 0 (t ++ '\n' :: rest) = some (v, '\n' :: rest)

theorem writes_empty : Writes ['[', ']'] (.array []) where
  start := by simp [isBlank]
  reads n rest := by simp [readValue, readItems, skipLines, limit]

theorem delimiter_start (q : Printer.Quoting) :
    ∃ t, q.delimiter = '"' :: t ∨ q.delimiter = '\'' :: t := by
  cases q with
  | basic => exact ⟨[], .inl rfl⟩
  | literal => exact ⟨[], .inr rfl⟩
  | multiBasic => exact ⟨['"', '"'], .inl rfl⟩
  | multiLiteral => exact ⟨['\'', '\''], .inr rfl⟩

theorem render_start (s : List Char) :
    ∃ t, Printer.render s = '"' :: t ∨ Printer.render s = '\'' :: t := by
  obtain ⟨t, ht | ht⟩ := delimiter_start (Printer.quoting s)
  · exact ⟨_, .inl (by rw [Printer.render, ht, List.append_assoc, List.append_assoc,
      List.cons_append])⟩
  · exact ⟨_, .inr (by rw [Printer.render, ht, List.append_assoc, List.append_assoc,
      List.cons_append])⟩

theorem writes_quote (s : String) : Writes (Printer.quote s).toList (.string s) where
  start := by
    obtain ⟨t, ht | ht⟩ := render_start s.toList <;> simp [Printer.quote, ht, isBlank]
  reads n rest := by
    have hread : Lexeme.string (Printer.render s.toList ++ '\n' :: rest) =
        some (s.toList, '\n' :: rest) := string_render s.toList (by simp)
    obtain ⟨t, ht | ht⟩ := render_start s.toList
    · rw [ht, List.cons_append] at hread
      simp [Printer.quote, ht, readValue, hread]
    · rw [ht, List.cons_append] at hread
      simp [Printer.quote, ht, readValue, hread]

/-! ### Whole numbers -/

section Digits

variable {ds : List Char} (hd : ∀ c ∈ ds, c.isDigit = true) (rest : List Char)

include hd

theorem dropWhile_digits : (ds ++ '\n' :: rest).dropWhile Char.isDigit = '\n' :: rest := by
  rw [List.dropWhile_append_of_pos hd]
  rfl

/-- Digits alone are no date, which has a hyphen behind its first digits. -/
theorem startsDate_digits : startsDate (ds ++ '\n' :: rest) = false := by
  have hbehind := dropWhile_digits hd rest
  rw [Bool.eq_false_iff]
  intro hdate
  unfold startsDate at hdate
  split at hdate
  · rename_i heq
    simp only [Bool.and_eq_true] at hdate
    obtain ⟨⟨⟨ha, hb⟩, hc⟩, hd⟩ := hdate
    rw [heq] at hbehind
    simp [ha, hb, hc, hd] at hbehind
  · exact absurd hdate (by decide)

/-- Digits alone are no time, which has a colon behind its first digits. -/
theorem startsTime_digits : startsTime (ds ++ '\n' :: rest) = false := by
  have hbehind := dropWhile_digits hd rest
  rw [Bool.eq_false_iff]
  intro htime
  unfold startsTime at htime
  split at htime
  · rename_i hour more heq
    unfold twoDigits at heq
    split at heq
    · rename_i a b behind htext
      simp only [Bool.and_eq_true] at heq
      split at heq
      · rename_i hdigits
        obtain ⟨⟨⟨ha, hb⟩, -⟩, -⟩ := hdigits
        obtain ⟨-, rfl⟩ := Prod.mk.inj (Option.some.inj heq)
        rw [htext] at hbehind
        simp [ha, hb] at hbehind
      · exact absurd heq (by simp)
    · exact absurd heq (by simp)
  · exact absurd htime (by decide)

theorem moreDigits_digits :
    moreDigits Char.isDigit (ds ++ '\n' :: rest) = some (ds, '\n' :: rest) := by
  induction ds with
  | nil => rfl
  | cons c ds ih =>
    obtain ⟨hc, hds⟩ := List.forall_mem_cons.1 hd
    have hunder : c ≠ '_' := ne_of_kinds hc (by decide)
    rw [List.cons_append, moreDigits]
    · simp [hc, ih hds]
    · simp [hunder]
    · simp [hunder]

end Digits

theorem wholeDigits_toDigits (n : Nat) (rest : List Char) :
    wholeDigits (Nat.toDigits 10 n ++ '\n' :: rest) = some (Nat.toDigits 10 n, '\n' :: rest) := by
  by_cases hn : n = 0
  · subst hn
    rw [Nat.toDigits_zero]
    rfl
  · have hhead := Decimal.head_toDigits (Nat.pos_of_ne_zero hn)
    have hdigits := Decimal.isDigit_toDigits n
    cases hds : Nat.toDigits 10 n with
    | nil => exact absurd hds Nat.toDigits_ne_nil
    | cons c ds =>
      rw [hds] at hhead hdigits
      obtain ⟨hc, hmore⟩ := List.forall_mem_cons.1 hdigits
      have hzero : c ≠ '0' := by simpa using hhead
      simp [wholeDigits, hzero, someDigits, hc, moreDigits_digits hmore]

/-- Whole numbers are read back as far as a signed word goes. -/
theorem decimal_toDigits {n : Nat} (hn : n < 0x8000000000000000) (rest : List Char) :
    Lexeme.decimal false (Nat.toDigits 10 n ++ '\n' :: rest) =
      some (.integer n, '\n' :: rest) := by
  have hfraction : fractionPart ('\n' :: rest) = some (none, '\n' :: rest) := rfl
  have hexponent : exponentPart ('\n' :: rest) = some (none, '\n' :: rest) := rfl
  have hvalue := Decimal.ofDigits_toDigits n
  have hrange : (-0x8000000000000000 : Int) ≤ Decimal.ofDigits 0 (Nat.toDigits 10 n) ∧
      (Decimal.ofDigits 0 (Nat.toDigits 10 n) : Int) < 0x8000000000000000 := by
    rw [hvalue]
    omega
  unfold Lexeme.decimal
  refine Option.bind_eq_some_iff.2 ⟨_, wholeDigits_toDigits n rest, ?_⟩
  refine Option.bind_eq_some_iff.2 ⟨_, hfraction, ?_⟩
  refine Option.bind_eq_some_iff.2 ⟨_, hexponent, ?_⟩
  refine (if_pos hrange).trans ?_
  rw [hvalue]
  rfl

/-- A number is in decimal, without a sign, if it starts with a digit and goes on as no number in
another base does. -/
theorem number_of_digit {c d : Char} {rest : List Char} (hc : c.isDigit = true)
    (hd : d.isDigit = true ∨ d = '\n') :
    Lexeme.number (c :: d :: rest) = Lexeme.decimal false (c :: d :: rest) := by
  have hbase : ∀ b, b.isDigit = false → b ≠ '\n' → d ≠ b := by
    intro b hb hline
    rcases hd with hd | rfl
    · exact ne_of_kinds hd hb
    · exact Ne.symm hline
  have hx : d ≠ 'x' := hbase 'x' (by decide) (by decide)
  have ho : d ≠ 'o' := hbase 'o' (by decide) (by decide)
  have hb : d ≠ 'b' := hbase 'b' (by decide) (by decide)
  have hplus : c ≠ '+' := ne_of_kinds hc (by decide)
  have hminus : c ≠ '-' := ne_of_kinds hc (by decide)
  have hi : c ≠ 'i' := ne_of_kinds hc (by decide)
  have hn : c ≠ 'n' := ne_of_kinds hc (by decide)
  have hsign : Decimal.readSign (c :: d :: rest) = (false, c :: d :: rest) := by
    simp [Decimal.readSign, hplus, hminus]
  have hspecial : special (c :: d :: rest) = none := by
    simp [special, hi, hn]
  simp [Lexeme.number, hx, ho, hb, hsign, hspecial]

theorem number_toDigits {n : Nat} (hn : n < 0x8000000000000000) (rest : List Char) :
    Lexeme.number (Nat.toDigits 10 n ++ '\n' :: rest) = some (.integer n, '\n' :: rest) := by
  have hdigits := Decimal.isDigit_toDigits n
  rw [← decimal_toDigits hn]
  rcases hds : Nat.toDigits 10 n with - | ⟨c, - | ⟨d, ds⟩⟩
  · exact absurd hds Nat.toDigits_ne_nil
  · exact number_of_digit (hdigits c (by simp [hds])) (.inr rfl)
  · exact number_of_digit (hdigits c (by simp [hds])) (.inl (hdigits d (by simp [hds])))

theorem readValue_of_digit {c : Char} {s : List Char} (hc : c.isDigit = true) (n depth : Nat) :
    readValue (n + 1) depth (c :: s) = numberOrDate (c :: s) := by
  have hsquare : c ≠ '[' := ne_of_kinds hc (by decide)
  have hbrace : c ≠ '\x7b' := ne_of_kinds hc (by decide)
  have hdouble : c ≠ '"' := ne_of_kinds hc (by decide)
  have hsingle : c ≠ '\'' := ne_of_kinds hc (by decide)
  have ht : c ≠ 't' := ne_of_kinds hc (by decide)
  have hf : c ≠ 'f' := ne_of_kinds hc (by decide)
  simp [readValue, hsquare, hbrace, hdouble, hsingle, ht, hf]

theorem writes_number {n : Nat} (hn : n < 0x8000000000000000) :
    Writes (toString n).toList (.integer n) := by
  have hdigits := Decimal.isDigit_toDigits n
  have htext : (toString n).toList = Nat.toDigits 10 n := by simp
  rw [htext]
  constructor
  · intro c hc
    have hdigit := hdigits c (List.mem_of_head? hc)
    have hspace : c ≠ ' ' := ne_of_kinds hdigit (by decide)
    have htab : c ≠ '\t' := ne_of_kinds hdigit (by decide)
    simp [isBlank, hspace, htab]
  · intro k rest
    have hread : numberOrDate (Nat.toDigits 10 n ++ '\n' :: rest) =
        some (.integer n, '\n' :: rest) := by
      simp [numberOrDate, startsDate_digits hdigits, startsTime_digits hdigits,
        number_toDigits hn]
    rw [← hread]
    cases hds : Nat.toDigits 10 n with
    | nil => exact absurd hds Nat.toDigits_ne_nil
    | cons c ds => exact readValue_of_digit (hdigits c (by simp [hds])) (k + 1) 0

/-! ### Lines -/

theorem readLine_entry {k t : List Char} {v : Toml} (hk : IsBare k) (hv : Writes t v)
    (rest : List Char) :
    readLine (k ++ ' ' :: '=' :: ' ' :: (t ++ '\n' :: rest)) =
      some (.entry [] (String.ofList k) v, rest) := by
  obtain ⟨c, more, htext, hc⟩ := hk.head (' ' :: '=' :: ' ' :: (t ++ '\n' :: rest))
  have hsquare : c ≠ '[' := ne_of_kinds hc (by decide)
  have hkey := key_bare hk (t := ' ' :: '=' :: ' ' :: (t ++ '\n' :: rest)) (by simp; decide)
    (by simp [skipBlanks, isBlank])
  have hequals : skipBlanks (' ' :: '=' :: ' ' :: (t ++ '\n' :: rest)) =
      '=' :: ' ' :: (t ++ '\n' :: rest) := by simp [skipBlanks, isBlank]
  have hstart : skipBlanks (t ++ '\n' :: rest) = t ++ '\n' :: rest := by
    apply skipBlanks_of_head
    intro d hd
    rcases head?_append_cons hd with hd | rfl
    · exact hv.start d hd
    · decide
  have hskip : skipBlanks (' ' :: (t ++ '\n' :: rest)) = t ++ '\n' :: rest := hstart
  rw [htext] at hkey ⊢
  rw [hequals] at hkey
  simp [readLine, hsquare, hkey, hskip, hv.reads, lineEnd]

theorem readLine_tables {k : List Char} (hk : IsBare k) (rest : List Char) :
    readLine ('[' :: '[' :: (k ++ ']' :: ']' :: '\n' :: rest)) =
      some (.tables [] (String.ofList k), rest) := by
  have hkey := key_bare hk (t := ']' :: ']' :: '\n' :: rest) (by simp; decide)
    (by simp [skipBlanks, isBlank])
  have hskip : skipBlanks (']' :: ']' :: '\n' :: rest) = ']' :: ']' :: '\n' :: rest := by
    simp [skipBlanks, isBlank]
  simp [readLine, hkey, hskip, lineEnd]

/-- Text of a document, and the lines that it has. -/
inductive Written : List Char → List TomlLine → Prop where
  | done : Written [] []
  | blank {s : List Char} {ls : List TomlLine} (h : Written s ls) : Written ('\n' :: s) ls
  | entry {k t s : List Char} {v : Toml} {ls : List TomlLine} (hk : IsBare k) (hv : Writes t v)
      (h : Written s ls) :
      Written (k ++ ' ' :: '=' :: ' ' :: (t ++ '\n' :: s))
        (.entry [] (String.ofList k) v :: ls)
  | tables {k s : List Char} {ls : List TomlLine} (hk : IsBare k) (h : Written s ls) :
      Written ('[' :: '[' :: (k ++ ']' :: ']' :: '\n' :: s)) (.tables [] (String.ofList k) :: ls)

theorem readLines_line {c : Char} {s rest : List Char} {l : TomlLine} (n : Nat)
    (hc : isKeyChar c = true ∨ c = '[') (hl : readLine (c :: s) = some (l, rest)) :
    readLines (n + 1) (c :: s) = (readLines n rest).map (l :: ·) := by
  have hother : ∀ d, isKeyChar d = false → d ≠ '[' → c ≠ d := by
    intro d hd hsquare
    rcases hc with hc | rfl
    · exact ne_of_kinds hc hd
    · exact Ne.symm hsquare
  have hline : c ≠ '\n' := hother '\n' (by decide) (by decide)
  have hcr : c ≠ '\r' := hother '\r' (by decide) (by decide)
  have hhash : c ≠ '#' := hother '#' (by decide) (by decide)
  have hspace : c ≠ ' ' := hother ' ' (by decide) (by decide)
  have htab : c ≠ '\t' := hother '\t' (by decide) (by decide)
  have hskip : skipBlanks (c :: s) = c :: s := by simp [skipBlanks, isBlank, hspace, htab]
  simp [readLines, hskip, hline, hcr, hhash, hl]

theorem readLines_written {s : List Char} {ls : List TomlLine} (h : Written s ls) {n : Nat}
    (hn : s.length < n) : readLines n s = some ls := by
  induction h generalizing n with
  | done =>
    obtain ⟨n, rfl⟩ := Nat.exists_eq_add_of_lt hn
    simp [readLines, skipBlanks]
  | @blank s ls h ih =>
    cases n with
    | zero => omega
    | succ n =>
      have hrest := ih (n := n) (by simpa using hn)
      simpa [readLines, skipBlanks, isBlank] using hrest
  | @entry k t s v ls hk hv h ih =>
    cases n with
    | zero => omega
    | succ n =>
      have hline := readLine_entry hk hv s
      have hrest := ih (n := n) (by simp at hn; omega)
      obtain ⟨c, more, htext, hc⟩ := hk.head (' ' :: '=' :: ' ' :: (t ++ '\n' :: s))
      rw [htext] at hline ⊢
      rw [readLines_line n (.inl hc) hline, hrest]
      rfl
  | @tables k s ls hk h ih =>
    cases n with
    | zero => omega
    | succ n =>
      have hrest := ih (n := n) (by simp at hn; omega)
      rw [readLines_line n (.inr rfl) (readLine_tables hk s), hrest]
      rfl

/-- A written document that does not start with a byte order mark is that of its lines. -/
theorem ofText?_written {s : String} {ls : List TomlLine} (h : Written s.toList ls)
    (hmark : s.toList.head? ≠ some '\uFEFF') : ofText? s = ofLines? ls := by
  have hread := readLines_written h (Nat.lt_succ_self _)
  unfold ofText?
  split
  · rename_i heq
    exact absurd (by simp [heq]) hmark
  · exact congrArg (Option.bind · ofLines?) hread

end ResourceApi.Toml
