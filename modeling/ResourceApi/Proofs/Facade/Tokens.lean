import ResourceApi.Manifest.Name

/-!
What a generated text consists of: signs of code, strings and comments. A text is read character by
character. The reading fails where a string goes over the end of its line, where anything else than
a comment starts with a slash, and at characters in quotation marks, marks of escapes and all other
forms of strings, none of which are generated.
-/

namespace ResourceApi.Facade

inductive Token where
  | sign (c : Char)
  | string (s : List Char)
  | comment (s : List Char)
  deriving DecidableEq

namespace Token

/-- A token as it stands in the text; the end of the line does not belong to a comment. -/
def text : Token → List Char
  | sign c => [c]
  | string s => '"' :: (s ++ ['"'])
  | comment s => '/' :: '/' :: s

def sign? : Token → Option Char
  | sign c => some c
  | _ => none

def string? : Token → Option (List Char)
  | string s => some s
  | _ => none

end Token

/-- Where a reader is; of a string or comment that it is in, it keeps what it has read, last first.
-/
inductive Mode where
  /-- The flag says whether a quotation mark would belong to what stands in front of it. -/
  | code (joined : Bool)
  | slash
  | tick
  | label
  | string (read : List Char)
  | comment (read : List Char)

namespace Mode

/-- What of the text is in no token yet. -/
def pending : Mode → List Char
  | slash => ['/']
  | string read => '"' :: read.reverse
  | comment read => '/' :: '/' :: read.reverse
  | _ => []

def stepCode (joined : Bool) (c : Char) : Option (Mode × List Token) :=
  if c = '"' then if joined then none else some (string [], [])
  else if c = '/' then some (slash, [])
  else if c = '\'' then some (tick, [.sign c])
  else some (code (Name.isWordChar c || c = '#'), [.sign c])

/-- What one character ends or adds. -/
def step : Mode → Char → Option (Mode × List Token)
  | code joined, c => stepCode joined c
  | slash, c => if c = '/' then some (comment [], []) else none
  | tick, c => if Name.isWordChar c then some (label, [.sign c]) else none
  | label, c =>
    if c = '\'' then none
    else if Name.isWordChar c then some (label, [.sign c])
    else stepCode true c
  | string read, c =>
    if c = '"' then some (code false, [.string read.reverse])
    else if c = '\n' ∨ c = '\\' then none
    else some (string (c :: read), [])
  | comment read, c =>
    if c = '\n' then some (code false, [.comment read.reverse, .sign c])
    else some (comment (c :: read), [])

def run : Mode → List Char → Option (Mode × List Token)
  | m, [] => some (m, [])
  | m, c :: s => do
    let (m, ts) ← m.step c
    let (m, us) ← m.run s
    some (m, ts ++ us)

end Mode

def scan (s : List Char) : Option (List Token) :=
  match (Mode.code false).run s with
  | some (.code _, ts) => some ts
  | some (.label, ts) => some ts
  | some (.comment read, ts) => some (ts ++ [.comment read.reverse])
  | _ => none

namespace Mode

variable {m m' m'' : Mode} {s t : List Char} {ts us : List Token}

theorem run_nil (m : Mode) : m.run [] = some (m, []) := rfl

theorem run_cons {c : Char} (hc : m.step c = some (m', ts)) (hs : m'.run s = some (m'', us)) :
    m.run (c :: s) = some (m'', ts ++ us) := by
  simp [run, hc, hs]

/-- Texts are read one after the other. -/
theorem run_append (hs : m.run s = some (m', ts)) (ht : m'.run t = some (m'', us)) :
    m.run (s ++ t) = some (m'', ts ++ us) := by
  induction s generalizing m ts with
  | nil =>
    cases hs
    exact ht
  | cons c s ih =>
    simp only [run, Option.bind_eq_bind, Option.bind_eq_some_iff] at hs
    obtain ⟨⟨m₁, ts₁⟩, hc, ⟨m₂, ts₂⟩, hs, heq⟩ := hs
    cases heq
    rw [List.cons_append, run_cons hc (ih hs), List.append_assoc]

/-! ### Stretches of one kind -/

/-- Signs that are not read as code. -/
def codeStops : List Char := ['"', '/', '\'']

theorem step_plain {c : Char} (h : c ∉ codeStops) (joined : Bool) :
    (code joined).step c = some (code (Name.isWordChar c || c = '#'), [.sign c]) := by
  simp only [codeStops, List.mem_cons, List.not_mem_nil, or_false, not_or] at h
  rw [step, stepCode, if_neg h.1, if_neg h.2.1, if_neg h.2.2]

/-- Signs of code are tokens of their own. -/
theorem run_plain (h : ∀ c ∈ s, c ∉ codeStops) (joined : Bool) :
    ∃ joined', (code joined).run s = some (code joined', s.map .sign) := by
  induction s generalizing joined with
  | nil => exact ⟨joined, rfl⟩
  | cons c s ih =>
    obtain ⟨hc, hs⟩ := List.forall_mem_cons.1 h
    obtain ⟨joined', hrun⟩ := ih hs (Name.isWordChar c || c = '#')
    exact ⟨joined', run_cons (step_plain hc joined) hrun⟩

/-- Behind a sign that nothing can be joined to, anything may follow. -/
theorem run_plain_concat (h : ∀ c ∈ s, c ∉ codeStops) {c : Char} (hc : c ∉ codeStops)
    (hends : (Name.isWordChar c || c = '#') = false) (joined : Bool) :
    (code joined).run (s ++ [c]) = some (code false, (s ++ [c]).map .sign) := by
  obtain ⟨joined', hrun⟩ := run_plain h joined
  have hlast : (code joined').run [c] = some (code false, [.sign c]) := by
    rw [← hends]
    exact run_cons (step_plain hc joined') rfl
  rw [run_append hrun hlast, List.map_append, List.map_singleton]

/-- Characters at which a string would end or go on in another way. -/
def stringStops : List Char := ['"', '\n', '\\']

/-- A string is one token, up to its closing quote. -/
theorem run_string (h : ∀ c ∈ s, c ∉ stringStops) (read : List Char) :
    (string read).run (s ++ ['"']) = some (code false, [.string (read.reverse ++ s)]) := by
  induction s generalizing read with
  | nil => simp [run, step]
  | cons c s ih =>
    obtain ⟨hc, hs⟩ := List.forall_mem_cons.1 h
    simp only [stringStops, List.mem_cons, List.not_mem_nil, or_false, not_or] at hc
    have hstep : (string read).step c = some (string (c :: read), []) := by
      rw [step, if_neg hc.1, if_neg (not_or.2 hc.2)]
    rw [List.cons_append, run_cons hstep (ih hs (c :: read))]
    simp

theorem run_quoted (h : ∀ c ∈ s, c ∉ stringStops) :
    (code false).run ('"' :: (s ++ ['"'])) = some (code false, [.string s]) :=
  run_cons (rfl : (code false).step '"' = some (string [], [])) (run_string h [])

/-- A comment is one token, up to the end of its line. -/
theorem run_comment (h : '\n' ∉ s) (read : List Char) :
    (comment read).run (s ++ ['\n']) =
      some (code false, [.comment (read.reverse ++ s), .sign '\n']) := by
  induction s generalizing read with
  | nil => simp [run, step]
  | cons c s ih =>
    obtain ⟨hc, hs⟩ := not_or.1 (mt List.mem_cons.2 h)
    have hstep : (comment read).step c = some (comment (c :: read), []) := by
      rw [step, if_neg (Ne.symm hc)]
    rw [List.cons_append, run_cons hstep (ih hs (c :: read))]
    simp

theorem run_remark (h : '\n' ∉ s) (joined : Bool) :
    (code joined).run ('/' :: '/' :: (s ++ ['\n'])) =
      some (code false, [.comment s, .sign '\n']) :=
  run_cons (rfl : (code joined).step '/' = some (slash, []))
    (run_cons (rfl : slash.step '/' = some (comment [], [])) (run_comment h []))

/-! ### Nothing is lost -/

theorem stepCode_text {joined : Bool} {c : Char} (h : stepCode joined c = some (m', ts)) :
    [c] = ts.flatMap Token.text ++ m'.pending := by
  rw [stepCode] at h
  split at h
  · rename_i hc
    split at h
    · cases h
    · cases h
      rw [hc]
      rfl
  · split at h
    · rename_i hc
      cases h
      rw [hc]
      rfl
    · split at h <;> cases h <;> rfl

/-- With each character, tokens and what is pending together are the text read so far. -/
theorem step_text {c : Char} (h : m.step c = some (m', ts)) :
    m.pending ++ [c] = ts.flatMap Token.text ++ m'.pending := by
  cases m with
  | code joined => exact stepCode_text h
  | slash =>
    simp only [step, Option.ite_none_right_eq_some] at h
    obtain ⟨rfl, h⟩ := h
    cases h
    rfl
  | tick =>
    simp only [step, Option.ite_none_right_eq_some] at h
    obtain ⟨-, h⟩ := h
    cases h
    rfl
  | label =>
    simp only [step, Option.ite_none_left_eq_some] at h
    obtain ⟨-, h⟩ := h
    split at h
    · cases h
      rfl
    · exact stepCode_text h
  | string read =>
    rw [step] at h
    split at h
    · rename_i hc
      cases h
      simp [pending, Token.text, hc]
    · split at h
      · cases h
      · cases h
        simp [pending]
  | comment read =>
    rw [step] at h
    split at h
    · cases h
      simp [pending, Token.text]
    · cases h
      simp [pending]

/-- No character of a text is lost or added. -/
theorem run_text (h : m.run s = some (m', ts)) :
    m.pending ++ s = ts.flatMap Token.text ++ m'.pending := by
  induction s generalizing m ts with
  | nil =>
    cases h
    simp
  | cons c s ih =>
    simp only [run, Option.bind_eq_bind, Option.bind_eq_some_iff] at h
    obtain ⟨⟨m₁, ts₁⟩, hc, ⟨m₂, ts₂⟩, hs, heq⟩ := h
    cases heq
    rw [List.append_cons, step_text hc, List.append_assoc, ih hs, List.flatMap_append,
      List.append_assoc]

end Mode

/-- The tokens of a text, one after the other, are the text. -/
theorem text_scan {s : List Char} {ts : List Token} (h : scan s = some ts) :
    ts.flatMap Token.text = s := by
  rw [scan] at h
  split at h
  · rename_i ts' hrun
    cases h
    simpa [Mode.pending] using (Mode.run_text hrun).symm
  · rename_i ts' hrun
    cases h
    simpa [Mode.pending] using (Mode.run_text hrun).symm
  · rename_i read ts' hrun
    cases h
    simpa [Mode.pending, Token.text] using (Mode.run_text hrun).symm
  · cases h

/-! ### Brackets -/

def closer? : Char → Option Char
  | '{' => some '}'
  | '(' => some ')'
  | '[' => some ']'
  | _ => none

def brackets : List Char := ['{', '}', '(', ')', '[', ']']

/-- Keeps what has to close the open brackets, innermost first. -/
def nest (stack : List Char) (c : Char) : Option (List Char) :=
  match closer? c with
  | some d => some (d :: stack)
  | none =>
    if c ∉ brackets then some stack
    else match stack with
      | d :: rest => if d = c then some rest else none
      | [] => none

/-- The brackets of a text open and close in pairs, one within the other. -/
def IsNested (s : List Char) : Prop := s.foldlM nest [] = some []

instance (s : List Char) : Decidable (IsNested s) :=
  inferInstanceAs (Decidable (s.foldlM nest [] = some []))

/-- A text that leaves all brackets around it as they are. -/
def IsClosed (s : List Char) : Prop := ∀ stack, s.foldlM nest stack = some stack

theorem nest_of_notMem {c : Char} (h : c ∉ brackets) (stack : List Char) :
    nest stack c = some stack := by
  have hopen : closer? c = none := by
    unfold closer?
    split
    · exact absurd (by decide) h
    · exact absurd (by decide) h
    · exact absurd (by decide) h
    · rfl
  simp [nest, hopen, h]

/-- A text without brackets leaves those around it as they are. -/
theorem isClosed_of_notMem {s : List Char} (h : ∀ c ∈ s, c ∉ brackets) : IsClosed s := by
  intro stack
  induction s with
  | nil => rfl
  | cons c s ih =>
    obtain ⟨hc, hs⟩ := List.forall_mem_cons.1 h
    rw [List.foldlM_cons, nest_of_notMem hc]
    exact ih hs

theorem foldlM_nest_append {s t stack stack' : List Char} (h : s.foldlM nest stack = some stack') :
    (s ++ t).foldlM nest stack = t.foldlM nest stack' := by
  rw [List.foldlM_append, h]
  rfl

theorem IsClosed.append {s t : List Char} (hs : IsClosed s) (ht : IsClosed t) :
    IsClosed (s ++ t) := by
  intro stack
  rw [foldlM_nest_append (hs stack), ht]

/-- Brackets further out do not matter. -/
theorem nest_append {stack stack' : List Char} {c : Char} (h : nest stack c = some stack')
    (outer : List Char) : nest (stack ++ outer) c = some (stack' ++ outer) := by
  unfold nest at h ⊢
  cases hopen : closer? c with
  | some d =>
    simp only [hopen] at h
    cases h
    rfl
  | none =>
    simp only [hopen] at h
    by_cases hc : c ∉ brackets
    · rw [if_pos hc] at h
      cases h
      exact if_pos hc
    · rw [if_neg hc] at h
      cases stack with
      | nil => cases h
      | cons d rest =>
        obtain ⟨hd, h⟩ := Option.ite_none_right_eq_some.1 h
        cases h
        exact (if_neg hc).trans (if_pos hd)

/-- What is nested in itself fits in between any brackets. -/
theorem IsNested.isClosed {s : List Char} (h : IsNested s) : IsClosed s := by
  have hrun : ∀ (s stack stack' outer : List Char), s.foldlM nest stack = some stack' →
      s.foldlM nest (stack ++ outer) = some (stack' ++ outer) := by
    intro s
    induction s with
    | nil =>
      rintro stack _ outer ⟨⟩
      rfl
    | cons c s ih =>
      intro stack stack' outer hs
      obtain ⟨between, hc, hs⟩ := Option.bind_eq_some_iff.1 hs
      rw [List.foldlM_cons, nest_append hc]
      exact ih between stack' outer hs
  exact fun stack => hrun s [] [] stack h

/-- Strings and comments have brackets only in pairs. -/
def Token.IsClosed : Token → Prop
  | sign _ => True
  | string s => Facade.IsClosed s
  | comment s => Facade.IsClosed s

/-- Brackets in strings and comments do not matter where they come in pairs. -/
theorem foldlM_nest_text {ts : List Token} (h : ∀ t ∈ ts, t.IsClosed) (stack : List Char) :
    (ts.flatMap Token.text).foldlM nest stack = (ts.filterMap Token.sign?).foldlM nest stack := by
  induction ts generalizing stack with
  | nil => rfl
  | cons t ts ih =>
    obtain ⟨ht, hts⟩ := List.forall_mem_cons.1 h
    cases t with
    | sign c =>
      have hsign : (Token.sign c).sign? = some c := rfl
      rw [List.flatMap_cons, List.filterMap_cons_some hsign, Token.text, List.singleton_append,
        List.foldlM_cons, List.foldlM_cons]
      exact bind_congr fun stack' => ih hts stack'
    | string s =>
      have hquote : IsClosed ['"'] := IsNested.isClosed (by decide)
      have htext : IsClosed (Token.string s).text := hquote.append (ht.append hquote)
      rw [List.flatMap_cons, List.filterMap_cons_none rfl, foldlM_nest_append (htext stack)]
      exact ih hts stack
    | comment s =>
      have hslashes : IsClosed ['/', '/'] := IsNested.isClosed (by decide)
      have htext : IsClosed (Token.comment s).text := hslashes.append ht
      rw [List.flatMap_cons, List.filterMap_cons_none rfl, foldlM_nest_append (htext stack)]
      exact ih hts stack

end ResourceApi.Facade
