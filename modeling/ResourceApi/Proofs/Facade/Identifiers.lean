import ResourceApi.Proofs.Facade.Template

/-!
The identifiers in generated code. Strings and comments are shaded, so that what remains of a text
is code. A text that is read as a whole, from code to code, is put together from such texts, and an
identifier occurs in it if and only if it occurs in one of them.
-/

namespace ResourceApi.Facade

/-- What remains of a token when the insides of strings and comments are left out. -/
def Token.shade : Token → Char
  | sign c => c
  | string _ => '"'
  | comment _ => '/'

def codeOf (ts : List Token) : List Char := ts.map Token.shade

/-- The words of some code, each as long as it can be. -/
def wordsOf (s : List Char) : List (List Char) :=
  (s.splitOnP fun c => !Name.isWordChar c).filter fun w => !w.isEmpty

/-! ### Words -/

theorem codeOf_sign (s : List Char) : codeOf (s.map .sign) = s := by
  rw [codeOf, List.map_map]
  exact List.map_id s

/-- A character that is in no word ends the words in front of it. -/
theorem wordsOf_append_cons {c : Char} (hc : Name.isWordChar c = false) (s t : List Char) :
    wordsOf (s ++ c :: t) = wordsOf s ++ wordsOf t := by
  have hsplit : (!Name.isWordChar c) = true := by rw [hc]; rfl
  rw [wordsOf, List.splitOnP_append_cons s t hsplit, List.filter_append]
  rfl

theorem wordsOf_word {w : List Char} (hne : w ≠ []) (hw : ∀ c ∈ w, Name.isWordChar c = true) :
    wordsOf w = [w] := by
  have hsplit : w.splitOnP (fun c => !Name.isWordChar c) = [w] :=
    List.splitOnP_eq_singleton fun c hc => by simp [hw c hc]
  rw [wordsOf, hsplit, List.filter_cons_of_pos (by simpa using hne)]
  rfl

/-- Code of which the last word ends where the code ends. -/
def EndsApart (s : List Char) : Prop := ∀ t, wordsOf (s ++ t) = wordsOf s ++ wordsOf t

theorem endsApart_nil : EndsApart [] := fun _ => rfl

theorem endsApart_concat {c : Char} (hc : Name.isWordChar c = false) (s : List Char) :
    EndsApart (s ++ [c]) := by
  intro t
  rw [List.append_assoc, List.singleton_append, wordsOf_append_cons hc, wordsOf_append_cons hc]
  simp [wordsOf]

theorem EndsApart.append {s t : List Char} (hs : EndsApart s) (ht : EndsApart t) :
    EndsApart (s ++ t) := by
  intro u
  rw [List.append_assoc, hs, ht, hs, List.append_assoc]

/-- Whether a word occurs in a text that is code. -/
def Names (n s : String) : Prop := n.toList ∈ wordsOf s.toList

instance (n s : String) : Decidable (Names n s) :=
  inferInstanceAs (Decidable (n.toList ∈ wordsOf s.toList))

/-- Whether no word goes on behind a text, or into it. -/
def isClosedBehind (s : String) : Bool := s.toList.getLast?.all fun c => !Name.isWordChar c

def isClosedBefore (s : String) : Bool := s.toList.head?.all fun c => !Name.isWordChar c

section Names

variable {n s t : String}

theorem isClosedBefore_append (hne : s ≠ "") (t : String) :
    isClosedBefore (s ++ t) = isClosedBefore s := by
  rw [isClosedBefore, String.toList_append, List.head?_append_of_ne_nil _ (by simpa using hne)]
  rfl

theorem isClosedBehind_append (hne : t ≠ "") (s : String) :
    isClosedBehind (s ++ t) = isClosedBehind t := by
  rw [isClosedBehind, String.toList_append, List.getLast?_append_of_ne_nil _ (by simpa using hne)]
  rfl

/-- Behind a text that is closed, words begin anew. -/
theorem names_append_of_behind (h : isClosedBehind s = true) :
    Names n (s ++ t) ↔ Names n s ∨ Names n t := by
  have hs : EndsApart s.toList := by
    rw [isClosedBehind] at h
    cases hlast : s.toList.getLast? with
    | none =>
      rw [List.getLast?_eq_none_iff.1 hlast]
      exact endsApart_nil
    | some c =>
      rw [hlast] at h
      obtain ⟨front, hfront⟩ := List.getLast?_eq_some_iff.1 hlast
      rw [hfront]
      exact endsApart_concat (by simpa using h) front
  rw [Names, String.toList_append, hs, List.mem_append]
  rfl

/-- In front of a text that is closed, words have ended. -/
theorem names_append_of_before (h : isClosedBefore t = true) :
    Names n (s ++ t) ↔ Names n s ∨ Names n t := by
  rw [isClosedBefore] at h
  rw [Names, Names, Names, String.toList_append]
  cases ht : t.toList with
  | nil => simp [wordsOf]
  | cons c rest =>
    rw [ht] at h
    have hc : Name.isWordChar c = false := by simpa using h
    have hself : wordsOf (c :: rest) = wordsOf rest := wordsOf_append_cons hc [] rest
    rw [wordsOf_append_cons hc, hself, List.mem_append]

theorem names_word (hne : s.toList ≠ []) (hs : ∀ c ∈ s.toList, Name.isWordChar c = true) :
    Names n s ↔ n = s := by
  rw [Names, wordsOf_word hne hs, List.mem_singleton, String.toList_inj]

end Names

/-! ### Texts that are read as a whole -/

/-- What remains of a text that is read as a whole, from code to code. -/
def HasCode (text : String) (code : List Char) : Prop :=
  ∃ ts, (Mode.code false).run text.toList = some (.code false, ts) ∧ codeOf ts = code

namespace HasCode

variable {s t : String} {code code' : List Char}

theorem scan (h : HasCode s code) : ∃ ts, Facade.scan s.toList = some ts ∧ codeOf ts = code := by
  obtain ⟨ts, hrun, hcode⟩ := h
  exact ⟨ts, by rw [Facade.scan, hrun], hcode⟩

/-- What remains of a text as code is one text only. -/
theorem unique (h : HasCode s code) (h' : HasCode s code') : code = code' := by
  obtain ⟨ts, hrun, rfl⟩ := h
  obtain ⟨us, hrun', rfl⟩ := h'
  rw [hrun] at hrun'
  cases hrun'
  rfl

/-- Texts that are read from code to code can be put one behind the other. -/
theorem append (h : HasCode s code) (h' : HasCode t code') : HasCode (s ++ t) (code ++ code') := by
  obtain ⟨ts, hrun, rfl⟩ := h
  obtain ⟨us, hrun', rfl⟩ := h'
  refine ⟨ts ++ us, ?_, List.map_append⟩
  rw [String.toList_append, Mode.run_append hrun hrun']

/-- Code up to a sign that no word has. -/
theorem plain (hs : ∀ c ∈ s.toList, c ∉ Mode.codeStops) {c : Char} (hc : c ∉ Mode.codeStops)
    (hends : (Name.isWordChar c || c = '#') = false) :
    HasCode (s ++ String.singleton c) (s.toList ++ [c]) := by
  refine ⟨(s.toList ++ [c]).map .sign, ?_, codeOf_sign _⟩
  rw [String.toList_append, String.toList_singleton, Mode.run_plain_concat hs hc hends]

theorem line (hs : ∀ c ∈ s.toList, c ∉ Mode.codeStops) :
    HasCode (s ++ "\n") (s.toList ++ ['\n']) := by
  have hend : "\n" = String.singleton '\n' := by decide
  rw [hend]
  exact plain hs (by decide) (by decide)

/-- Nothing in a comment is code. -/
theorem remark (hs : '\n' ∉ s.toList) : HasCode ("//" ++ s ++ "\n") ['/', '\n'] := by
  have htext : ("//" ++ s ++ "\n").toList = '/' :: '/' :: (s.toList ++ ['\n']) := by
    simp [String.toList_append]
  exact ⟨[.comment s.toList, .sign '\n'], by rw [htext, Mode.run_remark hs false], rfl⟩

/-- Nothing in a string is code. -/
theorem string (hs : ∀ c ∈ s.toList, c ∉ Mode.stringStops) :
    HasCode ("\"" ++ s ++ "\"") ['"'] := by
  have htext : ("\"" ++ s ++ "\"").toList = '"' :: (s.toList ++ ['"']) := by
    simp [String.toList_append]
  exact ⟨[.string s.toList], by rw [htext, Mode.run_quoted hs], rfl⟩

variable {ls ls' : List String}

theorem lines_nil : HasCode (textOfLines []) [] := ⟨[], rfl, rfl⟩

theorem lines_cons (h : HasCode (s ++ "\n") code) (h' : HasCode (textOfLines ls) code') :
    HasCode (textOfLines (s :: ls)) (code ++ code') := by
  rw [Filled.textOfLines_cons]
  exact h.append h'

theorem lines_append (h : HasCode (textOfLines ls) code) (h' : HasCode (textOfLines ls') code') :
    HasCode (textOfLines (ls ++ ls')) (code ++ code') := by
  rw [Filled.textOfLines_append]
  exact h.append h'

/-- Lines that are code remain as they are. -/
theorem lines (h : ∀ l ∈ ls, ∀ c ∈ l.toList, c ∉ Mode.codeStops) :
    HasCode (textOfLines ls) (textOfLines ls).toList := by
  induction ls with
  | nil => exact lines_nil
  | cons l ls ih =>
    obtain ⟨hl, hls⟩ := List.forall_mem_cons.1 h
    have hcode : (textOfLines (l :: ls)).toList =
        l.toList ++ ['\n'] ++ (textOfLines ls).toList := by
      simp [Filled.textOfLines_cons, String.toList_append]
    rw [hcode]
    exact (line hl).lines_cons (ih hls)

end HasCode

/-- The word occurs in the code of a text just in a certain case, and no word goes on behind it. -/
def Mentions (n text : String) (p : Prop) : Prop :=
  ∃ code, HasCode text code ∧ EndsApart code ∧ (n.toList ∈ wordsOf code ↔ p)

namespace Mentions

variable {n s t : String} {p q : Prop}

theorem congr (h : Mentions n s p) (hpq : p ↔ q) : Mentions n s q := by
  obtain ⟨code, hcode, hend, hn⟩ := h
  exact ⟨code, hcode, hend, hn.trans hpq⟩

/-- A word is mentioned in two texts together just if one of them mentions it. -/
theorem append (h : Mentions n s p) (h' : Mentions n t q) : Mentions n (s ++ t) (p ∨ q) := by
  obtain ⟨code, hcode, hend, hn⟩ := h
  obtain ⟨code', hcode', hend', hn'⟩ := h'
  refine ⟨code ++ code', hcode.append hcode', hend.append hend', ?_⟩
  rw [hend, List.mem_append, hn, hn']

/-- Code up to a sign that no word has. -/
theorem plain (hs : ∀ c ∈ s.toList, c ∉ Mode.codeStops) {c : Char} (hc : c ∉ Mode.codeStops)
    (hends : (Name.isWordChar c || c = '#') = false) :
    Mentions n (s ++ String.singleton c) (Names n s) := by
  have hword : Name.isWordChar c = false := (Bool.or_eq_false_iff.1 hends).1
  refine ⟨_, .plain hs hc hends, endsApart_concat hword _, ?_⟩
  rw [wordsOf_append_cons hword, Names]
  simp [wordsOf]

theorem line (hs : ∀ c ∈ s.toList, c ∉ Mode.codeStops) : Mentions n (s ++ "\n") (Names n s) := by
  have hend : "\n" = String.singleton '\n' := by decide
  rw [hend]
  exact plain hs (by decide) (by decide)

/-- Neither comments nor strings have code in them. -/
theorem remark (hs : '\n' ∉ s.toList) : Mentions n ("//" ++ s ++ "\n") False := by
  have hnone : wordsOf ['/', '\n'] = [] := rfl
  refine ⟨_, .remark hs, endsApart_concat (c := '\n') (by decide) ['/'], ?_⟩
  rw [hnone]
  simp

/-- No word is mentioned in a string. -/
theorem string (hs : ∀ c ∈ s.toList, c ∉ Mode.stringStops) :
    Mentions n ("\"" ++ s ++ "\"") False := by
  have hnone : wordsOf ['"'] = [] := rfl
  refine ⟨_, .string hs, endsApart_concat (c := '"') (by decide) [], ?_⟩
  rw [hnone]
  simp

/-! ### Lines -/

variable {ls ls' : List String}

theorem lines_nil : Mentions n (textOfLines []) False :=
  ⟨[], .lines_nil, endsApart_nil, by simp [wordsOf]⟩

theorem lines_cons (h : Mentions n (s ++ "\n") p) (h' : Mentions n (textOfLines ls) q) :
    Mentions n (textOfLines (s :: ls)) (p ∨ q) := by
  rw [Filled.textOfLines_cons]
  exact h.append h'

theorem lines_append (h : Mentions n (textOfLines ls) p) (h' : Mentions n (textOfLines ls') q) :
    Mentions n (textOfLines (ls ++ ls')) (p ∨ q) := by
  rw [Filled.textOfLines_append]
  exact h.append h'

/-- An empty line between groups of lines has no word. -/
theorem groups_cons {g : List String} {gs : List (List String)} (h : Mentions n (textOfLines g) p)
    (h' : Mentions n (textOfLines (spaced gs)) q) :
    Mentions n (textOfLines (spaced (g :: gs))) (p ∨ q) := by
  cases gs with
  | nil =>
    have hspaced : spaced [g] = g ++ spaced [] := by simp [spaced, List.intercalate]
    rw [hspaced]
    exact h.lines_append h'
  | cons k ks =>
    have hempty : Mentions n ("" ++ "\n") False := (line (by simp)).congr (by simp [Names, wordsOf])
    rw [spaced_cons_cons]
    exact (h.lines_append (hempty.lines_cons h')).congr (by simp)

end Mentions

/-- Groups of lines in which the word occurs just in a certain case, whatever groups follow. -/
def GroupsMention (n : String) (gs : List (List String)) (p : Prop) : Prop :=
  ∀ gs' q, Mentions n (textOfLines (spaced gs')) q →
    Mentions n (textOfLines (spaced (gs ++ gs'))) (p ∨ q)

namespace GroupsMention

variable {n : String} {p q : Prop} {gs gs' : List (List String)}

theorem congr (h : GroupsMention n gs p) (hpq : p ↔ q) : GroupsMention n gs q :=
  fun ks r hks => (h ks r hks).congr (or_congr_left hpq)

theorem nil : GroupsMention n [] False := fun _ _ h => h.congr (by simp)

theorem cons {g : List String} (h : Mentions n (textOfLines g) p) (h' : GroupsMention n gs q) :
    GroupsMention n (g :: gs) (p ∨ q) :=
  fun ks r hks => (h.groups_cons (h' ks r hks)).congr or_assoc.symm

theorem append (h : GroupsMention n gs p) (h' : GroupsMention n gs' q) :
    GroupsMention n (gs ++ gs') (p ∨ q) := by
  intro ks r hks
  rw [List.append_assoc]
  exact (h _ _ (h' ks r hks)).congr or_assoc.symm

theorem flatMap {α : Type} {f : α → List (List String)} {q : α → Prop} {xs : List α}
    (h : ∀ x ∈ xs, GroupsMention n (f x) (q x)) :
    GroupsMention n (xs.flatMap f) (∃ x ∈ xs, q x) := by
  induction xs with
  | nil => exact fun _ _ hks => hks.congr (by simp)
  | cons x xs ih =>
    obtain ⟨hx, hxs⟩ := List.forall_mem_cons.1 h
    have hall := hx.append (ih hxs)
    exact fun ks r hks => (hall ks r hks).congr (by simp)

theorem map {α : Type} {f : α → List String} {q : α → Prop} {xs : List α}
    (h : ∀ x ∈ xs, Mentions n (textOfLines (f x)) (q x)) :
    GroupsMention n (xs.map f) (∃ x ∈ xs, q x) := by
  rw [List.map_eq_flatMap]
  exact flatMap fun x hx => (cons (h x hx) nil).congr (by simp)

/-- The lines between groups mention nothing. -/
theorem spaced (h : GroupsMention n gs p) : Mentions n (textOfLines (spaced gs)) p := by
  have hall := h [] False Mentions.lines_nil
  rw [List.append_nil] at hall
  exact hall.congr (by simp)

end GroupsMention

end ResourceApi.Facade
