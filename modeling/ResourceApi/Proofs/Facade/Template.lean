import Mathlib.Data.List.Forall2
import ResourceApi.Facade.Source
import ResourceApi.Proofs.Facade.Tokens

/-!
Templates and the texts that are made from them. A template has signs that stand for holes; a text
is made from it by putting texts that belong there into the holes. What counts is that this can be
told token by token: what is put into code stays code, and what is put into a string or a comment
stays in it.
-/

namespace ResourceApi.Facade

/-- What belongs into a place of a template. -/
inductive Hole where
  | name | path | model | action | segment | parameter | result
  deriving DecidableEq

namespace Hole

def all : List Hole := [name, path, model, action, segment, parameter, result]

/-- The sign of a hole. None of these occurs in what is the same in all generated texts. -/
def sign : Hole → Char
  | name => '$'
  | path => '%'
  | model => '^'
  | action => '@'
  | segment => '~'
  | parameter => '?'
  | result => '!'

def signs : List Char := all.map sign

def mark (h : Hole) : String := String.singleton h.sign

end Hole

/-! ### Filling -/

/-- Every hole is filled with a text that belongs there, and all else stays. -/
inductive Fills (texts : Hole → List String) : List Char → List Char → Prop
  | nil : Fills texts [] []
  | same {c : Char} {t f : List Char} : c ∉ Hole.signs → Fills texts t f →
      Fills texts (c :: t) (c :: f)
  | hole {h : Hole} {x : String} {t f : List Char} : x ∈ texts h → Fills texts t f →
      Fills texts (h.sign :: t) (x.toList ++ f)

/-- The same, where each text goes into one token, and into code only as signs of code. -/
inductive FillsTokens (texts : Hole → List String) : List Token → List Token → Prop
  | nil : FillsTokens texts [] []
  | same {c : Char} {ts us : List Token} : c ∉ Hole.signs → FillsTokens texts ts us →
      FillsTokens texts (.sign c :: ts) (.sign c :: us)
  | hole {h : Hole} {x : String} {ts us : List Token} : x ∈ texts h → FillsTokens texts ts us →
      FillsTokens texts (.sign h.sign :: ts) (x.toList.map .sign ++ us)
  | string {t f : List Char} {ts us : List Token} : Fills texts t f → FillsTokens texts ts us →
      FillsTokens texts (.string t :: ts) (.string f :: us)
  | comment {t f : List Char} {ts us : List Token} : Fills texts t f → FillsTokens texts ts us →
      FillsTokens texts (.comment t :: ts) (.comment f :: us)

variable {texts : Hole → List String}

theorem Fills.append {t f t' f' : List Char} (h : Fills texts t f) (h' : Fills texts t' f') :
    Fills texts (t ++ t') (f ++ f') := by
  induction h with
  | nil => exact h'
  | same hc _ ih => exact .same hc ih
  | hole hx _ ih =>
    rw [List.append_assoc]
    exact .hole hx ih

/-- A text without holes is made of itself. -/
theorem Fills.refl {s : List Char} (h : ∀ c ∈ s, c ∉ Hole.signs) : Fills texts s s := by
  induction s with
  | nil => exact .nil
  | cons c s ih =>
    obtain ⟨hc, hs⟩ := List.forall_mem_cons.1 h
    exact .same hc (ih hs)

theorem Fills.signs {t f : List Char} (h : Fills texts t f) :
    FillsTokens texts (t.map .sign) (f.map .sign) := by
  induction h with
  | nil => exact .nil
  | same hc _ ih => exact .same hc ih
  | hole hx _ ih =>
    rw [List.map_append]
    exact .hole hx ih

theorem FillsTokens.append {ts us ts' us' : List Token} (h : FillsTokens texts ts us)
    (h' : FillsTokens texts ts' us') : FillsTokens texts (ts ++ ts') (us ++ us') := by
  induction h with
  | nil => exact h'
  | same hc _ ih => exact .same hc ih
  | hole hx _ ih =>
    rw [List.append_assoc]
    exact .hole hx ih
  | string hs _ ih => exact .string hs ih
  | comment hs _ ih => exact .comment hs ih

/-- What a token opens or closes. -/
def Token.delimiter? : Token → Option Char
  | sign c => if c ∈ brackets then some c else none
  | string _ => some '"'
  | comment _ => some '/'

/-- Texts without brackets open and close nothing. -/
theorem FillsTokens.delimiters {ts us : List Token} (h : FillsTokens texts ts us)
    (hplain : ∀ h, ∀ x ∈ texts h, ∀ c ∈ x.toList, c ∉ brackets) :
    us.filterMap Token.delimiter? = ts.filterMap Token.delimiter? := by
  induction h with
  | nil => rfl
  | same _ _ ih => rw [List.filterMap_cons, List.filterMap_cons, ih]
  | @hole h x ts us hx _ ih =>
    have hsign : (Token.sign h.sign).delimiter? = none := by cases h <;> rfl
    have htext : (x.toList.map Token.sign).filterMap Token.delimiter? = [] := by
      rw [List.filterMap_map, List.filterMap_eq_nil_iff]
      exact fun c hc => if_neg (hplain h x hx c hc)
    rw [List.filterMap_append, htext, List.nil_append, List.filterMap_cons_none hsign, ih]
  | string _ _ ih => rw [List.filterMap_cons, List.filterMap_cons, ih]; rfl
  | comment _ _ ih => rw [List.filterMap_cons, List.filterMap_cons, ih]; rfl

/-! ### Texts of one kind -/

/-- A text without holes, and without some signs. -/
def isConst (stops : List Char) (s : String) : Bool :=
  s.toList.all fun c => !(stops ++ Hole.signs).contains c

/-- A piece of a template and what is made of it, without some signs in either, and with what the
brackets in it do. -/
structure Fits (texts : Hole → List String) (stops : List Char) (t f : String)
    (stack stack' : List Char) : Prop where
  fills : Fills texts t.toList f.toList
  template : ∀ c ∈ t.toList, c ∉ stops
  text : ∀ c ∈ f.toList, c ∉ stops
  nests : f.toList.foldlM nest stack = some stack'

namespace Fits

variable {stops : List Char} {t f t' f' : String} {stack stack' stack'' : List Char}

/-- Pieces are put together, the brackets that the first leaves open being those of the second. -/
theorem append (h : Fits texts stops t f stack stack')
    (h' : Fits texts stops t' f' stack' stack'') :
    Fits texts stops (t ++ t') (f ++ f') stack stack'' where
  fills := by
    rw [String.toList_append, String.toList_append]
    exact h.fills.append h'.fills
  template := by
    rw [String.toList_append]
    exact List.forall_mem_append.2 ⟨h.template, h'.template⟩
  text := by
    rw [String.toList_append]
    exact List.forall_mem_append.2 ⟨h.text, h'.text⟩
  nests := by
    rw [String.toList_append, foldlM_nest_append h.nests]
    exact h'.nests

/-- What is the same in all texts. -/
theorem const {s : String} (hs : isConst stops s = true)
    (hn : s.toList.foldlM nest stack = some stack') : Fits texts stops s s stack stack' := by
  have hplain : ∀ c ∈ s.toList, c ∉ stops ++ Hole.signs := by
    intro c hc
    simpa using List.all_eq_true.1 hs c hc
  simp only [List.mem_append, not_or] at hplain
  exact ⟨.refl fun c hc => (hplain c hc).2, fun c hc => (hplain c hc).1,
    fun c hc => (hplain c hc).1, hn⟩

/-- A hole is filled with one of its texts. -/
theorem mark {h : Hole} {x : String} (hx : x ∈ texts h) (hsign : h.sign ∉ stops)
    (htext : ∀ c ∈ x.toList, c ∉ stops ++ brackets) (stack : List Char) :
    Fits texts stops h.mark x stack stack := by
  simp only [List.mem_append, not_or] at htext
  have hmark : h.mark.toList = [h.sign] := String.toList_singleton h.sign
  refine ⟨?_, ?_, fun c hc => (htext c hc).1, isClosed_of_notMem (fun c hc => (htext c hc).2) stack⟩
  · rw [hmark]
    simpa using Fills.hole hx (.nil : Fills texts [] [])
  · rw [hmark]
    simpa using hsign

end Fits

/-- A piece with brackets in pairs only, so that it fits anywhere. -/
def Within (texts : Hole → List String) (stops : List Char) (t f : String) : Prop :=
  ∀ stack, Fits texts stops t f stack stack

theorem Within.append {stops : List Char} {t f t' f' : String} (h : Within texts stops t f)
    (h' : Within texts stops t' f') : Within texts stops (t ++ t') (f ++ f') :=
  fun stack => (h stack).append (h' stack)

theorem Within.const {stops : List Char} {s : String}
    (hs : isConst stops s = true ∧ IsNested s.toList) : Within texts stops s s :=
  fun stack => .const hs.1 (hs.2.isClosed stack)

/-- Brackets may open in front of a piece, or close behind it. -/
theorem Within.around {stops : List Char} {t f : String} (h : Within texts stops t f)
    {before after : String} (hbefore : isConst stops before = true)
    (hafter : isConst stops after = true) {stack between stack' : List Char}
    (hopen : before.toList.foldlM nest stack = some between)
    (hclose : after.toList.foldlM nest between = some stack') :
    Fits texts stops (before ++ t ++ after) (before ++ f ++ after) stack stack' :=
  ((Fits.const hbefore hopen).append (h between)).append (.const hafter hclose)

theorem Within.join {stops : List Char} {ts fs : List String}
    (h : List.Forall₂ (Within texts stops) ts fs) :
    Within texts stops (String.join ts) (String.join fs) := by
  induction h with
  | nil => exact .const ⟨rfl, rfl⟩
  | cons hx _ ih =>
    rw [String.join_cons, String.join_cons]
    exact hx.append ih

/-- What stands in pairs of brackets can be joined by such a text. -/
theorem Within.intercalate {stops : List Char} {sep : String} {ts fs : List String}
    (hsep : Within texts stops sep sep) (h : List.Forall₂ (Within texts stops) ts fs) :
    Within texts stops (sep.intercalate ts) (sep.intercalate fs) := by
  induction h with
  | nil => exact .const ⟨rfl, rfl⟩
  | cons hx hxs ih =>
    cases hxs with
    | nil => simpa using hx
    | cons =>
      rw [String.intercalate_cons_cons, String.intercalate_cons_cons]
      exact (hx.append hsep).append ih

/-! ### Texts of all kinds -/

/-- Texts that are read as a whole, from code to code: the one is filled into the other token by
token, has these strings, each on one line, and does this with brackets. -/
structure FilledAs (texts : Hole → List String) (t f : String) (ss : List (List Char))
    (stack stack' : List Char) (ts us : List Token) : Prop where
  template : (Mode.code false).run t.toList = some (.code false, ts)
  text : (Mode.code false).run f.toList = some (.code false, us)
  fills : FillsTokens texts ts us
  strings : us.filterMap Token.string? = ss
  lines : ∀ s ∈ ss, '\n' ∉ s
  nests : (us.filterMap Token.sign?).foldlM nest stack = some stack'
  closed : ∀ u ∈ us, u.IsClosed

def Filled (texts : Hole → List String) (t f : String) (ss : List (List Char))
    (stack stack' : List Char) : Prop :=
  ∃ ts us, FilledAs texts t f ss stack stack' ts us

namespace Filled

variable {t f t' f' : String} {ss ss' : List (List Char)} {stack stack' stack'' : List Char}

/-- Texts that are read as a whole are put together, and so are their strings. -/
theorem append (h : Filled texts t f ss stack stack') (h' : Filled texts t' f' ss' stack' stack'') :
    Filled texts (t ++ t') (f ++ f') (ss ++ ss') stack stack'' := by
  obtain ⟨ts, us, h⟩ := h
  obtain ⟨ts', us', h'⟩ := h'
  refine ⟨ts ++ ts', us ++ us', ?_, ?_, h.fills.append h'.fills, ?_,
    List.forall_mem_append.2 ⟨h.lines, h'.lines⟩, ?_,
    List.forall_mem_append.2 ⟨h.closed, h'.closed⟩⟩
  · rw [String.toList_append, Mode.run_append h.template h'.template]
  · rw [String.toList_append, Mode.run_append h.text h'.text]
  · rw [List.filterMap_append, h.strings, h'.strings]
  · rw [List.filterMap_append, foldlM_nest_append h.nests, h'.nests]

theorem sign?_map_sign (s : List Char) : (s.map Token.sign).filterMap Token.sign? = s := by
  rw [List.filterMap_map]
  exact List.filterMap_some

theorem string?_map_sign (s : List Char) : (s.map Token.sign).filterMap Token.string? = [] := by
  rw [List.filterMap_map, List.filterMap_eq_nil_iff]
  exact fun _ _ => rfl

/-- Code alone. -/
theorem of_run (ht : (Mode.code false).run t.toList = some (.code false, t.toList.map .sign))
    (hf : (Mode.code false).run f.toList = some (.code false, f.toList.map .sign))
    (hfills : Fills texts t.toList f.toList) (hn : f.toList.foldlM nest stack = some stack') :
    Filled texts t f [] stack stack' := by
  refine ⟨_, _, ht, hf, hfills.signs, string?_map_sign _, by simp, ?_, ?_⟩
  · rw [sign?_map_sign, hn]
  · intro u hu
    obtain ⟨c, -, rfl⟩ := List.mem_map.1 hu
    trivial

theorem const {s : String} (hs : isConst [] s = true)
    (hrun : (Mode.code false).run s.toList = some (.code false, s.toList.map .sign))
    (hn : s.toList.foldlM nest stack = some stack') : Filled texts s s [] stack stack' :=
  of_run hrun hrun (Fits.const hs hn).fills hn

/-- Code up to a sign that nothing can be joined to. -/
theorem code (h : Fits texts Mode.codeStops t f stack stack') {c : Char}
    (hc : c ∉ Mode.codeStops ++ Hole.signs) (hends : (Name.isWordChar c || c = '#') = false)
    (hn : nest stack' c = some stack'') :
    Filled texts (t ++ String.singleton c) (f ++ String.singleton c) [] stack stack'' := by
  obtain ⟨hplain, hsign⟩ := not_or.1 (mt List.mem_append.2 hc)
  refine of_run ?_ ?_ ?_ ?_
  · rw [String.toList_append, String.toList_singleton,
      Mode.run_plain_concat h.template hplain hends]
  · rw [String.toList_append, String.toList_singleton, Mode.run_plain_concat h.text hplain hends]
  · rw [String.toList_append, String.toList_append, String.toList_singleton]
    exact h.fills.append (.same hsign .nil)
  · rw [String.toList_append, String.toList_singleton, foldlM_nest_append h.nests,
      List.foldlM_cons, hn]
    rfl

/-- A filled string is one token, and the only string. -/
theorem string (h : Within texts Mode.stringStops t f) (stack : List Char) :
    Filled texts ("\"" ++ t ++ "\"") ("\"" ++ f ++ "\"") [f.toList] stack stack := by
  have hquoted : ∀ s : String, ("\"" ++ s ++ "\"").toList = '"' :: (s.toList ++ ['"']) := by
    simp [String.toList_append]
  refine ⟨[.string t.toList], [.string f.toList], ?_, ?_, .string (h []).fills .nil, rfl, ?_, rfl,
    ?_⟩
  · rw [hquoted, Mode.run_quoted (h []).template]
  · rw [hquoted, Mode.run_quoted (h []).text]
  · intro s hs hmem
    obtain rfl := List.mem_singleton.1 hs
    exact (h []).text _ hmem (by decide)
  · intro u hu
    obtain rfl := List.mem_singleton.1 hu
    exact fun stack => (h stack).nests

/-- A filled comment is one token up to the end of its line. -/
theorem comment (h : Within texts ['\n'] t f) (stack : List Char) :
    Filled texts ("//" ++ t ++ "\n") ("//" ++ f ++ "\n") [] stack stack := by
  have hcomment : ∀ s : String,
      ("//" ++ s ++ "\n").toList = '/' :: '/' :: (s.toList ++ ['\n']) := by
    simp [String.toList_append]
  have hend : '\n' ∉ Hole.signs := by decide
  refine ⟨[.comment t.toList, .sign '\n'], [.comment f.toList, .sign '\n'], ?_, ?_,
    .comment (h []).fills (.same hend .nil), rfl, by simp, rfl, ?_⟩
  · rw [hcomment, Mode.run_remark fun hmem => (h []).template _ hmem (by decide)]
  · rw [hcomment, Mode.run_remark fun hmem => (h []).text _ hmem (by decide)]
  · intro u hu
    simp only [List.mem_cons, List.not_mem_nil, or_false] at hu
    rcases hu with rfl | rfl
    · exact fun stack => (h stack).nests
    · trivial

/-! ### Lines -/

theorem line (h : Fits texts Mode.codeStops t f stack stack') :
    Filled texts (t ++ "\n") (f ++ "\n") [] stack stack' := by
  have hend : "\n" = String.singleton '\n' := by decide
  rw [hend]
  exact code h (by decide) (by decide) (nest_of_notMem (by decide) stack')

theorem textOfLines_cons (l : String) (ls : List String) :
    textOfLines (l :: ls) = l ++ "\n" ++ textOfLines ls := by
  simp [textOfLines]

theorem textOfLines_append (ls ls' : List String) :
    textOfLines (ls ++ ls') = textOfLines ls ++ textOfLines ls' := by
  simp [textOfLines]

theorem lines_nil (stack : List Char) :
    Filled texts (textOfLines []) (textOfLines []) [] stack stack :=
  ⟨[], [], rfl, rfl, .nil, rfl, by simp, rfl, by simp⟩

variable {ls ls' ks ks' : List String}

theorem lines_cons (h : Filled texts (t ++ "\n") (f ++ "\n") ss stack stack')
    (h' : Filled texts (textOfLines ls) (textOfLines ls') ss' stack' stack'') :
    Filled texts (textOfLines (t :: ls)) (textOfLines (f :: ls')) (ss ++ ss') stack stack'' := by
  rw [textOfLines_cons, textOfLines_cons]
  exact h.append h'

theorem lines_append (h : Filled texts (textOfLines ls) (textOfLines ls') ss stack stack')
    (h' : Filled texts (textOfLines ks) (textOfLines ks') ss' stack' stack'') :
    Filled texts (textOfLines (ls ++ ks)) (textOfLines (ls' ++ ks')) (ss ++ ss') stack stack'' := by
  rw [textOfLines_append, textOfLines_append]
  exact h.append h'

/-- Lines of the same form are filled one by one. -/
theorem lines_map {α : Type} {g g' : α → String} {xs : List α}
    (h : ∀ x ∈ xs, Fits texts Mode.codeStops (g x) (g' x) stack stack) :
    Filled texts (textOfLines (xs.map g)) (textOfLines (xs.map g')) [] stack stack := by
  induction xs with
  | nil => exact .lines_nil stack
  | cons x xs ih =>
    obtain ⟨hx, hxs⟩ := List.forall_mem_cons.1 h
    exact (line hx).lines_cons (ih hxs)

theorem lines_const (h : ∀ l ∈ ls, isConst Mode.codeStops l = true ∧ IsNested l.toList)
    (stack : List Char) : Filled texts (textOfLines ls) (textOfLines ls) [] stack stack := by
  induction ls with
  | nil => exact .lines_nil stack
  | cons l ls ih =>
    obtain ⟨hl, hls⟩ := List.forall_mem_cons.1 h
    exact (line (Within.const hl stack)).lines_cons (ih hls)

end Filled

/-- Groups of lines, each with brackets in pairs only. -/
inductive FilledGroups (texts : Hole → List String) :
    List (List String) → List (List String) → List (List Char) → Prop
  | nil : FilledGroups texts [] [] []
  | cons {g g' : List String} {gs gs' : List (List String)} {ss ss' : List (List Char)} :
      (∀ stack, Filled texts (textOfLines g) (textOfLines g') ss stack stack) →
      FilledGroups texts gs gs' ss' → FilledGroups texts (g :: gs) (g' :: gs') (ss ++ ss')

theorem FilledGroups.append {gs gs' hs hs' : List (List String)} {ss ss' : List (List Char)}
    (h : FilledGroups texts gs gs' ss) (h' : FilledGroups texts hs hs' ss') :
    FilledGroups texts (gs ++ hs) (gs' ++ hs') (ss ++ ss') := by
  induction h with
  | nil => exact h'
  | cons hg _ ih =>
    rw [List.append_assoc]
    exact .cons hg ih

theorem spaced_cons_cons (g k : List String) (ks : List (List String)) :
    spaced (g :: k :: ks) = g ++ "" :: spaced (k :: ks) := by
  simp [spaced, List.intercalate_cons_cons]

/-- Groups stay filled when empty lines are put between them. -/
theorem FilledGroups.spaced {gs gs' : List (List String)} {ss : List (List Char)}
    (h : FilledGroups texts gs gs' ss) (stack : List Char) :
    Filled texts (textOfLines (spaced gs)) (textOfLines (spaced gs')) ss stack stack := by
  induction h with
  | nil => exact .lines_nil stack
  | cons hg hgs ih =>
    cases hgs with
    | nil => simpa [Facade.spaced, List.intercalate] using hg stack
    | cons hk hks =>
      have hempty : Filled texts ("" ++ "\n") ("" ++ "\n") [] stack stack := .line (.const rfl rfl)
      rw [spaced_cons_cons, spaced_cons_cons]
      exact (hg stack).lines_append (hempty.lines_cons ih)

/-! ### Whole texts -/

/-- A text that is well formed and made from a template, with exactly these strings. -/
structure IsMade (texts : Hole → List String) (strings : List String) (template text : String) :
    Prop where
  nested : IsNested text.toList
  lines : ∀ s ∈ strings, '\n' ∉ s.toList
  tokens : ∃ ts us, scan template.toList = some ts ∧ scan text.toList = some us ∧
    FillsTokens texts ts us ∧
    us.filterMap Token.delimiter? = ts.filterMap Token.delimiter? ∧
    us.filterMap Token.string? = strings.map String.toList ∧ IsNested (us.filterMap Token.sign?)

/-- A text that is filled as a whole is well formed, and made from its template. -/
theorem Filled.isMade {t f : String} {strings : List String}
    (h : Filled texts t f (strings.map String.toList) [] [])
    (hplain : ∀ h, ∀ x ∈ texts h, ∀ c ∈ x.toList, c ∉ brackets) : IsMade texts strings t f := by
  obtain ⟨ts, us, h⟩ := h
  have htemplate : scan t.toList = some ts := by rw [scan, h.template]
  have htext : scan f.toList = some us := by rw [scan, h.text]
  refine ⟨?_, fun s hs => h.lines _ (List.mem_map_of_mem hs), ts, us, htemplate, htext, h.fills,
    h.fills.delimiters hplain, h.strings, h.nests⟩
  rw [IsNested, ← text_scan htext, foldlM_nest_text h.closed, h.nests]

end ResourceApi.Facade
