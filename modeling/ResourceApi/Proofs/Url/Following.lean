import ResourceApi.Proofs.Client.PathReading
import ResourceApi.Proofs.Manifest.Name
import ResourceApi.Proofs.Url.Authority

/-!
Texts behind a slash at the end of a URL of the web. Such a text is read relative to the URL in
front of it: its segments go on from the segments that are open there, dots among them go back up,
and its query and fragment are those of the whole. This holds if the text in front has no question
mark and no hash. Behind either of them a text adds nothing to the path.
-/

namespace ResourceApi.Url

/-! ### Open segments -/

def isDot (s : List Char) : Bool := isDoubleDot s || isSingleDot s

/-- Puts one segment onto those that are open, of which the innermost is the first. -/
def enter (stack : List (List Char)) (s : List Char) : List (List Char) :=
  if isDoubleDot s then stack.drop 1
  else if isSingleDot s then stack
  else escape escapedInPath s :: stack

def pathOf (stack : List (List Char)) : List Char := stack.reverse.flatMap ('/' :: ·)

/-- The segments that are open where a path ends with a slash. -/
def openSegments (path : List Char) : List (List Char) :=
  ((path.splitOn '/').drop 1).dropLast.reverse

theorem resolve_append {ss : List (List Char)} (h : ss ≠ []) (stack ts : List (List Char)) :
    resolve stack (ts ++ ss) = resolve (ts.foldl enter stack) ss := by
  induction ts generalizing stack with
  | nil => rfl
  | cons t ts ih =>
    have hmore : (ts ++ ss).isEmpty = false := by simp [h]
    rw [List.cons_append, resolve, hmore, List.foldl_cons, ← ih, enter]
    split
    · rfl
    · split <;> rfl

theorem enter_of_not_isDot {s : List Char} (h : isDot s = false) (stack : List (List Char)) :
    enter stack s = escape escapedInPath s :: stack := by
  obtain ⟨hdouble, hsingle⟩ := Bool.or_eq_false_iff.1 h
  rw [enter, hdouble, hsingle, if_neg Bool.false_ne_true, if_neg Bool.false_ne_true]

theorem foldl_enter_of_not_isDot {ss : List (List Char)} (h : ∀ s ∈ ss, isDot s = false)
    (stack : List (List Char)) :
    ss.foldl enter stack = (ss.map (escape escapedInPath)).reverse ++ stack := by
  induction ss generalizing stack with
  | nil => rfl
  | cons s ss ih =>
    obtain ⟨hs, hss⟩ := List.forall_mem_cons.1 h
    rw [List.foldl_cons, enter_of_not_isDot hs, ih hss, List.map_cons, List.reverse_cons,
      List.append_assoc]
    rfl

/-- Segments without dots are put onto those that are open. -/
theorem resolve_of_not_isDot {ss : List (List Char)} (h : ∀ s ∈ ss, isDot s = false)
    (stack : List (List Char)) :
    resolve stack ss = stack.reverse ++ ss.map (escape escapedInPath) := by
  induction ss generalizing stack with
  | nil => simp [resolve]
  | cons s ss ih =>
    obtain ⟨hs, hss⟩ := List.forall_mem_cons.1 h
    obtain ⟨hdouble, hsingle⟩ := Bool.or_eq_false_iff.1 hs
    rw [resolve, hdouble, hsingle, if_neg Bool.false_ne_true, if_neg Bool.false_ne_true, ih hss,
      List.reverse_cons, List.append_assoc]
    rfl

section Slashes

variable {stack ss : List (List Char)} {s : List Char}

theorem slash_notMem_escape (escaped : Char → Bool) (h : '/' ∉ s) : '/' ∉ escape escaped s := by
  intro hmem
  obtain ⟨c, hc, hslash⟩ := List.mem_flatMap.1 hmem
  rw [escapeChar] at hslash
  split at hslash
  · obtain ⟨b, -, hb⟩ := List.mem_flatMap.1 hslash
    rcases Text.Percent.kept_of_mem_encodeByte hb with hpercent | hkept
    · exact absurd hpercent (by decide)
    · exact absurd hkept (by decide)
  · exact h (List.mem_singleton.1 hslash ▸ hc)

theorem slash_notMem_enter (hstack : ∀ t ∈ stack, '/' ∉ t) (hs : '/' ∉ s) :
    ∀ t ∈ enter stack s, '/' ∉ t := by
  rw [enter]
  split
  · exact fun t ht => hstack t (List.mem_of_mem_drop ht)
  · split
    · exact hstack
    · exact List.forall_mem_cons.2 ⟨slash_notMem_escape _ hs, hstack⟩

theorem slash_notMem_foldl_enter (hstack : ∀ t ∈ stack, '/' ∉ t) (hss : ∀ s ∈ ss, '/' ∉ s) :
    ∀ t ∈ ss.foldl enter stack, '/' ∉ t := by
  induction ss generalizing stack with
  | nil => exact hstack
  | cons s ss ih =>
    obtain ⟨hs, hrest⟩ := List.forall_mem_cons.1 hss
    exact ih (slash_notMem_enter hstack hs) hrest

/-- Segments that hold no slash are found again in their path. -/
theorem openSegments_pathOf (h : ∀ t ∈ stack, '/' ∉ t) :
    openSegments (pathOf stack ++ ['/']) = stack := by
  have hne : stack.reverse ++ [[]] ≠ [] := by simp
  have hpath : pathOf stack ++ ['/'] = '/' :: ['/'].intercalate (stack.reverse ++ [[]]) := by
    rw [Name.cons_intercalate '/' hne, List.flatMap_append]
    rfl
  have hslash : ∀ t ∈ stack.reverse ++ [[]], '/' ∉ t := by
    intro t ht
    rcases List.mem_append.1 ht with ht | ht
    · exact h t (List.mem_reverse.1 ht)
    · rw [List.mem_singleton.1 ht]
      exact List.not_mem_nil
  have hsplit : ('/' :: ['/'].intercalate (stack.reverse ++ [[]])).splitOn '/' =
      [] :: (stack.reverse ++ [[]]) := by
    rw [List.splitOn_cons_eq_if_modifyHead, if_pos (beq_self_eq_true _),
      List.splitOn_intercalate '/' hslash hne]
  rw [openSegments, hpath, hsplit, List.drop_one, List.tail_cons, List.dropLast_concat,
    List.reverse_reverse]

end Slashes

/-! ### References -/

/-- What a text adds to the URL that it follows. -/
structure Reference where
  path : List Char
  query : Option (List Char)
  fragment : Option (List Char)

namespace Reference

/-- The parts of a text that counts to its end. -/
def ofCounting (s : List Char) : Reference :=
  let (rest, fragment) := cut (· = '#') s
  let (path, query) := cut (· = '?') rest
  ⟨path, (after '?' query).map (escape (escapedInQuery true)),
    (after '#' fragment).map (escape escapedInFragment)⟩

/-- The parts of a text at the end of a URL. -/
def ofChars (s : List Char) : Reference :=
  ofCounting ((Text.trimEndBy isMargin s).filter fun c => !isIgnored c)

/-- Characters that end a path. -/
def isMark (c : Char) : Bool := c = '?' || c = '#'

theorem ofChars_nil : ofChars [] = ⟨[], none, none⟩ := rfl

theorem isMark_iff {c : Char} : isMark c = true ↔ c = '?' ∨ c = '#' := by simp [isMark]

theorem ofCounting_append {s : List Char} (h : ∀ c ∈ s, isMark c = false) (t : List Char) :
    ofCounting (s ++ t) = { ofCounting t with path := s ++ (ofCounting t).path } := by
  have hhash : ∀ c ∈ s, (!decide (c = '#')) = true := by
    intro c hc
    simpa using (Bool.or_eq_false_iff.1 (h c hc)).2
  have hquestion : ∀ c ∈ s, (!decide (c = '?')) = true := by
    intro c hc
    simpa using (Bool.or_eq_false_iff.1 (h c hc)).1
  simp only [ofCounting, cut, List.takeWhile_append_of_pos hhash,
    List.dropWhile_append_of_pos hhash, List.takeWhile_append_of_pos hquestion,
    List.dropWhile_append_of_pos hquestion]

theorem ofCounting_eq {s : List Char} (h : ∀ c ∈ s, isMark c = false) :
    ofCounting s = ⟨s, none, none⟩ := by
  have hnil : ofCounting [] = ⟨[], none, none⟩ := rfl
  have happend := ofCounting_append h []
  simpa only [hnil, List.append_nil] using happend

theorem path_ofCounting_append_mark {s : List Char} (h : ∀ c ∈ s, isMark c = false) {mark : Char}
    (hmark : isMark mark = true) (t : List Char) : (ofCounting (s ++ mark :: t)).path = s := by
  have hempty : (ofCounting (mark :: t)).path = [] := by
    rcases isMark_iff.1 hmark with rfl | rfl <;> rfl
  rw [ofCounting_append h, hempty, List.append_nil]

theorem isSome_ofCounting_append_mark {s : List Char} (h : ∀ c ∈ s, isMark c = false)
    {mark : Char} (hmark : isMark mark = true) (t : List Char) :
    (ofCounting (s ++ mark :: t)).query.isSome = true ∨
      (ofCounting (s ++ mark :: t)).fragment.isSome = true := by
  rw [ofCounting_append h]
  rcases isMark_iff.1 hmark with rfl | rfl
  · exact .inl rfl
  · exact .inr rfl

end Reference

/-! ### URLs behind which something stands -/

/-- A URL whose path goes on from the segments that are open. -/
def extended (u : Url) (stack : List (List Char)) (r : Reference) : Url :=
  u.ending ((resolve stack (r.path.splitOnP (isSlash true))).flatMap ('/' :: ·)) r.query r.fragment

theorem extended_nil (u : Url) (stack : List (List Char)) :
    u.extended stack ⟨[], none, none⟩ = u.ending (pathOf stack ++ ['/']) none none := by
  rw [extended, List.splitOnP_nil, resolve_of_not_isDot (by decide), List.flatMap_append]
  rfl

/-- The URL that a reference names relative to one whose path ends with a slash. -/
def follow (base : Url) (r : Reference) : Url := base.extended (openSegments base.path) r

/-- What is read up to the end of the authority. -/
def readFront (scheme front : List Char) : Except UrlError Url :=
  withAuthority scheme ((front.dropWhile (isSlash true)).takeWhile fun c => !isSlash true c)
    none none

/-- The path as it is written behind the authority. -/
def tail (front : List Char) : List Char :=
  (front.dropWhile (isSlash true)).dropWhile fun c => !isSlash true c

/-- The segments that a slash behind the path leaves open. -/
def openedBy (front : List Char) : List (List Char) :=
  match tail front with
  | [] => []
  | _ :: rest => (rest.splitOnP (isSlash true)).foldl enter []

/-- A URL of the web with this scheme and this text behind it, both of which may go on. -/
structure HasFront (s scheme front : List Char) : Prop where
  taken : takeScheme (countingToEnd s) = some (scheme, front)
  web : isWebScheme scheme = true

theorem isSlash_of_tail (front : List Char) : ∀ c ∈ (tail front).head?, isSlash true c = true := by
  have hhead := Text.dropWhile_eq_self_iff_head.1 (List.dropWhile_idempotent
    (fun c => !isSlash true c) (front.dropWhile (isSlash true)))
  rw [← tail] at hhead
  simpa using hhead

theorem readPath_append_slash (front t : List Char) :
    readPath true (tail front ++ '/' :: t) =
      (resolve (openedBy front) (t.splitOnP (isSlash true))).flatMap ('/' :: ·) := by
  have hslash : isSlash true '/' = true := by decide
  rw [openedBy]
  cases htail : tail front with
  | nil => rw [List.nil_append, readPath, if_pos hslash, pathText]
  | cons c rest =>
    have hc : isSlash true c = true := isSlash_of_tail front c (by rw [htail]; rfl)
    rw [List.cons_append, readPath, if_pos hc, pathText, List.splitOnP_append_cons _ _ hslash,
      resolve_append (List.splitOnP_ne_nil _ _)]

theorem ofChars_of_isWebScheme {s scheme rest : List Char}
    (h : takeScheme (counting s) = some (scheme, rest)) (hw : isWebScheme scheme = true) :
    ofChars s = withAuthority scheme ((Reference.ofCounting rest).path.dropWhile (isSlash true))
      (Reference.ofCounting rest).query (Reference.ofCounting rest).fragment := by
  simp only [ofChars, h, hw, if_true, Reference.ofCounting, Bool.true_or]

section HasFront

variable {s scheme front : List Char}

theorem HasFront.takeScheme_append (h : HasFront s scheme front) {c : Char}
    (hmargin : isMargin c = false) (hc : isSchemeChar c = false) (hcolon : c ≠ ':')
    (t : List Char) :
    takeScheme (counting (s ++ c :: t)) = some (scheme,
      front ++ c :: (Text.trimEndBy isMargin t).filter fun c => !isIgnored c) := by
  rw [counting_append_cons hmargin, takeScheme_append_cons hc hcolon, h.taken]
  rfl

/-- A text behind a slash is a reference relative to what is open there. -/
theorem HasFront.ofChars_append_slash (h : HasFront s scheme front)
    (hfront : front.dropWhile (isSlash true) ≠ [])
    (hmarks : ∀ c ∈ front, Reference.isMark c = false) (t : List Char) :
    ofChars (s ++ '/' :: t) =
      (readFront scheme front).map (·.extended (openedBy front) (.ofChars t)) := by
  have hscheme := h.takeScheme_append (c := '/') (by decide) (by decide) (by decide) t
  have hmore : ∀ c ∈ front ++ ['/'], Reference.isMark c = false := by
    simpa [or_imp, forall_and] using And.intro hmarks (by decide)
  have hsplit : front ++ '/' :: ((Text.trimEndBy isMargin t).filter fun c => !isIgnored c) =
      (front ++ ['/']) ++ (Text.trimEndBy isMargin t).filter fun c => !isIgnored c := by simp
  rw [hsplit] at hscheme
  rw [ofChars_of_isWebScheme hscheme h.web, Reference.ofCounting_append hmore,
    ← Reference.ofChars]
  have hdrop : (front ++ ['/'] ++ (Reference.ofChars t).path).dropWhile (isSlash true) =
      front.dropWhile (isSlash true) ++ '/' :: (Reference.ofChars t).path := by
    rw [List.append_assoc, List.dropWhile_append, if_neg (by simpa using hfront)]
    rfl
  simp only [hdrop]
  rw [withAuthority_eq h.web, takeWhile_append_neg (by decide), dropWhile_append_neg (by decide),
    ← tail, readPath_append_slash]
  rfl

/-- Behind a question mark or a hash the path is over. -/
theorem HasFront.ofChars_append_mark (h : HasFront s scheme front)
    (hmarks : ∀ c ∈ front, Reference.isMark c = false) {mark : Char}
    (hmark : Reference.isMark mark = true) (t : List Char) :
    ∃ query fragment, (query.isSome = true ∨ fragment.isSome = true) ∧
      ofChars (s ++ mark :: t) =
        (readFront scheme front).map (·.ending (readPath true (tail front)) query fragment) := by
  have hscheme : takeScheme (counting (s ++ mark :: t)) = some (scheme,
      front ++ mark :: (Text.trimEndBy isMargin t).filter fun c => !isIgnored c) := by
    rcases Reference.isMark_iff.1 hmark with rfl | rfl <;>
      exact h.takeScheme_append (by decide) (by decide) (by decide) t
  have hread := ofChars_of_isWebScheme hscheme h.web
  rw [Reference.path_ofCounting_append_mark hmarks hmark, withAuthority_eq h.web, ← tail] at hread
  exact ⟨_, _, Reference.isSome_ofCounting_append_mark hmarks hmark _, hread⟩

/-- Nothing is added to a URL by the end of its text, if no margin is there. -/
theorem HasFront.ofChars_eq (h : HasFront s scheme front)
    (hend : ∀ c ∈ s.getLast?, isMargin c = false)
    (hmarks : ∀ c ∈ front, Reference.isMark c = false) :
    ofChars s =
      (readFront scheme front).map (·.ending (readPath true (tail front)) none none) := by
  have hscheme : takeScheme (counting s) = some (scheme, front) := by
    rw [counting_of_end hend, h.taken]
  rw [ofChars_of_isWebScheme hscheme h.web, Reference.ofCounting_eq hmarks,
    withAuthority_eq h.web, ← tail]
  rfl

end HasFront

/-- The segments that a slash leaves open hold none. -/
theorem slash_notMem_openedBy (front : List Char) : ∀ t ∈ openedBy front, '/' ∉ t := by
  rw [openedBy]
  cases tail front with
  | nil => simp
  | cons c rest =>
    refine slash_notMem_foldl_enter (by simp) fun s hs => ?_
    exact Text.notMem_of_mem_splitOnP (by decide) hs

/-! ### Fronts of URLs that can be read -/

section Accepted

variable {s scheme front : List Char} {u : Url}

theorem HasFront.mem (h : HasFront s scheme front) {c : Char} (hc : c ∈ front) : c ∈ s := by
  obtain ⟨d, name, hsplit, -⟩ := takeScheme_eq_some_iff.1 h.taken
  have hmem : c ∈ countingToEnd s :=
    hsplit ▸ List.mem_append_right (d :: name) (List.mem_cons_of_mem ':' hc)
  exact (List.dropWhile_suffix isMargin).mem (List.mem_of_mem_filter hmem)

/-- A URL of HTTP has its front without its final slashes already. -/
theorem exists_hasFront_trimEnd (h : ofChars s = .ok u) (hhttp : u.isHttp = true) :
    ∃ scheme front, HasFront (Path.trimEnd s) scheme front ∧
      front.dropWhile (isSlash true) ≠ [] := by
  obtain ⟨scheme, authority, hauthority, hne⟩ := exists_hasAuthority h hhttp
  obtain ⟨front, htaken, hfront, -⟩ := hauthority.exists_front hne
  obtain ⟨-, -, hw, -⟩ := hauthority
  exact ⟨scheme, front, ⟨htaken, hw⟩, hfront⟩

/-- A URL of HTTP keeps its path, whatever stands behind a question mark or a hash in it. -/
theorem exists_ending_of_isMark {mark : Char} {t : List Char} (h : ofChars (s ++ mark :: t) = .ok u)
    (hhttp : u.isHttp = true) (hmark : Reference.isMark mark = true)
    (hs : ∀ c ∈ s, Reference.isMark c = false) (t' : List Char) :
    ∃ query fragment, (query.isSome = true ∨ fragment.isSome = true) ∧
      ofChars (s ++ mark :: t') = .ok (u.ending u.path query fragment) := by
  obtain ⟨scheme, authority, ⟨rest, htaken, hw, -⟩, -⟩ := exists_hasAuthority h hhttp
  have hkind : isMargin mark = false ∧ isSchemeChar mark = false ∧ mark ≠ ':' := by
    rcases Reference.isMark_iff.1 hmark with rfl | rfl <;> decide
  rw [counting_append_cons hkind.1, takeScheme_append_cons hkind.2.1 hkind.2.2] at htaken
  obtain ⟨⟨scheme', front⟩, hfront, hpair⟩ := Option.map_eq_some_iff.1 htaken
  obtain ⟨rfl, -⟩ := Prod.mk.inj hpair
  have hasFront : HasFront s scheme' front := ⟨hfront, hw⟩
  have hmarks : ∀ c ∈ front, Reference.isMark c = false := fun c hc => hs c (hasFront.mem hc)
  obtain ⟨query, fragment, -, hread⟩ := hasFront.ofChars_append_mark hmarks hmark t
  obtain ⟨query', fragment', hsome, hread'⟩ := hasFront.ofChars_append_mark hmarks hmark t'
  refine ⟨query', fragment', hsome, ?_⟩
  rw [hread] at h
  rw [hread']
  cases hok : readFront scheme' front with
  | error e => simp [hok, Except.map] at h
  | ok v =>
    have hu : v.ending (readPath true (tail front)) query fragment = u := by
      simpa [hok, Except.map] using h
    rw [← hu]
    rfl

/-- So it does without its final slashes. -/
theorem exists_ending_of_mem (h : ofChars s = .ok u) (hhttp : u.isHttp = true)
    (hmark : ∃ c ∈ s, Reference.isMark c = true) (t : List Char) :
    ∃ query fragment, (query.isSome = true ∨ fragment.isSome = true) ∧
      ofChars (Path.trimEnd s ++ t) = .ok (u.ending u.path query fragment) := by
  obtain ⟨mark, hfind⟩ := Option.isSome_iff_exists.1 (List.find?_isSome.2 hmark)
  obtain ⟨hfirst, front, rest, rfl, hfront⟩ := List.find?_eq_some_iff_append.1 hfind
  have hslash : Path.isSlash mark = false := by
    rcases Reference.isMark_iff.1 hfirst with rfl | rfl <;> rfl
  have htrim : Path.trimEnd (front ++ mark :: rest) = front ++ mark :: Path.trimEnd rest := by
    rw [Path.trimEnd, Text.trimEndBy_append, Text.trimEndBy_cons_of_neg hslash,
      if_neg (List.cons_ne_nil _ _), ← Path.trimEnd]
  rw [htrim, List.append_assoc, List.cons_append]
  exact exists_ending_of_isMark h hhttp hfirst (fun c hc => by simpa using hfront c hc) _

/-- A base under which paths are requested. -/
def opened (base : Url) : Url := base.ending (Path.trimEnd base.path ++ ['/']) none none

/-- A URL that reads with one more slash as it should has no question mark and no hash. -/
theorem notMark_of_opened (h : ofChars s = .ok u) (hhttp : u.isHttp = true)
    (hopened : ofChars (Path.trimEnd s ++ ['/']) = .ok u.opened) :
    ∀ c ∈ s, Reference.isMark c = false := by
  by_contra hmark
  have hmem : ∃ c ∈ s, Reference.isMark c = true := by simpa using hmark
  obtain ⟨query, fragment, hsome, hread⟩ := exists_ending_of_mem h hhttp hmem ['/']
  rw [hopened, Except.ok.injEq] at hread
  have hquery : none = query := congrArg Url.query hread
  have hfragment : none = fragment := congrArg Url.fragment hread
  simp [← hquery, ← hfragment] at hsome

/-- Then whatever follows the slash is a reference relative to that. -/
theorem ofChars_of_opened (h : ofChars s = .ok u) (hhttp : u.isHttp = true)
    (hopened : ofChars (Path.trimEnd s ++ ['/']) = .ok u.opened) (t : List Char) :
    ofChars (Path.trimEnd s ++ '/' :: t) = .ok (u.opened.follow (.ofChars t)) := by
  obtain ⟨scheme, front, hasFront, hfront⟩ := exists_hasFront_trimEnd h hhttp
  have hmarks : ∀ c ∈ front, Reference.isMark c = false := fun c hc =>
    notMark_of_opened h hhttp hopened c
      ((List.rdropWhile_prefix Path.isSlash s).subset (hasFront.mem hc))
  rw [hasFront.ofChars_append_slash hfront hmarks] at hopened ⊢
  cases hok : readFront scheme front with
  | error e => simp [hok, Except.map] at hopened
  | ok v =>
    rw [hok, Except.map, Except.ok.injEq] at hopened
    have hpath : u.opened.path = pathOf (openedBy front) ++ ['/'] := by
      rw [← hopened, Reference.ofChars_nil, extended_nil]
      rfl
    rw [follow, hpath, openSegments_pathOf (slash_notMem_openedBy front), ← hopened]
    rfl

end Accepted

end ResourceApi.Url
