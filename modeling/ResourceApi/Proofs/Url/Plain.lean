import ResourceApi.Proofs.Column.Words
import ResourceApi.Proofs.Url.Following

/-!
Requests that a URL keeps as they stand. Their resource needs no escapes and has no dots to resolve,
and neither has any segment, which is escaped already: of all segments only one or two dots alone
would be resolved. The query is kept to its end if it has no hash, blank or control.
-/

namespace ResourceApi.Url

/-! ### Dots -/

theorem eq_or_of_toLower {c x : Char} (h : c.toLower = x) :
    c = x ∨ 65 ≤ c.toNat ∧ x.toNat = c.toNat + 32 := by
  by_cases hc : 'A'.val ≤ c.val ∧ c.val ≤ 'Z'.val
  · have hval : x.val = c.val + 32 := h ▸ congrArg Char.val (dif_pos hc)
    obtain ⟨hfirst, hlast⟩ := hc
    right
    rw [Char.toNat, Char.toNat, hval]
    simp only [UInt32.le_iff_toNat_le, UInt32.toNat_add, Char.reduceVal, UInt32.reduceToNat]
      at hfirst hlast ⊢
    omega
  · left
    have hsame : c.toLower = c := dif_neg hc
    rw [← h, hsame]

/-- However a dot segment is escaped, it stands for one or two dots. -/
theorem decode_of_isDot {t : List Char} (h : isDot t = true) :
    Text.Percent.decode t = some ['.'] ∨ Text.Percent.decode t = some ['.', '.'] := by
  have hsame : ∀ x : Char, x.toNat < 97 → x.toLower = x → ∀ c : Char, c.toLower = x ↔ c = x := by
    refine fun x hx hlower c => ⟨fun hc => ?_, by rintro rfl; exact hlower⟩
    rcases eq_or_of_toLower hc with rfl | hcapital
    · rfl
    · omega
  have he : ∀ c : Char, c.toLower = 'e' ↔ c = 'e' ∨ c = 'E' := by
    refine fun c => ⟨fun hc => ?_, by rintro (rfl | rfl) <;> rfl⟩
    rcases eq_or_of_toLower hc with rfl | ⟨-, hcapital⟩
    · exact .inl rfl
    · have hvalue : c.toNat = 'E'.toNat := by
        have he : 'e'.toNat = 'E'.toNat + 32 := rfl
        omega
      exact .inr (Char.toNat_inj.1 hvalue)
  simp only [isDot, isDoubleDot, isSingleDot, List.contains_eq_mem, List.mem_cons,
    List.not_mem_nil, or_false, Bool.or_eq_true, decide_eq_true_eq, List.map_eq_cons_iff,
    List.map_eq_nil_iff, he, hsame '.' (by decide) rfl, hsame '%' (by decide) rfl,
    hsame '2' (by decide) rfl, ↓existsAndEq, and_true, true_and] at h
  rcases h with (rfl | ⟨a, rfl, rfl | rfl⟩ | ⟨a, rfl, rfl | rfl⟩ |
    ⟨a, b, rfl, rfl | rfl, rfl | rfl⟩) | rfl | ⟨a, rfl, rfl | rfl⟩ <;> decide +kernel

/-- A path without dots that would be resolved. -/
def IsSettled (path : List Char) : Prop := ∀ s ∈ path.splitOn '/', isDot s = false

theorem isSettled_nil : IsSettled [] := by
  intro s hs
  obtain rfl : s = [] := by simpa using hs
  rfl

theorem isSettled_append_slash {s t : List Char} :
    IsSettled (s ++ '/' :: t) ↔ IsSettled s ∧ IsSettled t := by
  have hsplit : (s ++ '/' :: t).splitOn '/' = s.splitOn '/' ++ t.splitOn '/' :=
    List.splitOnP_append_cons _ _ (beq_self_eq_true '/')
  rw [IsSettled, hsplit, List.forall_mem_append]
  rfl

theorem IsSettled.trimEnd {s : List Char} (h : IsSettled s) : IsSettled (Path.trimEnd s) := by
  obtain ⟨slashes, hsplit, hall⟩ := Text.exists_trimEndBy_append Path.isSlash s
  rw [← Path.trimEnd] at hsplit
  cases slashes with
  | nil => rwa [← List.append_nil (Path.trimEnd s), ← hsplit]
  | cons c more =>
    obtain rfl : c = '/' := by simpa [Path.isSlash] using hall c List.mem_cons_self
    rw [hsplit] at h
    exact (isSettled_append_slash.1 h).1

theorem IsSettled.dropWhile {s : List Char} (h : IsSettled s) :
    IsSettled (s.dropWhile Path.isSlash) := by
  induction s with
  | nil => exact h
  | cons c s ih =>
    rw [List.dropWhile_cons]
    split
    · rename_i hc
      obtain rfl : c = '/' := by simpa [Path.isSlash] using hc
      exact ih (isSettled_append_slash (s := []).1 h).2
    · exact h

theorem IsSettled.append_segments {s : List Char} (h : IsSettled s) {ss : List (List Char)}
    (hss : ∀ t ∈ ss, t ≠ ['.'] ∧ t ≠ ['.', '.']) : IsSettled (s ++ Path.segments ss) := by
  induction ss generalizing s with
  | nil => rwa [Path.segments, List.flatMap_nil, List.append_nil]
  | cons t ss ih =>
    obtain ⟨ht, hrest⟩ := List.forall_mem_cons.1 hss
    have hencoded : IsSettled (Text.Percent.encode t) := by
      rw [IsSettled, List.splitOn_eq_singleton (Text.Percent.not_mem_encode (by decide) t)]
      refine List.forall_mem_singleton.2 (Bool.eq_false_iff.2 fun hdot => ?_)
      rcases decode_of_isDot hdot with hdecode | hdecode <;>
        rw [Text.Percent.decode_encode, Option.some.injEq] at hdecode
      · exact ht.1 hdecode
      · exact ht.2 hdecode
    rw [Path.segments_cons]
    exact isSettled_append_slash.2 ⟨h, ih hencoded hrest⟩

/-! ### Plain paths -/

/-- A path that is kept as it stands. -/
structure IsPlain (path : List Char) : Prop where
  kept : ∀ c ∈ path, escapedInPath c = false ∧ c ≠ '\\'
  settled : IsSettled path

theorem splitOnP_isSlash {s : List Char} (h : ∀ c ∈ s, c ≠ '\\') :
    s.splitOnP (isSlash true) = s.splitOn '/' := by
  induction s with
  | nil => rfl
  | cons c s ih =>
    obtain ⟨hc, hs⟩ := List.forall_mem_cons.1 h
    have hslash : isSlash true c = (c == '/') := by simp [isSlash, hc, Bool.beq_eq_decide_eq]
    rw [List.splitOnP_cons_eq_if_modifyHead, List.splitOn_cons_eq_if_modifyHead, ih hs, hslash]

theorem flatMap_splitOn (s : List Char) : (s.splitOn '/').flatMap ('/' :: ·) = '/' :: s := by
  rw [← Name.cons_intercalate '/' (List.splitOn_ne_nil _ _), List.intercalate_splitOn]

theorem flatMap_map_escape (ss : List (List Char)) :
    (ss.map (escape escapedInPath)).flatMap ('/' :: ·) =
      escape escapedInPath (ss.flatMap ('/' :: ·)) := by
  rw [List.flatMap_map, escape, List.flatMap_assoc]
  rfl

/-- The segments of a path without dots are put as they are written onto those that are open. -/
theorem flatMap_resolve {path : List Char} (hback : ∀ c ∈ path, c ≠ '\\') (h : IsSettled path)
    (stack : List (List Char)) :
    (resolve stack (path.splitOnP (isSlash true))).flatMap ('/' :: ·) =
      pathOf stack ++ escape escapedInPath ('/' :: path) := by
  rw [splitOnP_isSlash hback, resolve_of_not_isDot h, List.flatMap_append, flatMap_map_escape,
    flatMap_splitOn]
  rfl

theorem isPlain_of_isSlash {s : List Char} (h : ∀ c ∈ s, Path.isSlash c = true) : IsPlain s := by
  induction s with
  | nil => exact ⟨by simp, isSettled_nil⟩
  | cons c s ih =>
    obtain ⟨hc, hs⟩ := List.forall_mem_cons.1 h
    obtain rfl : c = '/' := by simpa [Path.isSlash] using hc
    have hsettled : IsSettled ([] ++ '/' :: s) :=
      isSettled_append_slash.2 ⟨isSettled_nil, (ih hs).settled⟩
    exact ⟨List.forall_mem_cons.2 ⟨by decide, (ih hs).kept⟩, hsettled⟩

theorem counts_of_escapedInPath {c : Char} (h : escapedInPath c = false) :
    isMargin c = false ∧ Reference.isMark c = false := by
  simp only [escapedInPath, escapedInQuery, isControl, List.contains_eq_mem, List.mem_cons,
    Bool.or_eq_false_iff, decide_eq_false_iff_not, not_or] at h
  obtain ⟨⟨⟨⟨hlarge, -⟩, hspace, -, hhash, -⟩, -⟩, hquestion, -⟩ := h
  have hne : c.toNat ≠ 0x20 := fun heq => hspace (Char.toNat_inj.1 heq)
  refine ⟨?_, ?_⟩
  · rw [isMargin, decide_eq_false_iff_not]
    omega
  · simp [Reference.isMark, hhash, hquestion]

/-- A query that is kept to its end. -/
def IsQueryText (query : List Char) : Prop := ∀ c ∈ query, isMargin c = false ∧ c ≠ '#'

/-- The query of a URL for the query of a request. -/
def queryText (query : List Char) : Option (List Char) :=
  if query.isEmpty then none else some (escape (escapedInQuery true) query)

section Plain

variable {path query : List Char}

/-- A plain path goes on from the segments that are open as it stands. -/
theorem IsPlain.extended (h : IsPlain path) (u : Url) (stack : List (List Char))
    (query fragment : Option (List Char)) :
    u.extended stack ⟨path, query, fragment⟩ =
      u.ending (pathOf stack ++ '/' :: path) query fragment := by
  have hescape : escape escapedInPath ('/' :: path) = '/' :: path :=
    escape_eq_self (List.forall_mem_cons.2 ⟨by decide, fun c hc => (h.kept c hc).1⟩)
  rw [Url.extended, flatMap_resolve (fun c hc => (h.kept c hc).2) h.settled, hescape]

/-- A plain path with a query is read by its parts. -/
theorem IsPlain.reference (h : IsPlain path) (hquery : IsQueryText query) :
    Reference.ofChars (Path.withQuery path query) = ⟨path, queryText query, none⟩ := by
  have hmarks : ∀ c ∈ path, Reference.isMark c = false :=
    fun c hc => (counts_of_escapedInPath (h.kept c hc).1).2
  have hcounts : ∀ c ∈ Path.withQuery path query, isMargin c = false := by
    intro c hc
    rw [Path.withQuery] at hc
    split at hc
    · exact (counts_of_escapedInPath (h.kept c hc).1).1
    · rcases List.mem_append.1 hc with hc | hc
      · exact (counts_of_escapedInPath (h.kept c hc).1).1
      · rcases List.mem_cons.1 hc with rfl | hc
        · decide
        · exact (hquery c hc).1
  have hend : Text.trimEndBy isMargin (Path.withQuery path query) = Path.withQuery path query :=
    Text.trimEndBy_eq_self_iff.2 fun c hc => hcounts c (List.mem_of_getLast? hc)
  have hkept : (Path.withQuery path query).filter (fun c => !isIgnored c) =
      Path.withQuery path query := by
    refine List.filter_eq_self.2 fun c hc => ?_
    rw [isIgnored_of_isMargin (hcounts c hc)]
    rfl
  rw [Reference.ofChars, hend, hkept, Path.withQuery, queryText]
  split
  · exact Reference.ofCounting_eq hmarks
  · have hhash : ∀ c ∈ '?' :: query, (!decide (c = '#')) = true := by
      refine List.forall_mem_cons.2 ⟨by decide, fun c hc => ?_⟩
      simpa using (hquery c hc).2
    have hparts : Reference.ofCounting ('?' :: query) =
        ⟨[], some (escape (escapedInQuery true) query), none⟩ := by
      rw [Reference.ofCounting, cut, List.takeWhile_eq_self_iff.2 hhash,
        List.dropWhile_eq_nil_iff.2 hhash]
      rfl
    rw [Reference.ofCounting_append hmarks, hparts, List.append_nil]

end Plain

theorem escapedInPath_of_kept {c : Char} (h : Text.Percent.kept c = true) :
    escapedInPath c = false ∧ c ≠ '\\' := by
  have hall : ∀ n : Fin 128, Text.Percent.kept (Char.ofNat n) = true →
      escapedInPath (Char.ofNat n) = false ∧ Char.ofNat n ≠ '\\' := by decide
  have hc := hall ⟨c.toNat, Text.Percent.toNat_lt_of_kept h⟩
  rw [Char.ofNat_toNat] at hc
  exact hc h

/-- A request whose path stays as it is written: its resource needs no escapes and has no dots to
resolve, and none of its segments is a dot or two. -/
structure IsPlainRequest (resource : List Char) (ss : List (List Char)) : Prop where
  resource : IsPlain resource
  segments : ∀ s ∈ ss, s ≠ ['.'] ∧ s ≠ ['.', '.']

theorem IsPlainRequest.isPlain {resource : List Char} {ss : List (List Char)}
    (h : IsPlainRequest resource ss) :
    IsPlain ((Path.trimEnd resource ++ Path.segments ss).dropWhile Path.isSlash) := by
  refine ⟨fun c hc => ?_, (h.resource.settled.trimEnd.append_segments h.segments).dropWhile⟩
  rcases List.mem_append.1 ((List.dropWhile_suffix _).mem hc) with hc | hc
  · exact h.resource.kept c ((List.rdropWhile_prefix Path.isSlash resource).subset hc)
  · obtain ⟨s, -, hs⟩ := List.mem_flatMap.1 hc
    rcases List.mem_cons.1 hs with rfl | hs
    · decide
    · rcases Text.Percent.kept_of_mem_encode hs with rfl | hkept
      · decide
      · exact escapedInPath_of_kept hkept

/-! ### Plain requests behind a base -/

theorem ending_eq_ending_iff {u v : Url} {path path' : List Char}
    {query query' fragment fragment' : Option (List Char)} :
    u.ending path query fragment = v.ending path' query' fragment' ↔
      u.ending [] none none = v.ending [] none none ∧ path = path' ∧ query = query' ∧
        fragment = fragment' := by
  simp only [ending, mk.injEq, and_true, and_assoc]

theorem ne_trimEnd_append_slash {s t : List Char} (ht : t.dropWhile Path.isSlash = t)
    (hne : t ≠ []) : s ≠ Path.trimEnd s ++ '/' :: t := by
  intro heq
  obtain ⟨slashes, hsplit, hall⟩ := Text.exists_trimEndBy_append Path.isSlash s
  rw [← Path.trimEnd] at hsplit
  have hslashes : slashes = '/' :: t := List.append_cancel_left (hsplit.symm.trans heq)
  rw [hslashes] at hall
  rw [List.dropWhile_eq_nil_iff.2 fun c hc => hall c (List.mem_cons_of_mem _ hc)] at ht
  exact hne ht.symm

/-- A plain request keeps the path of a base and its own if and only if the base with one more slash
is read as it should. -/
theorem IsPlain.ofChars_append_iff {s path query : List Char} {base : Url} (h : IsPlain path)
    (hslash : path.dropWhile Path.isSlash = path) (hne : path ≠ []) (hquery : IsQueryText query)
    (hbase : ofChars s = .ok base) (hhttp : base.isHttp = true) :
    ofChars (Path.trimEnd s ++ '/' :: Path.withQuery path query) =
        .ok (base.ending (Path.trimEnd base.path ++ '/' :: path) (queryText query) none) ↔
      ofChars (Path.trimEnd s ++ ['/']) = .ok base.opened := by
  by_cases hmark : ∃ c ∈ s, Reference.isMark c = true
  · constructor
    · intro hread
      obtain ⟨query', fragment', -, hending⟩ :=
        exists_ending_of_mem hbase hhttp hmark ('/' :: Path.withQuery path query)
      rw [hread, Except.ok.injEq, ending_eq_ending_iff] at hending
      exact absurd hending.2.1.symm (ne_trimEnd_append_slash hslash hne)
    · intro hopened
      obtain ⟨c, hc, hmark⟩ := hmark
      rw [notMark_of_opened hbase hhttp hopened c hc] at hmark
      cases hmark
  · obtain ⟨scheme, front, hasFront, hfront⟩ := exists_hasFront_trimEnd hbase hhttp
    have hmarks : ∀ c ∈ front, Reference.isMark c = false := fun c hc => by
      have hmem : c ∈ s := (List.rdropWhile_prefix Path.isSlash s).subset (hasFront.mem hc)
      exact Bool.eq_false_iff.2 fun htrue => hmark ⟨c, hmem, htrue⟩
    rw [hasFront.ofChars_append_slash hfront hmarks, hasFront.ofChars_append_slash hfront hmarks,
      h.reference hquery, Reference.ofChars_nil]
    cases readFront scheme front with
    | error e => simp [Except.map]
    | ok u =>
      rw [Except.map, Except.map, h.extended, extended_nil, opened, Except.ok.injEq,
        Except.ok.injEq]
      refine ending_eq_ending_iff.trans (.trans ?_ ending_eq_ending_iff.symm)
      rw [List.append_left_inj, List.append_left_inj]
      simp

/-! ### Plain bases -/

/-- A base whose text counts as it is written, without queries, fragments, backslashes and dots. -/
structure IsPlainBase (url : List Char) : Prop where
  kept : ∀ c ∈ url, isMargin c = false ∧ Reference.isMark c = false ∧ c ≠ '\\'
  settled : IsSettled url

/-- A base that is requested itself. -/
def closed (base : Url) : Url :=
  base.ending (if Path.trimEnd base.path = [] then ['/'] else Path.trimEnd base.path) none none

theorem escapeChar_ne_nil (escaped : Char → Bool) (c : Char) : escapeChar escaped c ≠ [] := by
  rw [escapeChar]
  split
  · obtain ⟨b, bs, hbytes⟩ : ∃ b bs, String.utf8EncodeChar c = b :: bs := by
      refine List.exists_cons_of_ne_nil (List.ne_nil_of_length_pos ?_)
      rw [String.length_utf8EncodeChar]
      exact c.utf8Size_pos
    rw [hbytes]
    exact List.cons_ne_nil _ _
  · exact List.cons_ne_nil _ _

theorem escape_eq_nil_iff {escaped : Char → Bool} {s : List Char} :
    escape escaped s = [] ↔ s = [] := by
  cases s with
  | nil => simp
  | cons c s => simp [escape, escapeChar_ne_nil]

/-- Escapes make no slash at the end of a path. -/
theorem trimEnd_escape {path : List Char} (h : path.getLast? ≠ some '/') :
    Path.trimEnd (escape escapedInPath path) = escape escapedInPath path := by
  rw [Path.trimEnd_eq_self_iff]
  cases path using List.reverseRecOn with
  | nil => simp
  | append_singleton path c =>
    have hc : '/' ∉ [c] := by simpa [eq_comm] using h
    have hlast : escape escapedInPath [c] ≠ [] := by
      simpa [escape] using escapeChar_ne_nil escapedInPath c
    rw [escape_append, List.getLast?_append_of_ne_nil _ hlast]
    intro hslash
    exact slash_notMem_escape _ hc (List.mem_of_getLast? hslash)

section PlainBase

variable {url scheme front : List Char}

theorem IsPlainBase.trimEnd (h : IsPlainBase url) : IsPlainBase (Path.trimEnd url) :=
  ⟨fun c hc => h.kept c ((List.rdropWhile_prefix Path.isSlash url).subset hc), h.settled.trimEnd⟩

theorem IsPlainBase.front_suffix (hplain : IsPlainBase url) (h : HasFront url scheme front) :
    front <:+ url := by
  have hmargin : url.dropWhile isMargin = url := by
    refine Text.dropWhile_eq_self_iff_head.2 fun c hc => (hplain.kept c ?_).1
    exact List.mem_of_head? hc
  have hcounts : countingToEnd url = url := by
    rw [countingToEnd, hmargin]
    refine List.filter_eq_self.2 fun c hc => ?_
    rw [isIgnored_of_isMargin (hplain.kept c hc).1]
    rfl
  obtain ⟨c, name, hsplit, -⟩ := takeScheme_eq_some_iff.1 (hcounts ▸ h.taken)
  exact ⟨c :: name ++ [':'], by rw [hsplit, List.append_assoc]; rfl⟩

theorem IsPlainBase.tail_suffix (hplain : IsPlainBase url) (h : HasFront url scheme front) :
    tail front <:+ url :=
  ((List.dropWhile_suffix _).trans (List.dropWhile_suffix _)).trans (hplain.front_suffix h)

/-- The path of a plain base is what is written behind its authority. -/
theorem IsPlainBase.read (hplain : IsPlainBase url) (h : HasFront url scheme front) :
    pathOf (openedBy front) = escape escapedInPath (tail front) ∧
      readPath true (tail front) =
        if tail front = [] then ['/'] else escape escapedInPath (tail front) := by
  obtain ⟨written, hwritten⟩ := hplain.tail_suffix h
  cases htail : tail front with
  | nil =>
    have hopened : openedBy front = [] := by rw [openedBy, htail]
    rw [hopened]
    exact ⟨rfl, rfl⟩
  | cons c rest =>
    have hopened : openedBy front = (rest.splitOnP (isSlash true)).foldl enter [] := by
      rw [openedBy, htail]
    rw [htail] at hwritten
    have hkept : ∀ d ∈ c :: rest, d ≠ '\\' := by
      intro d hd
      exact (hplain.kept d (hwritten ▸ List.mem_append_right written hd)).2.2
    obtain ⟨hc, hrest⟩ := List.forall_mem_cons.1 hkept
    have hslash : isSlash true c = true := isSlash_of_tail front c (by rw [htail]; rfl)
    obtain rfl : c = '/' := by simpa [isSlash, hc] using hslash
    have hsettled : IsSettled rest := by
      have hall := hplain.settled
      rw [← hwritten] at hall
      exact (isSettled_append_slash.1 hall).2
    constructor
    · rw [hopened, splitOnP_isSlash hrest, foldl_enter_of_not_isDot hsettled, List.append_nil,
        pathOf, List.reverse_reverse, flatMap_map_escape, flatMap_splitOn]
    · rw [readPath, if_pos hslash, pathText, flatMap_resolve hrest hsettled]
      rfl

theorem IsPlainBase.getLast?_tail (hplain : IsPlainBase url)
    (h : HasFront (Path.trimEnd url) scheme front) : (tail front).getLast? ≠ some '/' := by
  obtain ⟨written, hwritten⟩ := hplain.trimEnd.tail_suffix h
  intro hlast
  have hend : (Path.trimEnd url).getLast? = some '/' := by
    rw [← hwritten, List.getLast?_append, hlast]
    rfl
  exact Path.trimEnd_eq_self_iff.1 (Path.trimEnd_trimEnd url) hend

theorem IsPlainBase.notMark (hplain : IsPlainBase url)
    (h : HasFront (Path.trimEnd url) scheme front) : ∀ c ∈ front, Reference.isMark c = false :=
  fun c hc => (hplain.trimEnd.kept c (h.mem hc)).2.1

theorem IsPlainBase.notMargin (hplain : IsPlainBase url) :
    ∀ c ∈ (Path.trimEnd url).getLast?, isMargin c = false :=
  fun c hc => (hplain.trimEnd.kept c (List.mem_of_getLast? hc)).1

/-- A plain base is read with the path that is written, but for slashes at its end. -/
theorem IsPlainBase.readFront (hplain : IsPlainBase url)
    (h : HasFront (Path.trimEnd url) scheme front) (hfront : front.dropWhile (isSlash true) ≠ [])
    {base : Url} (hbase : ofChars url = .ok base) :
    ∃ u, Url.readFront scheme front = .ok u ∧
      (∀ path query fragment, base.ending path query fragment = u.ending path query fragment) ∧
      Path.trimEnd base.path = escape escapedInPath (tail front) := by
  obtain ⟨hopened, hread⟩ := hplain.trimEnd.read h
  have htrim := trimEnd_escape (hplain.getLast?_tail h)
  obtain ⟨slashes, hsplit, hall⟩ := Text.exists_trimEndBy_append Path.isSlash url
  rw [← Path.trimEnd] at hsplit
  cases slashes with
  | nil =>
    have hparts := h.ofChars_eq hplain.notMargin (hplain.notMark h)
    rw [List.append_nil] at hsplit
    rw [← hsplit, hbase, hread] at hparts
    cases hok : Url.readFront scheme front with
    | error e => simp [hok, Except.map] at hparts
    | ok u =>
      rw [hok, Except.map, Except.ok.injEq] at hparts
      refine ⟨u, rfl, ?_, ?_⟩ <;> rw [hparts]
      · exact fun _ _ _ => rfl
      · rw [ending]
        split
        · rename_i hempty
          rw [hempty]
          rfl
        · exact htrim
  | cons c more =>
    obtain ⟨hc, hmore⟩ := List.forall_mem_cons.1 hall
    obtain rfl : c = '/' := by simpa [Path.isSlash] using hc
    have hparts := h.ofChars_append_slash hfront (hplain.notMark h) more
    have hempty : IsQueryText [] := fun d hd => absurd hd List.not_mem_nil
    have hreference : Reference.ofChars more = ⟨more, none, none⟩ :=
      (isPlain_of_isSlash hmore).reference hempty
    rw [← hsplit, hbase, hreference] at hparts
    cases hok : Url.readFront scheme front with
    | error e => simp [hok, Except.map] at hparts
    | ok u =>
      rw [hok, Except.map, Except.ok.injEq, (isPlain_of_isSlash hmore).extended, hopened] at hparts
      refine ⟨u, rfl, ?_, ?_⟩ <;> rw [hparts]
      · exact fun _ _ _ => rfl
      · have hslashes : Path.trimEnd ('/' :: more) = [] := List.rdropWhile_eq_nil_iff.2 hall
        rw [ending, Path.trimEnd, Text.trimEndBy_append, ← Path.trimEnd, hslashes, if_pos rfl]
        exact htrim

/-- Under a plain base every path can be requested. -/
theorem IsPlainBase.opened (hplain : IsPlainBase url) {base : Url} (hbase : ofChars url = .ok base)
    (hhttp : base.isHttp = true) : ofChars (Path.trimEnd url ++ ['/']) = .ok base.opened := by
  obtain ⟨scheme, front, h, hfront⟩ := exists_hasFront_trimEnd hbase hhttp
  obtain ⟨u, hok, hending, hpath⟩ := hplain.readFront h hfront hbase
  rw [h.ofChars_append_slash hfront (hplain.notMark h), hok, Reference.ofChars_nil, Except.map,
    extended_nil, Url.opened, hending, hpath, (hplain.trimEnd.read h).1]

/-- A plain base itself is requested without the slashes at its end. -/
theorem IsPlainBase.closed (hplain : IsPlainBase url) {base : Url} (hbase : ofChars url = .ok base)
    (hhttp : base.isHttp = true) : ofChars (Path.trimEnd url) = .ok base.closed := by
  obtain ⟨scheme, front, h, hfront⟩ := exists_hasFront_trimEnd hbase hhttp
  obtain ⟨u, hok, hending, hpath⟩ := hplain.readFront h hfront hbase
  rw [h.ofChars_eq hplain.notMargin (hplain.notMark h), hok, (hplain.trimEnd.read h).2, Url.closed,
    hending, hpath, Except.map]
  simp only [escape_eq_nil_iff]

end PlainBase

end ResourceApi.Url
