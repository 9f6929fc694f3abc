import Mathlib.Data.List.TakeWhile
import ResourceApi.Proofs.Client.Path
import ResourceApi.Url.Reader

/-!
The authority of a URL of the web: what stands between the slashes behind its scheme and the next
slash, question mark or hash. Whether such a URL can be read depends on its scheme and its authority
alone; so a path that is put behind a slash at the end of a readable URL changes nothing, unless a
blank at the end, which does not count there, becomes a part of the authority.
-/

namespace ResourceApi.Url

/-- Characters at which the authority of a URL of the web ends. -/
def endsAuthority (c : Char) : Bool := c = '#' || c = '?' || isSlash true c

/-- The authority in what follows the colon of a scheme. -/
def authorityIn (s : List Char) : List Char :=
  (s.dropWhile (isSlash true)).takeWhile fun c => !endsAuthority c

/-- A text that counts as a URL of the web with this scheme and this authority. -/
def HasAuthority (s scheme authority : List Char) : Prop :=
  ∃ rest, takeScheme (counting s) = some (scheme, rest) ∧ isWebScheme scheme = true ∧
    authorityIn rest = authority

def isReadable (scheme authority : List Char) : Bool :=
  (withAuthority scheme authority none none).isOk

/-! ### What reading looks at -/

/-- A URL with another ending behind its authority. -/
def ending (u : Url) (path : List Char) (query fragment : Option (List Char)) : Url :=
  { u with path := path, query := query, fragment := fragment }

/-- Reading looks at no more of the path, the query and the fragment than where they start: they
become the ending of what is read of the authority. -/
theorem withAuthority_eq {scheme : List Char} (hw : isWebScheme scheme = true) (s : List Char)
    (query fragment : Option (List Char)) :
    withAuthority scheme s query fragment =
      (withAuthority scheme (s.takeWhile fun c => !isSlash true c) none none).map fun u =>
        u.ending (readPath true (s.dropWhile fun c => !isSlash true c)) query fragment := by
  have htwice : (s.takeWhile fun c => !isSlash true c).takeWhile (fun c => !isSlash true c) =
      s.takeWhile fun c => !isSlash true c := by simp [List.takeWhile_takeWhile]
  simp only [withAuthority, cut, hw, htwice]
  split
  · rfl
  · split
    · rfl
    · cases readNumber scheme (splitNumber false
          (splitUser (s.takeWhile fun c => !isSlash true c)).2).2 <;> rfl

theorem isOk_withAuthority {scheme : List Char} (hw : isWebScheme scheme = true) (s : List Char)
    (query fragment : Option (List Char)) :
    (withAuthority scheme s query fragment).isOk =
      isReadable scheme (s.takeWhile fun c => !isSlash true c) := by
  rw [withAuthority_eq hw, isReadable]
  cases withAuthority scheme (s.takeWhile fun c => !isSlash true c) none none <;> rfl

theorem takeWhile_dropWhile {p q : Char → Bool} (h : ∀ c, q c = true → p c = true)
    (s : List Char) : (s.takeWhile p).dropWhile q = (s.dropWhile q).takeWhile p := by
  induction s with
  | nil => rfl
  | cons c s ih =>
    by_cases hq : q c = true
    · rw [List.takeWhile_cons_of_pos (h c hq), List.dropWhile_cons_of_pos hq,
        List.dropWhile_cons_of_pos hq, ih]
    · rw [List.dropWhile_cons_of_neg hq, List.takeWhile_cons]
      split
      · rw [List.dropWhile_cons_of_neg hq]
      · rfl

theorem ne_of_isSlash {c x : Char} (hx : isSlash true x = false) (hc : isSlash true c = true) :
    (!decide (c = x)) = true := by
  have hne : c ≠ x := by
    rintro rfl
    simp [hx] at hc
  simpa using hne

/-- The fragment, the query and the path are cut off one after the other; what is left is the
authority. -/
theorem takeWhile_cuts (s : List Char) :
    (((s.takeWhile fun c => !decide (c = '#')).takeWhile fun c => !decide (c = '?')).dropWhile
      (isSlash true)).takeWhile (fun c => !isSlash true c) = authorityIn s := by
  have hhash : ∀ c, isSlash true c = true → (!decide (c = '#')) = true :=
    fun c => ne_of_isSlash (by decide)
  have hmark : ∀ c, isSlash true c = true → (!decide (c = '?')) = true :=
    fun c => ne_of_isSlash (by decide)
  rw [takeWhile_dropWhile hmark, takeWhile_dropWhile hhash, List.takeWhile_takeWhile,
    List.takeWhile_takeWhile, authorityIn]
  congr 1
  funext c
  simp only [endsAuthority]
  cases isSlash true c <;> cases decide (c = '?') <;> cases decide (c = '#') <;> rfl

theorem isOk_ofChars {s scheme authority : List Char} (h : HasAuthority s scheme authority) :
    (ofChars s).isOk = isReadable scheme authority := by
  obtain ⟨rest, hscheme, hw, rfl⟩ := h
  rw [ofChars, hscheme]
  simp only [hw, if_true, cut]
  rw [isOk_withAuthority hw, takeWhile_cuts]

theorem isReadable_nil {scheme : List Char} (hw : isWebScheme scheme = true) :
    isReadable scheme [] = false := by
  simp [isReadable, withAuthority, cut, splitUser, splitNumber, hw, Except.isOk, Except.toBool]

theorem scheme_of_withAuthority {scheme s : List Char} {query fragment : Option (List Char)}
    {u : Url} (h : withAuthority scheme s query fragment = .ok u) : u.scheme = scheme := by
  simp only [withAuthority] at h
  split at h
  · cases h
  · split at h
    · cases h
    · cases hn : readNumber scheme (splitNumber false (splitUser (cut (isSlash
          (isWebScheme scheme)) s).1).2).2 with
      | error e => simp [hn, bind, Except.bind] at h
      | ok n =>
        simp only [hn, bind, Except.bind, Except.ok.injEq] at h
        rw [← h]

theorem scheme_of_ofFile {s : List Char} {query fragment : Option (List Char)} {u : Url}
    (h : ofFile s query fragment = .ok u) : u.scheme = "file".toList := by
  simp only [ofFile] at h
  split at h
  · split at h
    · split at h
      · obtain rfl := Except.ok.inj h
        rfl
      · split at h
        · obtain rfl := Except.ok.inj h
          rfl
        · split at h
          · cases h
          · split at h <;> obtain rfl := Except.ok.inj h <;> rfl
    · obtain rfl := Except.ok.inj h
      rfl
  · obtain rfl := Except.ok.inj h
    rfl

/-- A URL of HTTP has an authority. -/
theorem exists_hasAuthority {s : List Char} {u : Url} (h : ofChars s = .ok u)
    (hhttp : u.isHttp = true) :
    ∃ scheme authority, HasAuthority s scheme authority ∧ authority ≠ [] := by
  have hweb : isWebScheme u.scheme = true := by
    simp only [isHttp, List.contains_eq_mem, List.mem_cons, List.not_mem_nil, or_false,
      decide_eq_true_eq] at hhttp
    rcases hhttp with hname | hname <;> simp [isWebScheme, hname]
  cases hscheme : takeScheme (counting s) with
  | none => simp [ofChars, hscheme] at h
  | some p =>
    obtain ⟨scheme, rest⟩ := p
    by_cases hw : isWebScheme scheme = true
    · have hauthority : HasAuthority s scheme (authorityIn rest) := ⟨rest, hscheme, hw, rfl⟩
      refine ⟨scheme, authorityIn rest, hauthority, ?_⟩
      intro hempty
      have hread := isOk_ofChars hauthority
      rw [h, hempty, isReadable_nil hw] at hread
      cases hread
    · exfalso
      simp only [ofChars, hscheme, if_neg hw] at h
      split at h
      · rw [scheme_of_ofFile h] at hweb
        exact absurd hweb (by decide)
      · split at h
        · rw [scheme_of_withAuthority h] at hweb
          exact hw hweb
        · cases h
          exact hw hweb

/-! ### What is put behind a slash -/

section Behind

variable {p : Char → Bool} {c : Char}

theorem takeWhile_append_neg (hc : ¬p c = true) (s t : List Char) :
    (s ++ c :: t).takeWhile p = s.takeWhile p := by
  rw [List.takeWhile_append, List.takeWhile_cons_of_neg hc, List.append_nil]
  split
  · rename_i hlength
    exact ((List.takeWhile_prefix p).eq_of_length hlength).symm
  · rfl

theorem dropWhile_append_neg (hc : ¬p c = true) (s t : List Char) :
    (s ++ c :: t).dropWhile p = s.dropWhile p ++ c :: t := by
  rw [List.dropWhile_append, List.dropWhile_cons_of_neg hc]
  split
  · rename_i hempty
    rw [List.isEmpty_iff.1 hempty, List.nil_append]
  · rfl

end Behind

/-- Controls and spaces, which do not count at the ends of a URL. -/
def isMargin (c : Char) : Bool := c.toNat ≤ 0x20

/-- The text that counts, if no margin is taken off the end. -/
def countingToEnd (s : List Char) : List Char :=
  (s.dropWhile isMargin).filter fun c => !isIgnored c

theorem counting_of_end {s : List Char} (h : ∀ c ∈ s.getLast?, isMargin c = false) :
    counting s = countingToEnd s := by
  have hend : Text.trimEndBy isMargin s = s := Text.trimEndBy_eq_self_iff.2 h
  have htrim : Text.trimBy isMargin s = s.dropWhile isMargin := by
    rw [← Text.dropWhile_trimEndBy, hend]
  rw [countingToEnd, ← htrim]
  rfl

/-- What does not count at the end of a text is a margin. -/
theorem exists_counting_append (s : List Char) :
    ∃ margin, countingToEnd s = counting s ++ margin := by
  obtain ⟨margin, hmargin, -⟩ := Text.exists_trimEndBy_append isMargin (s.dropWhile isMargin)
  refine ⟨margin.filter fun c => !isIgnored c, ?_⟩
  rw [countingToEnd, hmargin, List.filter_append]
  rfl

theorem isIgnored_of_isMargin {c : Char} (h : isMargin c = false) : isIgnored c = false := by
  by_contra hignored
  have hblank : (c = '\t' ∨ c = '\n') ∨ c = '\r' := by
    rw [Bool.not_eq_false, isIgnored] at hignored
    simpa only [Bool.or_eq_true, decide_eq_true_eq] using hignored
  rcases hblank with (rfl | rfl) | rfl <;> exact absurd h (by decide)

/-- What counts does not end at a character that is no margin, whatever stands behind it. -/
theorem counting_append_cons {c : Char} (hc : isMargin c = false) (s t : List Char) :
    counting (s ++ c :: t) =
      countingToEnd s ++ c :: (Text.trimEndBy isMargin t).filter fun c => !isIgnored c := by
  have hend : Text.trimEndBy isMargin (c :: t) = c :: Text.trimEndBy isMargin t :=
    Text.trimEndBy_cons_of_neg hc t
  have htrim : Text.trimBy isMargin (s ++ c :: t) =
      s.dropWhile isMargin ++ c :: Text.trimEndBy isMargin t := by
    rw [← Text.dropWhile_trimEndBy, Text.trimEndBy_append, hend, if_neg (List.cons_ne_nil _ _),
      dropWhile_append_neg (by simp [hc])]
  have hfilter : counting (s ++ c :: t) =
      (Text.trimBy isMargin (s ++ c :: t)).filter fun c => !isIgnored c := rfl
  rw [hfilter, htrim, List.filter_append, List.filter_cons, isIgnored_of_isMargin hc]
  rfl

/-- A scheme does not go on behind a character that it cannot hold. -/
theorem takeScheme_append_cons {c : Char} (hc : isSchemeChar c = false) (hcolon : c ≠ ':')
    (s t : List Char) :
    takeScheme (s ++ c :: t) = (takeScheme s).map fun r => (r.1, r.2 ++ c :: t) := by
  have hend : ¬isSchemeChar c = true := by simp [hc]
  rw [takeScheme, takeWhile_append_neg hend, dropWhile_append_neg hend, takeScheme]
  cases s.takeWhile isSchemeChar with
  | nil => rfl
  | cons d scheme =>
    cases s.dropWhile isSchemeChar with
    | nil => simp [hcolon]
    | cons x rest =>
      by_cases hx : x = ':'
      · subst hx
        by_cases hd : d.isAlpha = true <;> simp [hd]
      · simp [hx]

theorem takeScheme_eq_some_iff {s scheme rest : List Char} :
    takeScheme s = some (scheme, rest) ↔
      ∃ c name, s = c :: name ++ ':' :: rest ∧ (∀ d ∈ c :: name, isSchemeChar d = true) ∧
        c.isAlpha = true ∧ (c :: name).map Char.toLower = scheme := by
  constructor
  · intro h
    have hsplit := List.takeWhile_append_dropWhile (p := isSchemeChar) (l := s)
    rw [takeScheme] at h
    split at h
    · rename_i c name after hname hafter
      rw [hname, hafter] at hsplit
      split at h
      · rename_i halpha
        obtain ⟨rfl, rfl⟩ := Prod.mk.inj (Option.some.inj h)
        refine ⟨c, name, hsplit.symm, fun d hd => ?_, halpha, rfl⟩
        rw [← hname] at hd
        exact List.mem_takeWhile_imp hd
      · cases h
    · cases h
  · rintro ⟨c, name, rfl, hname, halpha, rfl⟩
    have hcolon : ¬isSchemeChar ':' = true := by decide
    rw [takeScheme, takeWhile_append_neg hcolon, dropWhile_append_neg hcolon,
      List.takeWhile_eq_self_iff.2 hname, List.dropWhile_eq_nil_iff.2 hname, List.nil_append]
    simp [halpha]

theorem takeScheme_append {s scheme rest : List Char} (h : takeScheme s = some (scheme, rest))
    (t : List Char) : takeScheme (s ++ t) = some (scheme, rest ++ t) := by
  obtain ⟨c, name, rfl, hname⟩ := takeScheme_eq_some_iff.1 h
  exact takeScheme_eq_some_iff.2 ⟨c, name, List.append_assoc .., hname⟩

theorem authorityIn_append_slash {s : List Char} (h : s.dropWhile (isSlash true) ≠ [])
    (t : List Char) : authorityIn (s ++ '/' :: t) = authorityIn s := by
  have hdrop : (s ++ '/' :: t).dropWhile (isSlash true) =
      s.dropWhile (isSlash true) ++ '/' :: t := by
    rw [List.dropWhile_append, if_neg (by simpa using h)]
  rw [authorityIn, hdrop, takeWhile_append_neg (by decide), authorityIn]

theorem dropWhile_ne_nil_of_authorityIn {s : List Char} (h : authorityIn s ≠ []) :
    s.dropWhile (isSlash true) ≠ [] := by
  intro hempty
  exact h (by rw [authorityIn, hempty, List.takeWhile_nil])

/-- More slashes make no authority. -/
theorem authorityIn_append_slashes {s t : List Char} (h : s.dropWhile (isSlash true) = [])
    (ht : ∀ c ∈ t, Path.isSlash c = true) : authorityIn (s ++ t) = [] := by
  have hall : ∀ c ∈ t, isSlash true c = true := by
    intro c hc
    have hslash : c = '/' := by simpa [Path.isSlash] using ht c hc
    simp [isSlash, hslash]
  have hdrop : (s ++ t).dropWhile (isSlash true) = [] := by
    rw [List.dropWhile_append, h]
    exact List.dropWhile_eq_nil_iff.2 hall
  rw [authorityIn, hdrop, List.takeWhile_nil]

section TrimEnd

variable {s scheme authority : List Char}

/-- A text without its final slashes has its scheme and authority already, but for a margin that is
at its end then. -/
theorem HasAuthority.exists_front (h : HasAuthority s scheme authority) (hne : authority ≠ []) :
    ∃ front, takeScheme (countingToEnd (Path.trimEnd s)) = some (scheme, front) ∧
      front.dropWhile (isSlash true) ≠ [] ∧
      ((∀ c ∈ (Path.trimEnd s).getLast?, isMargin c = false) → authorityIn front = authority) := by
  obtain ⟨rest, hscheme, -, hrest⟩ := h
  obtain ⟨slashes, hsplit, hall⟩ := Text.exists_trimEndBy_append Path.isSlash s
  rw [← Path.trimEnd] at hsplit
  cases slashes with
  | nil =>
    rw [List.append_nil] at hsplit
    rw [← hsplit]
    obtain ⟨margin, hmargin⟩ := exists_counting_append s
    have hdrop := dropWhile_ne_nil_of_authorityIn (hrest ▸ hne)
    refine ⟨rest ++ margin, ?_, ?_, fun hend => ?_⟩
    · rw [hmargin, takeScheme_append hscheme]
    · simp [List.dropWhile_append, hdrop]
    · rw [counting_of_end hend, List.self_eq_append_right] at hmargin
      rw [hmargin, List.append_nil, hrest]
  | cons c more =>
    obtain ⟨hc, hmore⟩ := List.forall_mem_cons.1 hall
    obtain rfl : c = '/' := by simpa [Path.isSlash] using hc
    rw [hsplit, counting_append_cons (by decide), takeScheme_append_cons (by decide) (by decide)]
      at hscheme
    obtain ⟨⟨scheme', front⟩, hfront, hpair⟩ := Option.map_eq_some_iff.1 hscheme
    obtain ⟨rfl, rfl⟩ := Prod.mk.inj hpair
    have hkept : ∀ d ∈ (Text.trimEndBy isMargin more).filter fun c => !isIgnored c,
        Path.isSlash d = true := by
      intro d hd
      exact hmore d ((List.rdropWhile_prefix isMargin more).subset (List.mem_of_mem_filter hd))
    have hdrop : front.dropWhile (isSlash true) ≠ [] := by
      intro hempty
      have hnone := authorityIn_append_slashes hempty (List.forall_mem_cons.2 ⟨hc, hkept⟩)
      exact hne (hrest.symm.trans hnone)
    rw [authorityIn_append_slash hdrop] at hrest
    exact ⟨front, hfront, hdrop, fun _ => hrest⟩

/-- A text whose final slashes are taken off keeps its authority, if no margin ends it then; and so
it does whatever is put behind it with a slash. -/
theorem HasAuthority.trimEnd (h : HasAuthority s scheme authority) (hne : authority ≠ [])
    (hend : ∀ c ∈ (Path.trimEnd s).getLast?, isMargin c = false) :
    HasAuthority (Path.trimEnd s) scheme authority ∧
      ∀ t, HasAuthority (Path.trimEnd s ++ '/' :: t) scheme authority := by
  obtain ⟨front, hfront, hdrop, hrest⟩ := h.exists_front hne
  have hauthority := hrest hend
  obtain ⟨-, -, hw, -⟩ := h
  refine ⟨⟨front, ?_, hw, hauthority⟩, fun t => ?_⟩
  · rw [counting_of_end hend, hfront]
  · have hscheme : takeScheme (counting (Path.trimEnd s ++ '/' :: t)) = some (scheme,
        front ++ '/' :: (Text.trimEndBy isMargin t).filter fun c => !isIgnored c) := by
      rw [counting_append_cons (by decide), takeScheme_append_cons (by decide) (by decide), hfront]
      rfl
    exact ⟨_, hscheme, hw, (authorityIn_append_slash hdrop _).trans hauthority⟩

/-- The same holds of whether a URL of HTTP can be read. -/
theorem isOk_ofChars_trimEnd {u : Url} (h : ofChars s = .ok u) (hhttp : u.isHttp = true)
    (hend : ∀ c ∈ (Path.trimEnd s).getLast?, isMargin c = false) :
    (ofChars (Path.trimEnd s)).isOk = true ∧
      ∀ t, (ofChars (Path.trimEnd s ++ '/' :: t)).isOk = true := by
  obtain ⟨scheme, authority, hauthority, hne⟩ := exists_hasAuthority h hhttp
  obtain ⟨hbase, hbehind⟩ := hauthority.trimEnd hne hend
  have hread : isReadable scheme authority = true := by
    rw [← isOk_ofChars hauthority, h]
    rfl
  refine ⟨?_, fun t => ?_⟩
  · rw [isOk_ofChars hbase, hread]
  · rw [isOk_ofChars (hbehind t), hread]

end TrimEnd

end ResourceApi.Url
