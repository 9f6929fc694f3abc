import ResourceApi.Client.Collection
import ResourceApi.Proofs.Options.Query
import ResourceApi.Proofs.Page.Printing

/-!
A walk over the pages of a collection collects every record once, in order. The server chooses, page
by page, how many records to send and by which signs to tell that more follow; each page that the
walk goes on from has a record, and a page that it stops at is the end of the collection.
-/

namespace ResourceApi.Collection

variable {σ α : Type}

/-! ### Servers -/

/-- A page that answers a request for at most so many records of a collection from an offset on.
It says truly what it says; a page that says nothing is as full as it can be. -/
structure IsPageOf (L : List α) (offset limit : Int) (p : Page α) : Prop where
  items : p.items <+: L.drop offset.toNat
  bounded : p.items.length ≤ limit
  progress : p.items = [] → L.drop offset.toNat = []
  totalCount : ∀ n ∈ p.totalCount, n.toNat = L.length
  echo : ∀ n ∈ p.offset, n.toInt = offset
  next : p.next.isSome → p.items.length < (L.drop offset.toNat).length
  full : p.totalCount = none → p.next = none →
    (p.items.length : Int) = min limit (L.drop offset.toNat).length

/-- The request for the records from an offset on, at most so many, with the other options kept. -/
def asking (resource : String) (o : RequestOptions) (offset limit : Int) : Request :=
  ⟨.get, Path.build resource [] { o with limit := some limit, offset := some offset }.query, none⟩

/-- In every state, each request is answered with a page of the collection. Offsets and limits are
those that a signed word can hold, so that a server can echo each of them. -/
def Serves (dispatch : Dispatcher σ) (read : Json → Option α) (resource : String)
    (o : RequestOptions) (L : List α) : Prop :=
  ∀ s (offset limit : Int), 0 ≤ offset → offset < 0x8000000000000000 →
    0 < limit → limit < 0x8000000000000000 →
    ∃ v p, (dispatch s (asking resource o offset limit)).1 = .ok v ∧
      Page.ofJson? read v = some p ∧ IsPageOf L offset limit p

/-- A dispatcher with the number of requests that it has answered. -/
def counted (dispatch : Dispatcher σ) : Dispatcher (σ × Nat) := fun s r =>
  ((dispatch s.1 r).1, (dispatch s.1 r).2, s.2 + 1)

/-- Counting the requests changes nothing about the pages. -/
theorem serves_counted {dispatch : Dispatcher σ} {read : Json → Option α} {resource : String}
    {o : RequestOptions} {L : List α} (h : Serves dispatch read resource o L) :
    Serves (counted dispatch) read resource o L :=
  fun s => h s.1

/-! ### One page -/

theorem pageSize_pos (o : RequestOptions) : 0 < pageSize o := by
  rw [pageSize]
  split
  · split
    · assumption
    · decide
  · decide

/-- What the total count says is true of the collection. -/
theorem isFollowed_iff {L : List α} {offset limit : Int} {p : Page α}
    (h : IsPageOf L offset limit p) (hoffset : 0 ≤ offset) {n : UInt64}
    (hn : p.totalCount = some n) :
    p.isFollowed offset = some (decide (p.items.length < (L.drop offset.toNat).length)) := by
  have htotal : n.toNat = L.length := h.totalCount n hn
  have hecho : (p.offset.map Int64.toInt).getD offset = offset := by
    cases he : p.offset with
    | none => rfl
    | some m => exact h.echo m he
  have hmax : max 0 offset = offset := by omega
  simp only [Page.isFollowed, hn, Page.reached_lt_iff, hecho, hmax, htotal, List.length_drop,
    Option.some.injEq, decide_eq_decide]
  omega

/-- A page that the walk stops at holds all that remains. -/
theorem items_of_stops {L : List α} {offset limit : Int} {p : Page α}
    (h : IsPageOf L offset limit p) (hoffset : 0 ≤ offset)
    (hstop : goesOn limit offset p = false) : p.items = L.drop offset.toNat := by
  by_cases hempty : p.items = []
  · rw [hempty, h.progress hempty]
  have hmore : (p.isFollowed offset).getD (decide ((p.items.length : Int) = limit)) = false := by
    simpa [goesOn, hempty] using hstop
  refine h.items.eq_of_length_le ?_
  cases htotal : p.totalCount with
  | some n =>
    rw [isFollowed_iff h hoffset htotal, Option.getD_some, decide_eq_false_iff_not] at hmore
    exact Nat.le_of_not_lt hmore
  | none =>
    cases hnext : p.next with
    | some link => simp [Page.isFollowed, htotal, hnext] at hmore
    | none =>
      have hfull := h.full htotal hnext
      have hne : (p.items.length : Int) ≠ limit := by
        simpa [Page.isFollowed, htotal, hnext] using hmore
      omega

/-- The walk never goes on after an empty page. -/
theorem items_ne_nil_of_goesOn {size offset : Int} {p : Page α}
    (h : goesOn size offset p = true) : p.items ≠ [] := by
  intro hempty
  simp [goesOn, hempty] at h

/-- The records from an offset on are those of a page and those behind it. -/
theorem drop_of_prefix {L l : List α} {offset : Int} (hoffset : 0 ≤ offset)
    (h : l <+: L.drop offset.toNat) :
    L.drop offset.toNat = l ++ L.drop (offset + l.length).toNat := by
  obtain ⟨rest, hrest⟩ := h
  have hto : (offset + l.length).toNat = offset.toNat + l.length := by omega
  rw [hto, ← List.drop_drop, ← hrest, List.drop_left]

/-- The first records from an offset on are a page, if its signs are true of them. -/
theorem isPageOf_take {L : List α} (offset : Nat) {limit n : Nat} {total : Option UInt64}
    {echoed : Option Int64} {next : Option Link} (hpos : 0 < n) (hle : n ≤ limit)
    (htotal : ∀ t ∈ total, t.toNat = L.length) (hecho : ∀ k ∈ echoed, k.toInt = offset)
    (hnext : next.isSome → n < (L.drop offset).length)
    (hfull : total = none → next = none → n = limit) :
    IsPageOf L offset limit ⟨(L.drop offset).take n, total, echoed, none, none, next, none⟩ where
  items := List.take_prefix n (L.drop offset)
  bounded := by
    rw [List.length_take]
    omega
  progress := by
    intro h
    rcases List.take_eq_nil_iff.1 h with hn | hdrop
    · omega
    · exact hdrop
  totalCount := htotal
  echo := hecho
  next := by
    intro h
    have hmore := hnext h
    rw [List.length_take, Int.toNat_natCast]
    omega
  full := by
    intro ht hn
    obtain rfl := hfull ht hn
    rw [List.length_take, Int.toNat_natCast]
    omega

/-! ### One step of the walk -/

variable {dispatch : Dispatcher σ} {read : Json → Option α} {resource : String}
  {o : RequestOptions} {offset : Int} {p : Page α}

theorem send_of_decode {r : Request} {s : σ} {v : Json}
    (hreply : (dispatch s r).1 = .ok v) (hread : Page.ofJson? read v = some p) :
    send dispatch (Page.ofJson? read) r s = (.ok p, (dispatch s r).2) := by
  simp [send, decode, hreply, hread]

/-- A walk ends at a page after which it does not go on. -/
theorem walk_of_stops {n : Nat} {s s₁ : σ}
    (hsend : send dispatch (Page.ofJson? read) (pageRequest resource o offset) s = (.ok p, s₁))
    (hstop : goesOn (pageSize o) offset p = false) :
    walk dispatch read resource o (n + 1) offset s = (some (.ok p.items), s₁) := by
  simp [walk, hsend, hstop]

/-- The items of a page come before those of the walk that follows it. -/
theorem walk_of_goesOn {n : Nat} {s s₁ s₂ : σ} {rest : List α}
    (hsend : send dispatch (Page.ofJson? read) (pageRequest resource o offset) s = (.ok p, s₁))
    (hmore : goesOn (pageSize o) offset p = true)
    (hrest : walk dispatch read resource o n (offset + p.items.length) s₁ =
      (some (.ok rest), s₂)) :
    walk dispatch read resource o (n + 1) offset s = (some (.ok (p.items ++ rest)), s₂) := by
  simp [walk, hsend, hmore, hrest]

/-- A walk that ends well begins with a page, and stops there or goes on and ends well. -/
theorem cases_walk {n : Nat} {s s₂ : σ} {items : List α}
    (h : walk dispatch read resource o (n + 1) offset s = (some (.ok items), s₂)) :
    ∃ p s₁, send dispatch (Page.ofJson? read) (pageRequest resource o offset) s = (.ok p, s₁) ∧
      ((goesOn (pageSize o) offset p = false ∧ items = p.items ∧ s₂ = s₁) ∨
        (goesOn (pageSize o) offset p = true ∧ ∃ rest, items = p.items ++ rest ∧
          walk dispatch read resource o n (offset + p.items.length) s₁ =
            (some (.ok rest), s₂))) := by
  rw [walk] at h
  split at h
  · simp at h
  · rename_i p s₁ hsend
    refine ⟨p, s₁, hsend, ?_⟩
    split at h
    · rename_i hmore
      split at h
      · rename_i rest s₃ hrest
        simp only [Prod.mk.injEq, Option.some.injEq, Except.ok.injEq] at h
        exact .inr ⟨hmore, rest, h.1.symm, h.2 ▸ hrest⟩
      · rename_i other hother
        exact absurd h (hother items s₂)
    · rename_i hstop
      simp only [Prod.mk.injEq, Option.some.injEq, Except.ok.injEq] at h
      exact .inl ⟨by simpa using hstop, h.1.symm, h.2.symm⟩

/-! ### The whole walk -/

/-- If every page below a bound begins what remains, and holds all of it where the walk stops, then
with a request for each record and one more the walk collects it. No request begins behind both the
first offset and the end of the collection. -/
theorem walk_collects_of_pages {L : List α} {bound : Int} (hlength : L.length < bound)
    (hpage : ∀ s offset, 0 ≤ offset → offset < bound → ∃ p s',
      send dispatch (Page.ofJson? read) (pageRequest resource o offset) s = (.ok p, s') ∧
        p.items <+: L.drop offset.toNat ∧
        (goesOn (pageSize o) offset p = false → p.items = L.drop offset.toNat))
    (hoffset : 0 ≤ offset) (hbound : offset < bound) {n : Nat}
    (enough : (L.drop offset.toNat).length < n) (s : σ) :
    ∃ s', walk dispatch read resource o n offset s = (some (.ok (L.drop offset.toNat)), s') := by
  induction n generalizing offset s with
  | zero => omega
  | succ n ih =>
    obtain ⟨p, s₁, hsend, hitems, hlast⟩ := hpage s offset hoffset hbound
    cases hmore : goesOn (pageSize o) offset p with
    | false =>
      rw [← hlast hmore]
      exact ⟨_, walk_of_stops hsend hmore⟩
    | true =>
      -- The page has a record, so fewer remain than before.
      have hdrop := drop_of_prefix hoffset hitems
      have hpos : 0 < p.items.length := List.length_pos_iff.2 (items_ne_nil_of_goesOn hmore)
      have hrest : (L.drop (offset + p.items.length).toNat).length < n := by
        rw [hdrop, List.length_append] at enough
        omega
      have hnext : offset + p.items.length < bound := by
        have hle := hitems.length_le
        rw [List.length_drop] at hle
        omega
      obtain ⟨s', hs'⟩ := ih (by omega) hnext hrest s₁
      rw [hdrop]
      exact ⟨s', walk_of_goesOn hsend hmore hs'⟩

/-- From a server that tells the truth, a walk collects all that remains. -/
theorem walk_collects {L : List α} (h : Serves dispatch read resource o L)
    (hlength : L.length < 0x8000000000000000) (hsize : pageSize o < 0x8000000000000000)
    (hoffset : 0 ≤ offset) (hbound : offset < 0x8000000000000000) {n : Nat}
    (enough : (L.drop offset.toNat).length < n) (s : σ) :
    ∃ s', walk dispatch read resource o n offset s = (some (.ok (L.drop offset.toNat)), s') := by
  have hend : (L.length : Int) < 0x8000000000000000 := by omega
  refine walk_collects_of_pages hend (fun s offset hoffset hbound => ?_) hoffset hbound enough s
  obtain ⟨v, p, hreply, hread, hpage⟩ :=
    h s offset (pageSize o) hoffset hbound (pageSize_pos o) hsize
  exact ⟨p, _, send_of_decode hreply hread, hpage.items, items_of_stops hpage hoffset⟩

/-- A walk that ends well, with any server, has sent at most one request more than it has
collected records: only its last page may be empty. -/
theorem requests_le {n : Nat} {s s' : σ} {k k' : Nat} {items : List α}
    (h : walk (counted dispatch) read resource o n offset (s, k) = (some (.ok items), (s', k'))) :
    k' ≤ k + items.length + 1 := by
  induction n generalizing offset s k items with
  | zero => simp [walk] at h
  | succ n ih =>
    obtain ⟨p, ⟨s₁, k₁⟩, hsend, hcases⟩ := cases_walk h
    have hcount : k₁ = k + 1 := by
      have hstate := congrArg (fun x => x.2.2) hsend
      exact hstate.symm
    rcases hcases with ⟨-, rfl, hs⟩ | ⟨hmore, rest, rfl, hrest⟩
    · obtain ⟨-, rfl⟩ := Prod.mk.inj hs
      omega
    · have hpos : 0 < p.items.length := List.length_pos_iff.2 (items_ne_nil_of_goesOn hmore)
      have hle := ih hrest
      rw [List.length_append]
      omega

/-- Where the records that options ask for begin; an offset below zero counts as zero. -/
def firstAsked (options : Option RequestOptions) : Nat :=
  (max 0 ((options.bind RequestOptions.offset).getD 0)).toNat

theorem firstAsked_lt {options : Option RequestOptions}
    (h : ∀ n ∈ options.bind RequestOptions.offset, n < 0x8000000000000000) :
    (firstAsked options : Int) < 0x8000000000000000 := by
  rw [firstAsked]
  cases hoffset : options.bind RequestOptions.offset with
  | none => decide
  | some n =>
    have hn := h n hoffset
    rw [Option.getD_some]
    omega

theorem offset_merge (criteria : Option Criteria) (options : Option RequestOptions) :
    (Compose.merge criteria options).offset = options.bind RequestOptions.offset := by
  rw [Compose.merge]
  cases options <;> split <;> rfl

theorem limit_merge (criteria : Option Criteria) (options : Option RequestOptions) :
    (Compose.merge criteria options).limit = options.bind RequestOptions.limit := by
  rw [Compose.merge]
  cases options <;> split <;> rfl

/-- Criteria do not change where a walk begins. -/
theorem startOffset_merge (criteria : Option Criteria) (options : Option RequestOptions) :
    (startOffset (Compose.merge criteria options)).toNat = firstAsked options := by
  rw [startOffset, offset_merge, firstAsked]

theorem pageSize_merge_lt (criteria : Option Criteria) {options : Option RequestOptions}
    (hlimit : ∀ n ∈ options.bind RequestOptions.limit, n < 0x8000000000000000) :
    pageSize (Compose.merge criteria options) < 0x8000000000000000 := by
  rw [pageSize, limit_merge]
  split
  · rename_i n hn
    have hlt := hlimit n hn
    split
    · exact hlt
    · decide
  · decide

/-- From any server, the walk over all pages collects the records from its first offset on, each
once and in order, with at most one request more than there are records. Limit and offset of the
options are signed words, as every offset within the collection is. -/
theorem listAll_collects_each_once {L : List α} (criteria : Option Criteria)
    (options : Option RequestOptions) (hlength : L.length < 0x8000000000000000)
    (hfirst : ∀ n ∈ options.bind RequestOptions.offset, n < 0x8000000000000000)
    (hlimit : ∀ n ∈ options.bind RequestOptions.limit, n < 0x8000000000000000)
    (hserves : Serves dispatch read resource (Compose.merge criteria options) L) (s : σ)
    (requests : Nat) (enough : (L.drop (firstAsked options)).length < requests) :
    (listAll dispatch read resource criteria options requests s).1 =
        some (.ok (L.drop (firstAsked options))) ∧
      ∃ s' k, listAll (counted dispatch) read resource criteria options requests (s, 0) =
        (some (.ok (L.drop (firstAsked options))), (s', k)) ∧
          k ≤ (L.drop (firstAsked options)).length + 1 := by
  have hoffset : 0 ≤ startOffset (Compose.merge criteria options) := by
    rw [startOffset]
    omega
  have hbound : startOffset (Compose.merge criteria options) < 0x8000000000000000 := by
    rw [← Int.toNat_of_nonneg hoffset, startOffset_merge]
    exact firstAsked_lt hfirst
  have hsize := pageSize_merge_lt criteria hlimit
  rw [← startOffset_merge criteria options] at enough ⊢
  obtain ⟨s₁, hwalk⟩ := walk_collects hserves hlength hsize hoffset hbound enough s
  obtain ⟨⟨s₂, k⟩, hcounted⟩ :=
    walk_collects (serves_counted hserves) hlength hsize hoffset hbound enough (s, 0)
  have hrequests := requests_le hcounted
  exact ⟨by rw [listAll, hwalk], s₂, k, hcounted, by omega⟩

/-! ### A server with mixed signs -/

def three : List Json := [.int 1, .int 2, .int 3]

def askedNumber (name : String) (r : Request) : Nat :=
  match ((RequestOptions.readQuery (r.path.toList.drop 7)).getD []).find? (·.name = name) with
  | some ⟨_, [v]⟩ => Nat.ofDigitChars 10 v.toList 0
  | _ => 0

/-- Of three records, every other page has one and counts all; the others are full, and have a link
unless they are the last. Every page says which offset it answers. -/
def mixedPage (counting : Bool) (offset limit : Nat) : Page Json :=
  let rest := three.drop offset
  let echoed := some (Int64.ofInt offset)
  if counting then ⟨rest.take 1, some 3, echoed, none, none, none, none⟩
  else if limit < rest.length then
    ⟨rest.take limit, none, echoed, none, none, some (.url "more"), none⟩
  else ⟨rest.take limit, none, echoed, none, none, none, none⟩

def mixed : Dispatcher Bool := fun counting r =>
  (.ok ((mixedPage counting (askedNumber "offset" r) (askedNumber "limit" r)).toJson id),
    !counting)

def fromSecond : RequestOptions :=
  { RequestOptions.default with limit := some 2, offset := some 1 }

theorem ofJson?_mixedPage (counting : Bool) (offset limit : Nat) :
    Page.ofJson? some ((mixedPage counting offset limit).toJson id) =
      some (mixedPage counting offset limit) :=
  Page.ofJson?_toJson fun _ _ => rfl

/-- Each of the mixed pages answers its request truly. -/
theorem isPageOf_mixedPage (counting : Bool) {offset limit : Nat}
    (hoffset : offset < 0x8000000000000000)
    (hlimit : 0 < limit) : IsPageOf three offset limit (mixedPage counting offset limit) := by
  have hthree : ∀ t ∈ some (3 : UInt64), t.toNat = three.length := by simp [three]
  have hecho : ∀ k ∈ some (Int64.ofInt offset), k.toInt = offset := by
    intro k hk
    rw [← Option.some.inj hk]
    exact Int64.toInt_ofInt_of_le (by omega) (by omega)
  simp only [mixedPage]
  split
  · exact isPageOf_take offset (by decide) hlimit hthree hecho (by simp) (by simp)
  split
  · rename_i hmore
    exact isPageOf_take offset hlimit (Nat.le_refl _) (by simp) hecho (fun _ => hmore) (by simp)
  · exact isPageOf_take offset hlimit (Nat.le_refl _) (by simp) hecho (by simp) (by simp)

theorem drop_build (q : String) : (Path.build "/items" [] q).toList.drop 7 = q.toList := by
  have htrim : Path.trimEnd "/items".toList = "/items".toList := by decide
  rw [Path.build, String.toList_ofList, htrim, Path.withQuery]
  split
  · rename_i hq
    rw [List.isEmpty_iff.1 hq]
    decide
  · simp [Path.segments]

theorem ofDigitChars_toString (k : Nat) :
    Nat.ofDigitChars 10 (toString (k : Int)).toList 0 = k := by
  have hk : (toString (k : Int)).toList = Nat.toDigits 10 k := by
    rw [Int.toString_eq_repr, Int.repr_eq_if, if_pos (by omega), Int.toNat_natCast]
    simp
  rw [hk, Nat.ofDigitChars_ten_toDigits]

/-- The server finds offset and limit in the query of a request. -/
theorem askedNumber_asking (offset limit : Nat) :
    askedNumber "offset" (asking "/items" fromSecond offset limit) = offset ∧
      askedNumber "limit" (asking "/items" fromSecond offset limit) = limit := by
  have hmeant : RequestOptions.meant
      { fromSecond with limit := some limit, offset := some offset } =
      [⟨"limit", [toString (limit : Int)]⟩, ⟨"offset", [toString (offset : Int)]⟩] := rfl
  simp only [askedNumber, asking, drop_build, RequestOptions.readQuery_query, hmeant]
  constructor
  · simpa using ofDigitChars_toString offset
  · simpa using ofDigitChars_toString limit

/-- A server that mixes full pages and short ones, counts and links still serves the collection. -/
theorem serves_mixed : Serves mixed some "/items" fromSecond three := by
  intro counting offset limit hoffset hbound hlimit _
  obtain ⟨m, rfl⟩ := Int.eq_ofNat_of_zero_le hoffset
  obtain ⟨n, rfl⟩ := Int.eq_ofNat_of_zero_le (Int.le_of_lt hlimit)
  obtain ⟨hm, hn⟩ := askedNumber_asking m n
  refine ⟨_, mixedPage counting m n, rfl, ?_, isPageOf_mixedPage counting (by omega) (by omega)⟩
  rw [hm, hn]
  exact ofJson?_mixedPage counting m n

/-- The walk over mixed pages collects two records, and takes three requests at most. -/
theorem mixed_collects_from_second :
    three.length < 0x8000000000000000 ∧
      (∀ n ∈ (some fromSecond).bind RequestOptions.offset, n < 0x8000000000000000) ∧
      (∀ n ∈ (some fromSecond).bind RequestOptions.limit, n < 0x8000000000000000) ∧
      Serves mixed some "/items" (Compose.merge none (some fromSecond)) three ∧
      (three.drop (firstAsked (some fromSecond))).length < 3 ∧
      (listAll mixed some "/items" none (some fromSecond) 3 true).1 =
        some (.ok [.int 2, .int 3]) := by
  have hlength : three.length < 0x8000000000000000 := by decide
  have hfirst : ∀ n ∈ (some fromSecond).bind RequestOptions.offset, n < 0x8000000000000000 := by
    simp [fromSecond]
  have hlimit : ∀ n ∈ (some fromSecond).bind RequestOptions.limit, n < 0x8000000000000000 := by
    simp [fromSecond]
  have henough : (three.drop (firstAsked (some fromSecond))).length < 3 := by decide
  have hall := listAll_collects_each_once none (some fromSecond) hlength hfirst hlimit serves_mixed
    true 3 henough
  exact ⟨hlength, hfirst, hlimit, serves_mixed, henough, hall.1⟩

end ResourceApi.Collection
