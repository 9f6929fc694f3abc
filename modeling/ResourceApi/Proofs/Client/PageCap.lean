import ResourceApi.Proofs.Client.PagingRule

/-!
The walk over all pages of a server that sends at most so many records at a time, says so in the
limit of its pages, and gives no other sign of what follows. The walk measures a page by the limit
that it asked for and not by the one that the page names. So it collects everything if it asks for
no more than the server sends, and stops at the first page if it asks for more.
-/

namespace ResourceApi.Collection

variable {σ α : Type}

/-! ### Servers with a cap -/

/-- The page of a collection that answers a request for at most so many records from an offset on,
cut at the cap and without a total count or a link. -/
structure IsCappedPageOf (L : List α) (cap : Nat) (offset limit : Int) (p : Page α) : Prop where
  items : p.items = (L.drop offset.toNat).take (min limit cap).toNat
  limit : p.limit.map Int64.toInt = some (min limit cap)
  totalCount : p.totalCount = none
  first : p.first = none
  next : p.next = none
  previous : p.previous = none

/-- In every state, each request is answered with a page that is cut at the cap. -/
def Caps (dispatch : Dispatcher σ) (read : Json → Option α) (resource : String)
    (o : RequestOptions) (L : List α) (cap : Nat) : Prop :=
  ∀ s offset limit, 0 ≤ offset → 0 < limit →
    ∃ v p, (dispatch s (asking resource o offset limit)).1 = .ok v ∧
      Page.ofJson? read v = some p ∧ IsCappedPageOf L cap offset limit p

variable {L : List α} {cap : Nat} {offset limit : Int} {p : Page α}

/-- Such a page is full by the size that was asked for, or it is the last one. -/
theorem goesOn_of_isCappedPageOf (h : IsCappedPageOf L cap offset limit p) (hcap : 0 < cap)
    (hlimit : 0 < limit) :
    goesOn limit offset p = true ↔ limit ≤ min cap (L.drop offset.toNat).length := by
  have hfollowed : p.isFollowed offset = none := by simp [Page.isFollowed, h.totalCount, h.next]
  have hlength : p.items.length = min (min limit cap).toNat (L.drop offset.toNat).length := by
    rw [h.items, List.length_take]
  rw [goesOn, hfollowed, Option.getD_none, Bool.and_eq_true, Bool.not_eq_true',
    List.isEmpty_eq_false_iff, ← List.length_pos_iff, decide_eq_true_eq, hlength]
  omega

variable {dispatch : Dispatcher σ} {read : Json → Option α} {resource : String}
  {o : RequestOptions}

/-- Pages within the cap are cut as a server without a cap would cut them. -/
theorem walk_collects_within_cap (hcap : 0 < cap) (h : Caps dispatch read resource o L cap)
    (hsize : pageSize o ≤ cap) (hoffset : 0 ≤ offset) {n : Nat}
    (enough : (L.drop offset.toNat).length < n) (s : σ) :
    ∃ s', walk dispatch read resource o n offset s = (some (.ok (L.drop offset.toNat)), s') := by
  have hlength : (L.length : Int) < max offset L.length + 1 := by omega
  have hbound : offset < max offset L.length + 1 := by omega
  refine walk_collects_of_pages hlength (fun s offset hoffset _ => ?_) hoffset hbound enough s
  have hpos := pageSize_pos o
  obtain ⟨v, p, hreply, hread, hpage⟩ := h s offset (pageSize o) hoffset hpos
  refine ⟨p, _, send_of_decode hreply hread, ?_, fun hstop => ?_⟩
  · rw [hpage.items]
    exact List.take_prefix _ _
  · have hfew : ¬pageSize o ≤ min cap (L.drop offset.toNat).length := by
      rw [← goesOn_of_isCappedPageOf hpage hcap hpos, hstop]
      decide
    rw [hpage.items, List.take_of_length_le]
    omega

/-- A page that the server cut is shorter than what was asked for, which ends the walk. -/
theorem walk_stops_beyond_cap (hcap : 0 < cap) (h : Caps dispatch read resource o L cap)
    (hsize : cap < pageSize o) (hoffset : 0 ≤ offset) (n : Nat) (s : σ) :
    ∃ s', walk dispatch read resource o (n + 1) offset s =
      (some (.ok ((L.drop offset.toNat).take cap)), s') := by
  have hpos := pageSize_pos o
  obtain ⟨v, p, hreply, hread, hpage⟩ := h s offset (pageSize o) hoffset hpos
  have hstop : goesOn (pageSize o) offset p = false := by
    rw [Bool.eq_false_iff, ne_eq, goesOn_of_isCappedPageOf hpage hcap hpos]
    omega
  have hitems : p.items = (L.drop offset.toNat).take cap := by
    rw [hpage.items, Int.min_eq_right (Int.le_of_lt hsize), Int.toNat_natCast]
  rw [← hitems]
  exact ⟨_, walk_of_stops (send_of_decode hreply hread) hstop⟩

/-- Everything is collected from a server with a cap if no more is asked for at a time; else the
records beyond the first page are missing, and nothing tells. -/
theorem listAll_of_caps (criteria : Option Criteria) (options : Option RequestOptions)
    (hcap : 0 < cap) (h : Caps dispatch read resource (Compose.merge criteria options) L cap)
    (s : σ) (requests : Nat) (enough : (L.drop (firstAsked options)).length < requests) :
    (listAll dispatch read resource criteria options requests s).1 =
      some (.ok (if askedSize options ≤ cap then L.drop (firstAsked options)
        else (L.drop (firstAsked options)).take cap)) := by
  have hoffset : 0 ≤ startOffset (Compose.merge criteria options) := by
    rw [startOffset]
    omega
  rw [← startOffset_merge criteria options] at enough ⊢
  rw [← pageSize_merge criteria options, listAll]
  split
  · rename_i hsize
    obtain ⟨s', hwalk⟩ := walk_collects_within_cap hcap h hsize hoffset enough s
    rw [hwalk]
  · rename_i hsize
    obtain ⟨n, rfl⟩ := Nat.exists_eq_add_one.2 (Nat.zero_lt_of_lt enough)
    obtain ⟨s', hwalk⟩ := walk_stops_beyond_cap hcap h (Int.not_le.1 hsize) hoffset n s
    rw [hwalk]

/-! ### A server of three records -/

/-- The envelope of the records of a page, with a limit. -/
def limitedPage (items : List Json) (limit : Nat) : Json :=
  .object [("items", .array items), ("limit", .int limit)]

/-- Of three records, those that a request asks for, at most so many. -/
def capped (cap : Nat) : Dispatcher Unit := fun _ r =>
  let limit := min (askedNumber "limit" r) cap
  (.ok (limitedPage ((three.drop (askedNumber "offset" r)).take limit) limit), ())

/-- The envelope with a limit is read as the page with these items. -/
theorem ofJson?_limitedPage (items : List Json) {limit : Nat} (h : limit < 0x8000000000000000) :
    Page.ofJson? some (limitedPage items limit) =
      some ⟨items, none, none, some (Int64.ofInt limit), none, none, none⟩ := by
  have hitems : items.mapM some = some items := by
    simpa using List.mapM_pure (m := Option) (f := id) (l := items)
  have hlimit : Page.signed? (.int limit) = some (Int64.ofInt limit) := by
    rw [Page.signed?, Json.asInt64?, if_pos (by omega)]
    rfl
  simp [limitedPage, Page.ofJson?, Json.record?, Page.members, Json.member?, Json.optionalMember?,
    Page.items?, hitems, Ordered.get?, hlimit]

/-- The server cuts its pages at the cap, whatever it is asked for. -/
theorem caps_capped {cap : Nat} (hcap : cap < 0x8000000000000000) :
    Caps (capped cap) some "/items" fromSecond three cap := by
  intro s offset limit hoffset hlimit
  obtain ⟨m, rfl⟩ := Int.eq_ofNat_of_zero_le hoffset
  obtain ⟨n, rfl⟩ := Int.eq_ofNat_of_zero_le (Int.le_of_lt hlimit)
  obtain ⟨hm, hn⟩ := askedNumber_asking m n
  have hword : min n cap < 0x8000000000000000 := by omega
  refine ⟨_, ⟨(three.drop m).take (min n cap), none, none, some (Int64.ofInt (min n cap : Nat)),
    none, none, none⟩, rfl, ?_, ?_⟩
  · rw [hm, hn]
    exact ofJson?_limitedPage _ hword
  · have hmin : min (n : Int) cap = (min n cap : Nat) := by omega
    refine ⟨?_, ?_, rfl, rfl, rfl, rfl⟩
    · rw [hmin, Int.toNat_natCast, Int.toNat_natCast]
    · rw [hmin, Option.map_some, Int64.toInt_ofInt_of_le (by omega) (by omega)]

/-- Asked for two records at a time, a server that sends two gives both that remain. -/
theorem capped_at_two_gives_all :
    0 < 2 ∧ Caps (capped 2) some "/items" (Compose.merge none (some fromSecond)) three 2 ∧
      (three.drop (firstAsked (some fromSecond))).length < 3 ∧
      (listAll (capped 2) some "/items" none (some fromSecond) 3 ()).1 =
        some (.ok [.int 2, .int 3]) := by
  have hserver : Caps (capped 2) some "/items" fromSecond three 2 := caps_capped (by decide)
  have henough : (three.drop (firstAsked (some fromSecond))).length < 3 := by decide
  exact ⟨by decide, hserver, henough,
    listAll_of_caps none (some fromSecond) (by decide) hserver () 3 henough⟩

/-- A server that sends one record at a time is not asked for the second one that remains. -/
theorem capped_at_one_loses_last :
    0 < 1 ∧ Caps (capped 1) some "/items" (Compose.merge none (some fromSecond)) three 1 ∧
      three.drop (firstAsked (some fromSecond)) = [.int 2, .int 3] ∧
      (listAll (capped 1) some "/items" none (some fromSecond) 3 ()).1 =
        some (.ok [.int 2]) := by
  have hserver : Caps (capped 1) some "/items" fromSecond three 1 := caps_capped (by decide)
  have hoffset : 0 ≤ startOffset (Compose.merge none (some fromSecond)) := by decide
  obtain ⟨s', hwalk⟩ := walk_stops_beyond_cap (by decide) hserver (by decide) hoffset 2 ()
  refine ⟨by decide, hserver, rfl, ?_⟩
  rw [listAll]
  exact congrArg Prod.fst hwalk

end ResourceApi.Collection
