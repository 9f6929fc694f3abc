import ResourceApi.Proofs.Client.Paging

/-!
The walk over all pages of a server that may answer anything. Its replies are a script, whose pages
need not agree with each other; the paging rule alone says after which of them the walk goes on, and
so where each request begins and what the walk ends with.
-/

namespace ResourceApi.Collection

variable {α : Type}

/-! ### The rule -/

/-- The limit that options ask for, if it is positive, else a hundred. -/
def askedSize (options : Option RequestOptions) : Int :=
  ((options.bind RequestOptions.limit).filter (0 < ·)).getD 100

/-- The request for the page at an offset: the composed options, with this offset and the limit
that is asked for. -/
def requestAt (resource : String) (criteria : Option Criteria) (options : Option RequestOptions)
    (offset : Nat) : Request :=
  asking resource (Compose.merge criteria options) offset (askedSize options)

/-- Whether the walk goes on after a page that was asked for at an offset, in pages of a size. The
sum is one of unbounded numbers. -/
def HasNext (size : Int) (offset : Nat) (p : Page α) : Prop :=
  p.items ≠ [] ∧
    match p.totalCount, p.next with
    | some total, _ =>
      max 0 ((p.offset.map Int64.toInt).getD offset) + p.items.length < (total.toNat : Int)
    | none, some _ => True
    | none, none => (p.items.length : Int) = size

def itemsOf (pages : List (Page α)) : List α := pages.flatMap Page.items

/-- Where the request begins that follows some pages. -/
def offsetAfter (start : Nat) (pages : List (Page α)) : Nat := start + (itemsOf pages).length

/-- What a script answers to the request in a place, read as a page; null, when none is left. -/
def received (read : Json → Option α) (replies : List Reply) (k : Nat) (r : Request) :
    Except Failure (Page α) :=
  decode (Page.ofJson? read) r (replies.getD k (.ok .null))

/-- A run of at most `n` requests from an offset on: the pages after which it goes on, and the page
or the failure that ends it, unless more requests would be needed. -/
structure IsRun (read : Json → Option α) (ask : Nat → Request) (size : Int) (replies : List Reply)
    (start n : Nat) (pages : List (Page α)) (last : Option (Except Failure (Page α))) : Prop where
  goesOn : ∀ k (h : k < pages.length),
    received read replies k (ask (offsetAfter start (pages.take k))) = .ok pages[k] ∧
      HasNext size (offsetAfter start (pages.take k)) pages[k]
  ends : ∀ x ∈ last, pages.length < n ∧
    received read replies pages.length (ask (offsetAfter start pages)) = x ∧
      ∀ p, x = .ok p → ¬HasNext size (offsetAfter start pages) p
  cut : last = none → pages.length = n

def offsets (start : Nat) (pages : List (Page α)) (last : Option (Except Failure (Page α))) :
    List Nat :=
  (List.range (pages.length + last.toList.length)).map fun k => offsetAfter start (pages.take k)

/-- What a run comes to: all items of all its pages, or the failure. -/
def outcome (pages : List (Page α)) (last : Option (Except Failure (Page α))) :
    Option (Except Failure (List α)) :=
  last.map fun x => x.map fun p => itemsOf (pages ++ [p])

/-- The test on words agrees with the rule on unbounded numbers. -/
theorem goesOn_iff (size : Int) (offset : Nat) (p : Page α) :
    goesOn size offset p = true ↔ HasNext size offset p := by
  rw [goesOn, HasNext, Bool.and_eq_true, Bool.not_eq_true', List.isEmpty_eq_false_iff]
  refine and_congr_right fun _ => ?_
  cases htotal : p.totalCount with
  | some total => simp [Page.isFollowed, htotal, Page.reached_lt_iff]
  | none => cases hnext : p.next <;> simp [Page.isFollowed, htotal, hnext]

/-- Criteria do not change the size of the pages that are asked for. -/
theorem pageSize_merge (criteria : Option Criteria) (options : Option RequestOptions) :
    pageSize (Compose.merge criteria options) = askedSize options := by
  rw [pageSize, limit_merge, askedSize]
  cases options.bind RequestOptions.limit with
  | none => rfl
  | some n =>
    by_cases hn : 0 < n
    · simp [Option.filter_some, hn]
    · simp [Option.filter_some, hn, defaultPageSize]

/-! ### A page in front of a run -/

@[simp] theorem itemsOf_nil : itemsOf ([] : List (Page α)) = [] := rfl

@[simp] theorem itemsOf_cons (p : Page α) (pages : List (Page α)) :
    itemsOf (p :: pages) = p.items ++ itemsOf pages := rfl

@[simp] theorem offsetAfter_nil (start : Nat) :
    offsetAfter start ([] : List (Page α)) = start := rfl

/-- The run behind a page begins where the items of this page end. -/
@[simp] theorem offsetAfter_cons (start : Nat) (p : Page α) (pages : List (Page α)) :
    offsetAfter start (p :: pages) = offsetAfter (start + p.items.length) pages := by
  simp [offsetAfter, Nat.add_assoc]

theorem offsets_cons (start : Nat) (p : Page α) (pages : List (Page α))
    (last : Option (Except Failure (Page α))) :
    offsets start (p :: pages) last = start :: offsets (start + p.items.length) pages last := by
  have hlength : (p :: pages).length + last.toList.length =
      pages.length + last.toList.length + 1 := by
    rw [List.length_cons]
    omega
  rw [offsets, hlength, List.range_succ_eq_map, List.map_cons, List.map_map]
  simp [offsets, Function.comp_def]

theorem received_succ (read : Json → Option α) (replies : List Reply) (k : Nat) (r : Request) :
    received read replies (k + 1) r = received read replies.tail k r := by
  cases replies <;> simp [received]

section

variable {read : Json → Option α} {ask : Nat → Request} {size : Int} {replies : List Reply}
  {start n : Nat} {p : Page α} {pages : List (Page α)} {last : Option (Except Failure (Page α))}

/-- A page after which the walk goes on is put in front of a run. -/
theorem isRun_cons (hp : received read replies 0 (ask start) = .ok p)
    (hnext : HasNext size start p)
    (h : IsRun read ask size replies.tail (start + p.items.length) n pages last) :
    IsRun read ask size replies start (n + 1) (p :: pages) last where
  goesOn := by
    intro k hk
    cases k with
    | zero => simpa using ⟨hp, hnext⟩
    | succ k => simpa [received_succ] using h.goesOn k (by simpa using hk)
  ends := by
    intro x hx
    simpa [received_succ] using h.ends x hx
  cut := by
    intro hnone
    simpa using h.cut hnone

/-- A page or a failure after which nothing follows is a run of its own. -/
theorem isRun_last {x : Except Failure (Page α)} (hx : received read replies 0 (ask start) = x)
    (hlast : ∀ p, x = .ok p → ¬HasNext size start p) :
    IsRun read ask size replies start (n + 1) [] (some x) where
  goesOn := by simp
  ends := by simpa using ⟨hx, hlast⟩
  cut := by simp

/-- Behind its first page a run is again a run, of one request less. -/
theorem isRun_tail (h : IsRun read ask size replies start n (p :: pages) last) :
    (received read replies 0 (ask start) = .ok p ∧ HasNext size start p) ∧
      IsRun read ask size replies.tail (start + p.items.length) (n - 1) pages last where
  left := by
    have hzero : 0 < (p :: pages).length := by simp
    simpa using h.goesOn 0 hzero
  right := by
    refine ⟨?_, ?_, ?_⟩
    · intro k hk
      have hsucc : k + 1 < (p :: pages).length := by simpa using hk
      simpa [received_succ] using h.goesOn (k + 1) hsucc
    · intro x hx
      have hends := h.ends x hx
      simp only [List.length_cons, received_succ, offsetAfter_cons] at hends
      exact ⟨by omega, hends.2⟩
    · intro hnone
      have hcut := h.cut hnone
      simp only [List.length_cons] at hcut
      omega

theorem length_le (h : IsRun read ask size replies start n pages last) : pages.length ≤ n := by
  cases hlast : last with
  | none => exact Nat.le_of_eq (h.cut hlast)
  | some x => exact Nat.le_of_lt (h.ends x hlast).1

variable {pages' : List (Page α)} {last' : Option (Except Failure (Page α))}

theorem not_isRun_cons (h : IsRun read ask size replies start n [] last) :
    ¬IsRun read ask size replies start n (p :: pages) last' := by
  intro h'
  obtain ⟨⟨hp, hnext⟩, -⟩ := isRun_tail h'
  have hpos : 0 < n := Nat.lt_of_lt_of_le (by simp) (length_le h')
  cases hlast : last with
  | none =>
    have hcut : 0 = n := h.cut hlast
    omega
  | some x =>
    obtain ⟨-, hx, hends⟩ := h.ends x hlast
    exact hends p (hx.symm.trans hp) hnext

/-- Two runs that consist of their last answer only have the same answer. -/
theorem last_unique (h : IsRun read ask size replies start n [] last)
    (h' : IsRun read ask size replies start n [] last') : last' = last := by
  cases last with
  | none =>
    cases last' with
    | none => rfl
    | some x' =>
      have hcut : 0 = n := h.cut rfl
      have hpos : 0 < n := (h'.ends x' rfl).1
      omega
  | some x =>
    cases last' with
    | none =>
      have hcut : 0 = n := h'.cut rfl
      have hpos : 0 < n := (h.ends x rfl).1
      omega
    | some x' =>
      obtain ⟨-, hx, -⟩ := h.ends x rfl
      obtain ⟨-, hx', -⟩ := h'.ends x' rfl
      exact congrArg some (hx'.symm.trans hx)

/-- The rule leaves no choice: a script has one run at most. -/
theorem isRun_unique (h : IsRun read ask size replies start n pages last)
    (h' : IsRun read ask size replies start n pages' last') : pages' = pages ∧ last' = last := by
  induction pages generalizing replies start n pages' with
  | nil =>
    cases pages' with
    | nil => exact ⟨rfl, last_unique h h'⟩
    | cons p' pages' => exact absurd h' (not_isRun_cons h)
  | cons p pages ih =>
    cases pages' with
    | nil => exact absurd h (not_isRun_cons h')
    | cons p' pages' =>
      obtain ⟨⟨hp, -⟩, htail⟩ := isRun_tail h
      obtain ⟨⟨hp', -⟩, htail'⟩ := isRun_tail h'
      obtain rfl : p' = p := Except.ok.inj (hp'.symm.trans hp)
      obtain ⟨rfl, rfl⟩ := ih htail htail'
      exact ⟨rfl, rfl⟩

/-- No request begins in front of the start of its run. -/
theorem le_of_mem_offsets {k : Nat} (h : k ∈ offsets start pages last) : start ≤ k := by
  obtain ⟨i, -, rfl⟩ := List.mem_map.1 h
  exact Nat.le_add_right _ _

/-- Every page that is continued has an item, so each request begins behind the one before. -/
theorem offsets_ascending (h : IsRun read ask size replies start n pages last) :
    (offsets start pages last).Pairwise (· < ·) := by
  induction pages generalizing replies start n with
  | nil => cases last <;> simp [offsets]
  | cons p pages ih =>
    obtain ⟨⟨-, hitems, -⟩, htail⟩ := isRun_tail h
    have hpos : 0 < p.items.length := List.length_pos_iff.2 hitems
    rw [offsets_cons, List.pairwise_cons]
    refine ⟨fun k hk => ?_, ih htail⟩
    have hle := le_of_mem_offsets hk
    omega

/-- With a request for each reply and one more, a run has an end, because null is no page. -/
theorem last_ne_none (h : IsRun read ask size replies start n pages last)
    (enough : replies.length < n) : last ≠ none := by
  intro hnone
  have hlength : replies.length < pages.length := by
    rw [h.cut hnone]
    exact enough
  have hnull := (h.goesOn replies.length hlength).1
  have hread : Page.ofJson? read .null = none := rfl
  simp [received, decode, hread] at hnull

end

/-! ### The walk -/

theorem answer_eq (replies : List Reply) (sent : List Request) (r : Request) :
    Script.answer ⟨replies, sent⟩ r =
      (replies.getD 0 (.ok .null), ⟨replies.tail, sent ++ [r]⟩) := by
  cases replies <;> rfl

/-- A script answers a request for a page with the next reply, and keeps the request. -/
theorem send_answer (read : Json → Option α) (replies : List Reply) (sent : List Request)
    (r : Request) : send Script.answer (Page.ofJson? read) r ⟨replies, sent⟩ =
      (received read replies 0 r, ⟨replies.tail, sent ++ [r]⟩) := by
  rw [send, answer_eq]
  rfl

/-- The items of a first page come before whatever the rest of a run gives. -/
theorem outcome_cons (p : Page α) (pages : List (Page α))
    (last : Option (Except Failure (Page α))) :
    outcome (p :: pages) last = (outcome pages last).map fun x => x.map fun l => p.items ++ l := by
  rcases last with _ | _ | q <;> rfl

theorem walk_succ_of_goesOn {σ : Type} {dispatch : Dispatcher σ} {read : Json → Option α}
    {resource : String} {o : RequestOptions} {offset : Int} {n : Nat} {s s₁ : σ} {p : Page α}
    (hsend : send dispatch (Page.ofJson? read) (pageRequest resource o offset) s = (.ok p, s₁))
    (hmore : goesOn (pageSize o) offset p = true) :
    walk dispatch read resource o (n + 1) offset s =
      ((walk dispatch read resource o n (offset + p.items.length) s₁).1.map fun x =>
          x.map fun l => p.items ++ l,
        (walk dispatch read resource o n (offset + p.items.length) s₁).2) := by
  rw [walk, hsend]
  simp only [hmore, if_true]
  generalize walk dispatch read resource o n (offset + p.items.length) s₁ = w
  obtain ⟨_ | _ | rest, s₂⟩ := w <;> rfl

theorem offsets_nil (start : Nat) (x : Except Failure (Page α)) :
    offsets start [] (some x) = [start] := by
  simp [offsets]

/-- The walk finds the run of a script: it sends its requests and gives what it comes to. -/
theorem exists_run (read : Json → Option α) {resource : String} {o : RequestOptions}
    {ask : Nat → Request} (hask : ∀ k : Nat, pageRequest resource o k = ask k) (n start : Nat)
    (replies : List Reply) (sent : List Request) :
    ∃ pages last, IsRun read ask (pageSize o) replies start n pages last ∧
      walk Script.answer read resource o n start ⟨replies, sent⟩ =
        (outcome pages last, ⟨replies.drop (offsets start pages last).length,
          sent ++ (offsets start pages last).map ask⟩) := by
  induction n generalizing start replies sent with
  | zero =>
    refine ⟨[], none, ⟨by simp, by simp, by simp⟩, ?_⟩
    simp [walk, outcome, offsets]
  | succ n ih =>
    have hsend := send_answer read replies sent (pageRequest resource o start)
    rw [hask] at hsend
    cases hreply : received read replies 0 (ask start) with
    | error e =>
      refine ⟨[], some (.error e), isRun_last hreply (by simp), ?_⟩
      rw [walk, hask, hsend, hreply, offsets_nil, List.length_singleton, List.drop_one]
      rfl
    | ok p =>
      rw [hreply, ← hask] at hsend
      cases hmore : goesOn (pageSize o) start p with
      | false =>
        have hlast : ¬HasNext (pageSize o) start p := by
          rw [← goesOn_iff, hmore]
          decide
        refine ⟨[], some (.ok p), isRun_last hreply (by simpa using hlast), ?_⟩
        rw [walk_of_stops hsend hmore, offsets_nil, List.length_singleton, List.drop_one, hask]
        simp [outcome, Except.map]
      | true =>
        have hnext : HasNext (pageSize o) start p := (goesOn_iff _ _ p).1 hmore
        obtain ⟨pages, last, hrun, hwalk⟩ := ih (start + p.items.length) replies.tail
          (sent ++ [pageRequest resource o start])
        refine ⟨p :: pages, last, isRun_cons hreply hnext hrun, ?_⟩
        rw [Int.natCast_add] at hwalk
        rw [walk_succ_of_goesOn hsend hmore, hwalk, outcome_cons, offsets_cons]
        simp [hask]

/-- The paging rule determines one run over any script of replies, in which no offset is asked for
twice and which has an end. As long as every request of the run begins at an offset that a signed
word can hold, it is what the walk does: which requests it sends, what it gives, and how many
replies it takes. -/
theorem listAll_follows_paging_rule (read : Json → Option α) (resource : String)
    (criteria : Option Criteria) (options : Option RequestOptions) (replies : List Reply)
    (requests : Nat) :
    ∃ pages last,
      IsRun read (requestAt resource criteria options) (askedSize options) replies
          (firstAsked options) requests pages last ∧
        (∀ pages' last', IsRun read (requestAt resource criteria options) (askedSize options)
          replies (firstAsked options) requests pages' last' → pages' = pages ∧ last' = last) ∧
        ((∀ k ∈ offsets (firstAsked options) pages last, k < 0x8000000000000000) →
          listAll Script.answer read resource criteria options requests (Script.start replies) =
            (outcome pages last, ⟨replies.drop (offsets (firstAsked options) pages last).length,
              (offsets (firstAsked options) pages last).map
                (requestAt resource criteria options)⟩)) ∧
        (offsets (firstAsked options) pages last).Pairwise (· < ·) ∧
        (replies.length < requests → last ≠ none) := by
  have hstart : startOffset (Compose.merge criteria options) = (firstAsked options : Int) := by
    have hnonneg : 0 ≤ startOffset (Compose.merge criteria options) := by
      rw [startOffset]
      omega
    rw [← startOffset_merge criteria options, Int.toNat_of_nonneg hnonneg]
  have hask (k : Nat) : pageRequest resource (Compose.merge criteria options) k =
      requestAt resource criteria options k := by
    rw [requestAt, ← pageSize_merge criteria options]
    rfl
  obtain ⟨pages, last, hrun, hwalk⟩ := exists_run read hask requests (firstAsked options) replies []
  rw [pageSize_merge] at hrun
  refine ⟨pages, last, hrun, fun _ _ h' => isRun_unique hrun h', fun _ => ?_,
    offsets_ascending hrun, last_ne_none hrun⟩
  rw [listAll, hstart]
  exact hwalk

/-- A page that counts far more than there is and echoes an offset below zero. -/
def boasting : Page Json :=
  ⟨[.int 1, .int 2], some 0xFFFFFFFFFFFFFFFF, some (-7), none, none, none, none⟩

def linked : Page Json := ⟨[.int 3], none, none, none, none, some (.url "more"), none⟩

/-- A page without a sign, which is not full. -/
def short : Page Json := ⟨[.int 4], none, none, none, none, none, none⟩

def belowZero : RequestOptions :=
  { RequestOptions.default with limit := some (-1), offset := some (-3) }

def contrary : List Reply := [boasting, linked, short].map fun p => .ok (p.toJson id)

/-- These replies are a run of three requests by the rule. -/
theorem isRun_contrary (criteria : Option Criteria) :
    IsRun some (requestAt "/items" criteria (some belowZero)) (askedSize (some belowZero)) contrary
      (firstAsked (some belowZero)) 4 [boasting, linked] (some (.ok short)) := by
  have hread (p : Page Json) : Page.ofJson? some (p.toJson id) = some p :=
    Page.ofJson?_toJson fun _ _ => rfl
  have hreceived (p : Page Json) (replies : List Reply) (r : Request) :
      received some (.ok (p.toJson id) :: replies) 0 r = .ok p := by
    simp [received, decode, hread]
  have hfirst : HasNext (askedSize (some belowZero)) (firstAsked (some belowZero)) boasting := by
    rw [← goesOn_iff]
    decide
  have hlast : ¬HasNext (askedSize (some belowZero)) 3 short := by
    rw [← goesOn_iff]
    decide
  refine isRun_cons (hreceived ..) hfirst
    (isRun_cons (hreceived ..) ⟨by simp [linked], trivial⟩ (isRun_last (hreceived ..) ?_))
  intro p hp
  rw [← Except.ok.inj hp]
  exact hlast

/-- The walk follows these replies as the rule has it, with the request for a third page last. -/
theorem contrary_follows_paging_rule :
    listAll Script.answer some "/items" none (some belowZero) 4 (Script.start contrary) =
      (some (.ok [.int 1, .int 2, .int 3, .int 4]),
        ⟨[], [0, 2, 3].map (requestAt "/items" none (some belowZero))⟩) := by
  obtain ⟨pages, last, -, honly, hlist, -⟩ :=
    listAll_follows_paging_rule some "/items" none (some belowZero) contrary 4
  obtain ⟨rfl, rfl⟩ := honly [boasting, linked] (some (.ok short)) (isRun_contrary none)
  rw [hlist (by decide)]
  rfl

end ResourceApi.Collection
