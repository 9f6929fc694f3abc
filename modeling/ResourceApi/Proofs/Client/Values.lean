import ResourceApi.Proofs.Client.Answers
import ResourceApi.Proofs.Json.Printing
import ResourceApi.Proofs.Page.Printing

/-!
What is read from a text can be printed, and so can what operations make of it. A value that is read
has words for whole numbers, finite doubles and objects with each key once; its parts are again such
values, and a page or a list made of them adds only parts of these kinds.
-/

namespace ResourceApi

namespace Json

variable {double : Decimal.Binary64 → Prop}

/-! ### Values of texts -/

/-- All values in a phrase can be printed. -/
def Phrase.Fits (double : Decimal.Binary64 → Prop) (d : Nat) : Phrase → Prop
  | .value v | .item v => Json.Fits double d v
  | .items vs => ∀ v ∈ vs, Json.Fits double d v
  | .member m => Json.Fits double d m.2
  | .members ms => ∀ m ∈ ms, Json.Fits double d m.2

/-- A whole number is read only if a word holds it, signed or not. -/
theorem SpellsInt.bounds {t : List Char} {n : Int} (h : SpellsInt t n) :
    -0x8000000000000000 ≤ n ∧ n < 0x10000000000000000 := by
  cases h <;> omega

/-- Every member of an object was written in its text. -/
theorem mem_of_mem_ofPairs {ms : List (String × Json)} {m : String × Json}
    (h : m ∈ Ordered.ofPairs ms) : m ∈ ms := by
  have hget := Ordered.get?_of_mem (Ordered.nodup_keys_ofPairs ms) h
  rw [Ordered.get?_ofPairs, Ordered.last?, Option.map_eq_some_iff] at hget
  obtain ⟨p, hp, hvalue⟩ := hget
  obtain ⟨hmem, hkey⟩ := List.mem_filter.1 (List.mem_of_getLast? hp)
  have hkey' : p.1 = m.1 := by simpa using hkey
  obtain rfl : p = m := Prod.ext hkey' hvalue
  exact hmem

/-- What a text of the grammar spells can be printed, if the doubles can. -/
theorem Spells.fits {R : Decimal.Numeral → Decimal.Binary64 → Prop} {d : Nat} {p : Phrase}
    {t : List Char} (h : Spells R d p t) (hR : ∀ x y, R x y → double y) : p.Fits double d := by
  induction h with
  | null => exact .null
  | true => exact .bool Bool.true
  | false => exact .bool Bool.false
  | int h => exact .int h.bounds
  | double _ _ hy => exact .double (hR _ _ hy)
  | string _ => exact .string _
  | noItems _ => exact .array nofun
  | array _ ih => exact .array ih
  | noMembers _ => exact .object List.nodup_nil nofun
  | object _ ih =>
    exact .object (Ordered.nodup_keys_ofPairs _) fun m hm => ih m (mem_of_mem_ofPairs hm)
  | item _ _ _ ih => exact ih
  | lastItem _ ih => exact List.forall_mem_singleton.2 ih
  | moreItems _ _ ih ihs => exact List.forall_mem_cons.2 ⟨ih, ihs⟩
  | member _ _ _ _ ih => exact ih
  | lastMember _ ih => exact List.forall_mem_singleton.2 ih
  | moreMembers _ _ ih ihs => exact List.forall_mem_cons.2 ⟨ih, ihs⟩

/-- What is read can be printed. -/
theorem IsTextOf.fits {v : Json} {s : List Char} (h : IsTextOf v s) :
    Fits Decimal.Binary64.IsKept 127 v :=
  Spells.fits h fun _ _ hy => Decimal.Numeral.isKept_stepwise hy

/-! ### Parts of values -/

theorem fits_of_get? {ms : List (String × Json)} {d : Nat} {k : String} {v : Json}
    (h : ∀ m ∈ ms, Fits double d m.2) (hv : Ordered.get? k ms = some v) : Fits double d v :=
  h _ (Ordered.mem_of_get? hv)

/-- The members of a record are parts of its value. -/
theorem fits_of_record? {known : List String} {v : Json} {present : List (String × Json)} {d : Nat}
    (h : Fits double (d + 1) v) (hv : record? known v = some present) :
    ∀ m ∈ present, Fits double d m.2 := by
  cases h with
  | array h =>
    rw [record?] at hv
    split at hv
    · cases hv
      exact fun m hm => h m.2 (List.of_mem_zip hm).2
    · cases hv
  | object _ h =>
    rw [record?] at hv
    split at hv
    · cases hv
      exact fun m hm => h m (List.mem_of_mem_filter hm)
    · cases hv
  | null | bool | int | double | string => cases hv

end Json

/-! ### Pages -/

/-- A link is a text or an object of one. -/
theorem Link.fits_toJson {double : Decimal.Binary64 → Prop} {d : Nat} (l : Link) :
    Json.Fits double (d + 1) l.toJson := by
  cases l with
  | url s => exact .string s
  | object s => exact .object (by simp) (by simpa using Json.Fits.string s)

namespace Page

variable {double : Decimal.Binary64 → Prop} {d : Nat}

/-- The items of a page are parts of its value. -/
theorem fits_items {v : Json} {p : Page Json} (h : Json.Fits double (d + 2) v)
    (hv : ofJson? some v = some p) : ∀ x ∈ p.items, Json.Fits double d x := by
  simp only [ofJson?, Option.bind_eq_bind, Option.bind_eq_some_iff, Option.some.injEq] at hv
  obtain ⟨present, hpresent, items, hitems, _, -, _, -, _, -, _, -, _, -, _, -, rfl⟩ := hv
  obtain ⟨w, hw, hitems⟩ := Option.bind_eq_some_iff.1 hitems
  have hparts := Json.fits_of_get? (Json.fits_of_record? h hpresent) hw
  cases hparts with
  | array h =>
    rename_i vs
    have hsame : vs.mapM (some : Json → Option Json) = some vs := by
      simpa using List.mapM_pure (m := Option) (f := id) (l := vs)
    rw [items?, hsame] at hitems
    cases hitems
    exact h
  | null | bool | int | double | string | object => cases hitems

theorem fits_of_map {α : Type} {x : Option α} {write : α → Json} {v : Json}
    (h : x.map write = some v) (hwrite : ∀ a, Json.Fits double d (write a)) :
    Json.Fits double d v := by
  obtain ⟨a, -, rfl⟩ := Option.map_eq_some_iff.1 h
  exact hwrite a

/-- A page of items that can be printed can be printed. -/
theorem fits_toJson {p : Page Json} (h : ∀ x ∈ p.items, Json.Fits double d x) :
    Json.Fits double (d + 2) (p.toJson id) := by
  have hword (n : UInt64) : Json.Fits double (d + 1) (.int n.toNat) :=
    .int (by have := n.toNat_lt; omega)
  have hsigned (n : Int64) : Json.Fits double (d + 1) (.int n.toInt) :=
    .int (by have := n.le_toInt; have := n.toInt_lt; omega)
  rw [toJson_eq]
  refine .object ?_ fun m hm => ?_
  · have hkeys : (Ordered.keys (p.parts id)).Nodup := by
      rw [keys_parts]
      decide
    exact hkeys.sublist (Json.keys_present_sublist _)
  · obtain ⟨⟨k, v⟩, hpart, hm⟩ := List.mem_filterMap.1 hm
    obtain ⟨v, hv, rfl⟩ := Option.map_eq_some_iff.1 hm
    simp only [parts, List.mem_cons, List.not_mem_nil, or_false, Prod.mk.injEq] at hpart
    rcases hpart with ⟨-, rfl⟩ | ⟨-, rfl⟩ | ⟨-, rfl⟩ | ⟨-, rfl⟩ | ⟨-, rfl⟩ | ⟨-, rfl⟩ | ⟨-, rfl⟩
    · cases hv
      rw [List.map_id]
      exact .array h
    · exact fits_of_map hv hword
    · exact fits_of_map hv hsigned
    · exact fits_of_map hv hsigned
    · exact fits_of_map hv Link.fits_toJson
    · exact fits_of_map hv Link.fits_toJson
    · exact fits_of_map hv Link.fits_toJson

end Page

/-! ### Operations -/

section Operations

variable {σ : Type} {dispatch : Dispatcher σ} {resource : String}

/-- Only values that can be printed are answers. -/
def Printable (dispatch : Dispatcher σ) : Prop :=
  ∀ s r v s', dispatch s r = (.ok v, s') → Json.Fits Decimal.Binary64.IsKept 127 v

/-- What was read from an answer was a value first. -/
theorem Collection.exists_of_send {α : Type} {read : Json → Option α} {r : Request} {s s' : σ}
    {x : α} (h : Collection.send dispatch read r s = (.ok x, s')) :
    ∃ v, dispatch s r = (.ok v, s') ∧ read v = some x := by
  rcases hd : dispatch s r with ⟨reply, s₁⟩
  rw [Collection.send, hd] at h
  obtain ⟨hx, rfl⟩ := Prod.mk.inj h
  obtain ⟨v, rfl, hv⟩ := Collection.decode_eq_ok.1 hx
  exact ⟨v, rfl, hv⟩

/-- The items of a walk lie two levels inside the pages that were received. -/
theorem Collection.fits_walk (hp : Printable dispatch) {o : RequestOptions} {n : Nat} {offset : Int}
    {s s' : σ} {items : List Json}
    (h : Collection.walk dispatch some resource o n offset s = (some (.ok items), s')) :
    ∀ x ∈ items, Json.Fits Decimal.Binary64.IsKept 125 x := by
  induction n generalizing offset s items with
  | zero => cases h
  | succ n ih =>
    rw [walk] at h
    split at h
    · cases h
    · rename_i p s₁ hsend
      obtain ⟨v, hv, hpage⟩ := exists_of_send hsend
      have hitems := Page.fits_items (hp _ _ _ _ hv) hpage
      split at h
      · split at h
        · rename_i rest s₂ hrest
          cases h
          exact List.forall_mem_append.2 ⟨hitems, ih hrest⟩
        · rename_i hother
          exact absurd h (hother _ _)
      · cases h
        exact hitems

/-- What a single call gives for a value that can be printed can be printed. -/
theorem Operation.fits_value? {c : Call} {w v : Json}
    (hw : Json.Fits Decimal.Binary64.IsKept 127 w)
    (h : (Operation.call c).value? some id [w] = some v) :
    Json.Fits Decimal.Binary64.IsKept 127 v := by
  cases c with
  | list criteria options =>
    obtain ⟨p, hp, rfl⟩ := Option.map_eq_some_iff.1 h
    exact Page.fits_toJson (Page.fits_items hw hp)
  | delete id =>
    cases h
    exact .null
  | get | create | update | patch | actionGet | actionPost =>
    cases h
    exact hw

/-- Whatever operation is run over answers that can be printed, its value can be printed. -/
theorem Operation.fits_run (hp : Printable dispatch) {o : Operation} {requests : Nat} {s s' : σ}
    {v : Json} (h : o.run dispatch some id resource requests s = (some (.ok v), s')) :
    Json.Fits Decimal.Binary64.IsKept 127 v := by
  cases o with
  | call c =>
    rw [run_call] at h
    have hvalue := Option.some.inj (Prod.mk.inj h).1
    obtain ⟨w, hw, hv⟩ := Collection.decode_eq_ok.1 hvalue
    exact fits_value? (hp _ _ _ _ (Prod.ext hw rfl)) hv
  | listAll criteria options =>
    rw [run, Collection.listAll] at h
    rcases hwalk : Collection.walk dispatch some resource (Compose.merge criteria options) requests
      (Collection.startOffset (Compose.merge criteria options)) s with ⟨_ | _ | items, s₁⟩
    · simp [hwalk] at h
    · simp [hwalk, Except.map] at h
    · have hitems := Collection.fits_walk hp hwalk
      have hv : Json.array items = v := by simpa [hwalk, Except.map] using (Prod.mk.inj h).1
      rw [← hv]
      exact .array fun x hx => (hitems x hx).mono (by decide) fun _ hy => hy

end Operations

end ResourceApi
