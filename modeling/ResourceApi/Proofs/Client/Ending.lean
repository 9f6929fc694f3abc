import ResourceApi.Proofs.Client.Answers

/-!
Operations come to an end over every dispatcher that has only so many pages left: each page that it
gives leaves it fewer. A walk then has a result, which does not depend on the number of requests
that it may send as soon as this number is larger.
-/

namespace ResourceApi

variable {σ α : Type}

namespace Collection

/-- Every page that answers a request lowers a number. -/
def Exhausts (dispatch : Dispatcher σ) (read : Json → Option α) (left : σ → Nat) : Prop :=
  ∀ s r p s', send dispatch (Page.ofJson? read) r s = (.ok p, s') → left s' < left s

variable {dispatch : Dispatcher σ} {read : Json → Option α} {left : σ → Nat}

/-- A walk whose pages use something up ends, and more requests would not change how. -/
theorem exists_walk (h : Exhausts dispatch read left) (resource : String) (o : RequestOptions)
    {k : Nat} {s : σ} (hk : left s ≤ k) (offset : Int) :
    ∃ result s', ∀ n, k < n →
      walk dispatch read resource o n offset s = (some result, s') := by
  induction k generalizing s offset with
  | zero =>
    rcases hsend : send dispatch (Page.ofJson? read) (pageRequest resource o offset) s with
      ⟨e | p, s₁⟩
    · refine ⟨.error e, s₁, fun n hn => ?_⟩
      obtain ⟨m, rfl⟩ := Nat.exists_eq_succ_of_ne_zero (Nat.ne_of_gt hn)
      rw [walk, hsend]
    · have hlower := h _ _ _ _ hsend
      omega
  | succ k ih =>
    rcases hsend : send dispatch (Page.ofJson? read) (pageRequest resource o offset) s with
      ⟨e | p, s₁⟩
    · refine ⟨.error e, s₁, fun n hn => ?_⟩
      obtain ⟨m, rfl⟩ := Nat.exists_eq_succ_of_ne_zero (Nat.ne_zero_of_lt hn)
      rw [walk, hsend]
    · have hlower := h _ _ _ _ hsend
      cases hmore : goesOn (pageSize o) offset p with
      | false =>
        refine ⟨.ok p.items, s₁, fun n hn => ?_⟩
        obtain ⟨m, rfl⟩ := Nat.exists_eq_succ_of_ne_zero (Nat.ne_zero_of_lt hn)
        exact walk_of_stops hsend hmore
      | true =>
        obtain ⟨result, s₂, hrest⟩ := ih (s := s₁) (by omega) (offset + p.items.length)
        refine ⟨result.map fun l => p.items ++ l, s₂, fun n hn => ?_⟩
        obtain ⟨m, rfl⟩ := Nat.exists_eq_succ_of_ne_zero (Nat.ne_zero_of_lt hn)
        rw [walk_succ_of_goesOn hsend hmore, hrest m (Nat.lt_of_succ_lt_succ hn)]
        rfl

end Collection

/-- An operation has one result, however many requests more than needed it may send. -/
theorem Operation.exists_run {dispatch : Dispatcher σ} {read : Json → Option α} {left : σ → Nat}
    (h : Collection.Exhausts dispatch read left) (print : α → Json) (resource : String)
    (op : Operation) (s : σ) :
    ∃ result s', ∀ n, left s < n →
      op.run dispatch read print resource n s = (some result, s') := by
  cases op with
  | call c => exact ⟨_, _, fun n _ => run_call dispatch read print resource n c s⟩
  | listAll criteria options =>
    obtain ⟨result, s', hwalk⟩ := Collection.exists_walk h resource
      (Compose.merge criteria options) (Nat.le_refl (left s))
      (Collection.startOffset (Compose.merge criteria options))
    refine ⟨result.map fun items => .array (items.map print), s', fun n hn => ?_⟩
    rw [run, Collection.listAll, hwalk n hn]
    rfl

end ResourceApi
