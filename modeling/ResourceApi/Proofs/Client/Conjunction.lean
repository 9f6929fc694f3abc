import Mathlib.Data.List.TakeWhile
import ResourceApi.Proofs.Client.Grouping
import ResourceApi.Proofs.Filter.Meaning
import ResourceApi.Proofs.Text.Trim

/-!
Composed options ask for both: what their own filter asks for and what the criteria demand. The old
filter may be any expression, with alternatives at its top; it comes back as one part of the
conjunction, and so does every part of a chain.
-/

namespace ResourceApi.Compose

open ResourceApi.Filter Text

/-- What an optional filter text asks for: nothing, if it is absent or blank. A text that is no
filter has no reading. -/
def asked? : Option String → Option (Option Expression)
  | none => some none
  | some q => if trim q.toList = [] then some none else (read? (trim q.toList)).map some

def both : Option Expression → Option Expression → Option Expression
  | none, b => b
  | some a, none => some a
  | some a, some b => some (.and a b)

def compiled? (c : Criteria) : Option Expression := (compile c).bind fun s => read? s.toList

/-- Criteria composed with options one after the other. -/
def mergeAll (o : RequestOptions) (cs : List Criteria) : RequestOptions :=
  cs.foldl (fun o c => merge (some c) (some o)) o

/-- Composed options, by what became of the filter and of everything else. -/
structure IsComposed (criteria : Option Criteria) (o m : RequestOptions) : Prop where
  conjunction : ∀ filter q e, criteria.bind compile = some filter → o.filter = some q →
    read? (trim q.toList) = some e → ∃ f q', read? filter.toList = some f ∧
      m.filter = some q' ∧ read? q'.toList = some (.and e f)
  alone : ∀ filter, criteria.bind compile = some filter →
    (∀ q ∈ o.filter, trim q.toList = []) → m.filter = some filter
  untouched : criteria.bind compile = none → m.filter = o.filter
  others : { m with filter := o.filter } = o

/-! ### Blank texts -/

/-- Blanks around a filter do not change its reading. -/
theorem read?_trim (s : List Char) : read? (trim s) = read? s := by
  rw [read?, read?, tokens?_trim]

theorem spells_trim {l : Level} {s : List Char} {e : Expression} (h : Spells l s e) :
    Spells l (trim s) e := by
  obtain ⟨ts, hts, hd⟩ := h
  exact ⟨ts, (tokens?_trim s).trans hts, hd⟩

theorem trim_ne_nil {l : Level} {s : List Char} {e : Expression} (h : Spells l s e) :
    trim s ≠ [] := (spells_trim h).ne_nil

/-- A text that is a filter is not blank. -/
theorem not_blank {l : Level} {s : List Char} {e : Expression} (h : Spells l s e) :
    s.all isBlank = false := by
  cases hb : s.all isBlank with
  | false => rfl
  | true => exact absurd (trim_eq_nil_iff.2 hb) (trim_ne_nil h)

/-! ### One step -/

/-- A filter of any shape is enclosed in one part of a conjunction. -/
theorem spells_enclose {q : List Char} {e : Expression} (h : Spells .disjunction q e) :
    Spells .primary (enclose q) e := by
  have ht := spells_trim h
  have hne : (trim q).isEmpty = false := by simpa using ht.ne_nil
  rw [enclose]
  cases hs : isEnclosed (trim q) with
  | true => simpa [hne] using spells_of_isEnclosed ht hs
  | false => simpa [hne] using ht.group

/-- Two filters that are not blank are joined by an `and`. -/
theorem join_pair {q f : String} (hq : q.toList.all isBlank = false)
    (hf : f.toList.all isBlank = false) :
    join [q, f] = some (String.ofList (q.toList ++ andWord ++ f.toList)) := by
  simp [join, hq, hf, joinWith, List.intercalate_cons_cons]

theorem join_blank {q f : String} (hq : q.toList = []) (hf : f.toList.all isBlank = false) :
    join [q, f] = some f := by
  simp [join, hq, hf, joinWith]

theorem join_single {f : String} (hf : f.toList.all isBlank = false) : join [f] = some f := by
  simp [join, hf, joinWith]

/-- Criteria that compile to nothing leave the options as they were. -/
theorem merge_of_none {criteria : Option Criteria} (o : RequestOptions)
    (h : criteria.bind compile = none) : merge criteria (some o) = o := by
  simp [merge, h]

/-- Criteria that compile to a filter are joined behind the filter that was there, which is
enclosed. -/
theorem filter_merge {criteria : Option Criteria} (o : RequestOptions) {filter : String}
    (h : criteria.bind compile = some filter) : (merge criteria (some o)).filter =
      join ((o.filter.map fun q => String.ofList (enclose q.toList)).toList ++ [filter]) := by
  simp [merge, h]

/-- Composing changes nothing but the filter. -/
theorem merge_others (criteria : Option Criteria) (o : RequestOptions) :
    { merge criteria (some o) with filter := o.filter } = o := by
  cases h : criteria.bind compile with
  | none => rw [merge_of_none o h]
  | some filter => simp [merge, h]

/-- Compiled criteria are a conjunction of the grammar. -/
theorem spells_compile? {criteria : Option Criteria} (hcol : ∀ c ∈ criteria, c.HasWordColumns)
    {filter : String} (h : criteria.bind compile = some filter) :
    ∃ f, Spells .conjunction filter.toList f := by
  obtain ⟨c, hc, htext⟩ := Option.bind_eq_some_iff.1 h
  obtain ⟨k, more, -, hspells⟩ := spells_compile (hcol c hc) htext
  exact ⟨_, hspells⟩

/-- What one step of composing does to what a filter asks for, and to the rest. -/
theorem isComposed_merge {criteria : Option Criteria} (hcol : ∀ c ∈ criteria, c.HasWordColumns)
    (o : RequestOptions) : IsComposed criteria o (merge criteria (some o)) where
  conjunction := by
    intro filter q e hcompile hq hread
    obtain ⟨f, hf⟩ := spells_compile? hcol hcompile
    rw [read?_trim] at hread
    have hprimary := spells_enclose (read?_eq_some_iff.1 hread)
    have hblank : (String.ofList (enclose q.toList)).toList.all isBlank = false := by
      simpa using not_blank hprimary
    have hjoin := join_pair hblank (not_blank hf)
    rw [String.toList_ofList] at hjoin
    refine ⟨f, String.ofList (enclose q.toList ++ andWord ++ filter.toList),
      read?_eq_some_iff.2 hf.lone, ?_, ?_⟩
    · rw [filter_merge o hcompile, hq]
      exact hjoin
    · rw [String.toList_ofList]
      exact read?_eq_some_iff.2 (hprimary.and hf).lone
  alone := by
    intro filter hcompile hblank
    obtain ⟨f, hf⟩ := spells_compile? hcol hcompile
    rw [filter_merge o hcompile]
    cases hq : o.filter with
    | none => exact join_single (not_blank hf)
    | some q =>
      have hnil : enclose q.toList = [] := by simp [enclose, hblank q hq]
      exact join_blank (by simp [hnil]) (not_blank hf)
  untouched := fun h => by rw [merge_of_none o h]
  others := merge_others criteria o

/-! ### Chains -/

@[simp] theorem both_none (a : Option Expression) : both a none = a := by
  cases a <;> rfl

theorem asked?_of_read? {q : String} {e : Expression} (h : read? q.toList = some e) :
    asked? (some q) = some (some e) := by
  have hne : trim q.toList ≠ [] := trim_ne_nil (read?_eq_some_iff.1 h)
  rw [asked?, if_neg hne, read?_trim, h]
  rfl

/-- A readable filter is absent, blank or an expression. -/
theorem cases_asked? {o : Option String} {a : Option Expression} (h : asked? o = some a) :
    (a = none ∧ ∀ q ∈ o, trim q.toList = []) ∨
      ∃ q e, o = some q ∧ a = some e ∧ read? (trim q.toList) = some e := by
  cases o with
  | none => exact .inl ⟨(Option.some.inj h).symm, by simp⟩
  | some q =>
    rw [asked?] at h
    split at h
    · rename_i hnil
      exact .inl ⟨(Option.some.inj h).symm, by simpa using hnil⟩
    · obtain ⟨e, he, rfl⟩ := Option.map_eq_some_iff.1 h
      exact .inr ⟨q, e, rfl, rfl, he⟩

/-- One composition adds what its criteria ask for. -/
theorem asked?_merge {c : Criteria} (hcol : c.HasWordColumns) {o : RequestOptions}
    {a : Option Expression} (h : asked? o.filter = some a) :
    asked? (merge (some c) (some o)).filter = some (both a (compiled? c)) := by
  have hsome : ∀ c' ∈ some c, c'.HasWordColumns := by simpa using hcol
  have hm := isComposed_merge hsome o
  cases hc : compile c with
  | none =>
    have hnone : compiled? c = none := by simp [compiled?, hc]
    rw [hm.untouched hc, h, hnone, both_none]
  | some filter =>
    obtain ⟨f, hf⟩ := spells_compile? hsome hc
    have hread : read? filter.toList = some f := read?_eq_some_iff.2 hf.lone
    have hcompiled : compiled? c = some f := by simp [compiled?, hc, hread]
    rcases cases_asked? h with ⟨rfl, hblank⟩ | ⟨q, e, hq, rfl, he⟩
    · rw [hm.alone filter hc hblank, asked?_of_read? hread, hcompiled]
      rfl
    · obtain ⟨f', q', hf', hq', hread'⟩ := hm.conjunction filter q e hc hq he
      obtain rfl : f' = f := Option.some.inj (hf'.symm.trans hread)
      rw [hq', asked?_of_read? hread', hcompiled]
      rfl

/-- Over any number of steps, the filter asks for what it asked for first and for all criteria. -/
theorem asked?_mergeAll {cs : List Criteria} (hcs : ∀ c ∈ cs, c.HasWordColumns)
    {o : RequestOptions} {a : Option Expression} (h : asked? o.filter = some a) :
    asked? (mergeAll o cs).filter = some (cs.foldl (fun a c => both a (compiled? c)) a) := by
  induction cs generalizing o a with
  | nil => exact h
  | cons c cs ih =>
    exact ih (fun c' hc' => hcs c' (by simp [hc'])) (asked?_merge (hcs c (by simp)) h)

/-- Any number of steps change nothing but the filter. -/
theorem mergeAll_others (cs : List Criteria) (o : RequestOptions) :
    { mergeAll o cs with filter := o.filter } = o := by
  induction cs generalizing o with
  | nil => rfl
  | cons c cs ih =>
    have hrest := ih (merge (some c) (some o))
    have hstep := merge_others (some c) o
    calc { mergeAll o (c :: cs) with filter := o.filter }
        = { ({ mergeAll (merge (some c) (some o)) cs with
              filter := (merge (some c) (some o)).filter } : RequestOptions) with
            filter := o.filter } := rfl
      _ = { merge (some c) (some o) with filter := o.filter } := by rw [hrest]
      _ = o := hstep

def AskedHolds (I : Comparison → Prop) (a : Option Expression) : Prop := ∀ e ∈ a, e.Holds I

theorem askedHolds_both (I : Comparison → Prop) (a b : Option Expression) :
    AskedHolds I (both a b) ↔ AskedHolds I a ∧ AskedHolds I b := by
  cases a <;> cases b <;> simp [both, AskedHolds]

/-- What filters ask for together holds if and only if each of them holds. -/
theorem askedHolds_foldl (I : Comparison → Prop) (cs : List Criteria) (a : Option Expression) :
    AskedHolds I (cs.foldl (fun a c => both a (compiled? c)) a) ↔
      AskedHolds I a ∧ ∀ c ∈ cs, AskedHolds I (compiled? c) := by
  induction cs generalizing a with
  | nil => simp
  | cons c cs ih => simp [ih, askedHolds_both, and_assoc]

/-- Composing is conjunction, once and along every chain. -/
theorem merge_is_conjunction (o : RequestOptions) (criteria : Option Criteria)
    (hcriteria : ∀ c ∈ criteria, c.HasWordColumns) (cs : List Criteria)
    (hcs : ∀ c ∈ cs, c.HasWordColumns) :
    IsComposed criteria o (merge criteria (some o)) ∧
      merge criteria none = merge criteria (some .default) ∧
      { mergeAll o cs with filter := o.filter } = o ∧
      ∀ a, asked? o.filter = some a → ∃ b, asked? (mergeAll o cs).filter = some b ∧
        b = cs.foldl (fun a c => both a (compiled? c)) a ∧
        ∀ I, AskedHolds I b ↔ AskedHolds I a ∧ ∀ c ∈ cs, AskedHolds I (compiled? c) := by
  refine ⟨isComposed_merge hcriteria o, rfl, mergeAll_others cs o, fun a ha => ?_⟩
  exact ⟨_, asked?_mergeAll hcs ha, rfl, fun I => askedHolds_foldl I cs a⟩

/-- A filter with an alternative at its top and a parenthesis inside a literal. -/
def alternative : RequestOptions :=
  { RequestOptions.default with filter := some " (NAME eq 'a)' and A eq 1) or (B gt -2.5) " }

def statusOne : Criteria := ⟨[("status", some (.scalar (.int 1)))]⟩

def tagged : Criteria := ⟨[("tags", some (.list [.string "x", .string "y"]))]⟩

/-- The alternative is put in parentheses, and then two criteria follow it. -/
theorem alternative_is_one_part :
    (∀ c ∈ some statusOne, c.HasWordColumns) ∧ (∀ c ∈ [statusOne, tagged], c.HasWordColumns) ∧
      ∃ e b, read? " (NAME eq 'a)' and A eq 1) or (B gt -2.5) ".toList = some e ∧
        asked? (mergeAll alternative [statusOne, tagged]).filter = some b ∧
        b = both (both (some e) (compiled? statusOne)) (compiled? tagged) := by
  have hone : ∀ c ∈ some statusOne, c.HasWordColumns := by
    have hcol : statusOne.HasWordColumns := by decide
    simpa using hcol
  have hall : ∀ c ∈ [statusOne, tagged], c.HasWordColumns := by decide
  obtain ⟨e, he⟩ : ∃ e, read? " (NAME eq 'a)' and A eq 1) or (B gt -2.5) ".toList = some e :=
    Option.isSome_iff_exists.1 (by decide +kernel)
  obtain ⟨-, -, -, hchain⟩ :=
    merge_is_conjunction alternative (some statusOne) hone [statusOne, tagged] hall
  obtain ⟨b, hb, hfold, -⟩ := hchain (some e) (asked?_of_read? he)
  exact ⟨hone, hall, e, b, he, hb, hfold⟩

end ResourceApi.Compose
