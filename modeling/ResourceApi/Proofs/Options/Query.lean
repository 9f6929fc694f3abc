import Mathlib.Data.List.Basic
import ResourceApi.Options.Query
import ResourceApi.Proofs.Text.Percent

/-!
The query string of options can be read back: at its `&`, `=` and `,` it comes apart into exactly
the parameters that the options stand for, whatever characters names and values hold. So a query
string is canonical for them.
-/

namespace ResourceApi

open Text

/-! ### Reading a parameter -/

namespace Parameter

/-- The two parameters whose value is a list. -/
def isList (name : String) : Bool := name = "fields" || name = "sort"

/-- Reads a name and a value at the first `=`; lists are split before their items are decoded. -/
def read? (piece : List Char) : Option Parameter := do
  let name ← Percent.decode (piece.takeWhile (· != '='))
  let value := (piece.dropWhile (· != '=')).drop 1
  let items := if isList (String.ofList name) then value.splitOn ',' else [value]
  let values ← items.mapM Percent.decode
  some ⟨String.ofList name, values.map String.ofList⟩

/-- A list is written only if it has an item, and every other value is one text. -/
def IsWritten (p : Parameter) : Prop :=
  if isList p.name then p.values ≠ [] else ∃ v, p.values = [v]

theorem isWritten_single {name : String} (h : isList name = false) (v : String) :
    (Parameter.mk name [v]).IsWritten := by
  rw [IsWritten, if_neg (by simpa using h)]
  exact ⟨v, rfl⟩

theorem isWritten_of_map {α : Type} {name : String} (h : isList name = false) {a : Option α}
    {f : α → String} {vs : List String} (hvs : (a.map fun x => [f x]) = some vs) :
    (Parameter.mk name vs).IsWritten := by
  obtain ⟨x, -, rfl⟩ := Option.map_eq_some_iff.1 hvs
  exact isWritten_single h (f x)

theorem isWritten_list {name : String} (h : isList name = true) {vs : List String}
    (hvs : vs ≠ []) : (Parameter.mk name vs).IsWritten := by
  rw [IsWritten, if_pos h]
  exact hvs

theorem ne_of_mem_encode {c : Char} {s : List Char} (h : c ∈ Percent.encode s) :
    (c != '=') = true := by
  have hne : c ≠ '=' := fun e => Percent.not_mem_encode (by decide) s (e ▸ h)
  simpa using hne

theorem takeWhile_render (p : Parameter) :
    p.render.takeWhile (· != '=') = Percent.encode p.name.toList := by
  rw [render, List.takeWhile_append_of_pos fun c hc => ne_of_mem_encode hc,
    List.takeWhile_cons_of_neg (by decide), List.append_nil]

theorem dropWhile_render (p : Parameter) :
    p.render.dropWhile (· != '=') = '=' :: Percent.encodeAll (p.values.map String.toList) := by
  rw [render, List.dropWhile_append_of_pos fun c hc => ne_of_mem_encode hc,
    List.dropWhile_cons_of_neg (by decide)]

theorem items_of_isWritten {p : Parameter} (h : p.IsWritten) :
    (if isList p.name then (Percent.encodeAll (p.values.map String.toList)).splitOn ','
      else [Percent.encodeAll (p.values.map String.toList)]) =
      (p.values.map String.toList).map Percent.encode := by
  rw [IsWritten] at h
  split
  · rename_i hlist
    rw [if_pos hlist] at h
    exact Percent.splitOn_encodeAll (by simpa using h)
  · rename_i hlist
    rw [if_neg hlist] at h
    obtain ⟨v, hv⟩ := h
    simp [hv, Percent.encodeAll]

/-- A parameter is read as it was written. -/
theorem read?_render {p : Parameter} (h : p.IsWritten) : read? p.render = some p := by
  have hitems := items_of_isWritten h
  have hvalues : (p.values.map String.toList).map String.ofList = p.values := by simp
  simp only [read?, takeWhile_render, dropWhile_render, Percent.decode_encode,
    List.drop_succ_cons, List.drop_zero, Option.bind_eq_bind, Option.bind_some,
    String.ofList_toList, hitems, Percent.mapM_decode_map_encode, hvalues]

theorem not_mem_render (p : Parameter) : '&' ∉ p.render := by
  rw [render, List.mem_append, List.mem_cons]
  rintro (h | h | h)
  · exact Percent.not_mem_encode (by decide) _ h
  · exact absurd h (by decide)
  · exact Percent.not_mem_encodeAll (by decide) (by decide) _ h

end Parameter

/-! ### Reading a query string -/

namespace RequestOptions

/-- Reads the parameters between the `&`; the empty text has none. -/
def readQuery (s : List Char) : Option (List Parameter) :=
  (if s.isEmpty then [] else s.splitOn '&').mapM Parameter.read?

theorem renderParameters_ne_nil {ps : List Parameter} (h : ps ≠ []) :
    (renderParameters ps).isEmpty = false := by
  obtain ⟨p, ps, rfl⟩ := List.exists_cons_of_ne_nil h
  cases ps <;> simp [renderParameters, Parameter.render, List.intercalate_cons_cons]

theorem mapM_read?_render {ps : List Parameter} (h : ∀ p ∈ ps, p.IsWritten) :
    (ps.map Parameter.render).mapM Parameter.read? = some ps := by
  induction ps with
  | nil => rfl
  | cons p ps ih =>
    have hp := Parameter.read?_render (h p List.mem_cons_self)
    have hps := ih fun q hq => h q (List.mem_cons_of_mem p hq)
    simp [hp, hps]

/-- Written parameters come apart again, in their order. -/
theorem readQuery_renderParameters {ps : List Parameter} (h : ∀ p ∈ ps, p.IsWritten) :
    readQuery (renderParameters ps) = some ps := by
  by_cases hps : ps = []
  · subst hps
    rfl
  have hsplit : (renderParameters ps).splitOn '&' = ps.map Parameter.render := by
    refine List.splitOn_intercalate '&' ?_ (by simpa using hps)
    intro l hl
    obtain ⟨p, -, rfl⟩ := List.mem_map.1 hl
    exact p.not_mem_render
  rw [readQuery, renderParameters_ne_nil hps, hsplit]
  exact mapM_read?_render h

/-! ### The parameters of options -/

/-- The values that options give to a name of the wire, if it is set; a name beyond the recognised
ones is looked up among the further parameters. -/
def values? (o : RequestOptions) (name : String) : Option (List String) :=
  match name with
  | "limit" => o.limit.map fun n => [toString n]
  | "offset" => o.offset.map fun n => [toString n]
  | "fields" => if o.fields = [] then none else some o.fields
  | "sort" => o.sort.bind fun s =>
    if s.fields = [] then none
    else some (s.fields ++ if s.direction = .desc then ["desc"] else [])
  | "q" => o.filter.map fun q => [q]
  | "count" => if o.count then some ["true"] else none
  | "expandLevel" => o.expandLevel.map fun l => [l]
  | name => (Ordered.get? name o.extra.entries).bind fun v => match v with
    | .null => none
    | .string s => some [s]
    | v => some [v.text]

/-- The names of further parameters, without those that imitate an option. -/
def further (o : RequestOptions) : List String :=
  (Ordered.keys o.extra.entries).filter fun k => k ∉ recognised

def parameter? (o : RequestOptions) (name : String) : Option Parameter :=
  (o.values? name).map (Parameter.mk name)

/-- The parameters that are set, in the order of the wire. -/
def meant (o : RequestOptions) : List Parameter :=
  (recognised ++ o.further).filterMap o.parameter?

theorem values?_of_not_mem {o : RequestOptions} {name : String} (h : name ∉ recognised) :
    o.values? name = (Ordered.get? name o.extra.entries).bind fun v => match v with
      | .null => none
      | .string s => some [s]
      | v => some [v.text] := by
  simp only [recognised, List.mem_cons, List.not_mem_nil, or_false, not_or] at h
  obtain ⟨h1, h2, h3, h4, h5, h6, h7⟩ := h
  rw [values?]
  all_goals assumption

theorem keys_ascending (o : RequestOptions) : (Ordered.keys o.extra.entries).Pairwise (· < ·) :=
  List.pairwise_map.2 o.extra.ascending

theorem further_ascending (o : RequestOptions) : o.further.Pairwise (· < ·) :=
  o.keys_ascending.filter _

theorem mem_further {o : RequestOptions} {k : String} :
    k ∈ o.further ↔ k ∈ Ordered.keys o.extra.entries ∧ k ∉ recognised := by
  simp [further]

theorem names_nodup (o : RequestOptions) : (recognised ++ o.further).Nodup := by
  have hfurther : o.further.Nodup := o.further_ascending.imp fun h => String.ne_of_lt h
  refine List.nodup_append.2 ⟨by decide, hfurther, ?_⟩
  rintro a ha b hb rfl
  exact (mem_further.1 hb).2 ha

/-! ### The query string stands for them -/

theorem extraParameter?_eq (o : RequestOptions) {m : String × Json} (h : m ∈ o.extra.entries) :
    extraParameter? m = if m.1 ∉ recognised then o.parameter? m.1 else none := by
  have hkeys : (Ordered.keys o.extra.entries).Nodup :=
    o.keys_ascending.imp fun h => String.ne_of_lt h
  have hget := Ordered.get?_of_mem hkeys h
  by_cases hm : m.1 ∈ recognised
  · simp [extraParameter?, hm]
  · rw [extraParameter?, if_neg (by simpa using hm), if_pos hm, parameter?,
      values?_of_not_mem hm, hget]
    cases m.2 <;> rfl

theorem filterMap_further (o : RequestOptions) :
    o.further.filterMap o.parameter? = o.extra.entries.filterMap extraParameter? := by
  rw [further, Ordered.keys, List.filterMap_filter, List.filterMap_map]
  refine List.filterMap_congr fun m hm => ?_
  rw [extraParameter?_eq o hm]
  simp

theorem filterMap_recognised (o : RequestOptions) :
    recognised.filterMap o.parameter? =
      (o.limit.map fun n => (⟨"limit", [toString n]⟩ : Parameter)).toList
        ++ (o.offset.map fun n => (⟨"offset", [toString n]⟩ : Parameter)).toList
        ++ (if o.fields.isEmpty then [] else [⟨"fields", o.fields⟩])
        ++ (match o.sort with
          | some s => if s.fields.isEmpty then [] else [⟨"sort", s.words⟩]
          | none => [])
        ++ (o.filter.map fun q => (⟨"q", [q]⟩ : Parameter)).toList
        ++ (if o.count then [⟨"count", ["true"]⟩] else [])
        ++ (o.expandLevel.map fun l => (⟨"expandLevel", [l]⟩ : Parameter)).toList := by
  have hfields : (o.parameter? "fields").toList =
      if o.fields.isEmpty then [] else [⟨"fields", o.fields⟩] := by
    cases hf : o.fields <;> simp [parameter?, values?, hf]
  have hsort : (o.parameter? "sort").toList = match o.sort with
      | some s => if s.fields.isEmpty then [] else [⟨"sort", s.words⟩]
      | none => [] := by
    cases hs : o.sort with
    | none => simp [parameter?, values?, hs]
    | some s =>
      obtain ⟨fields, direction⟩ := s
      cases fields <;> cases direction <;> simp [parameter?, values?, hs, SortOrder.words]
  have hcount : (o.parameter? "count").toList = if o.count then [⟨"count", ["true"]⟩] else [] := by
    cases hc : o.count <;> simp [parameter?, values?, hc]
  rw [List.filterMap_eq_flatMap_toList]
  simp only [recognised, List.flatMap_cons, List.flatMap_nil, List.append_nil, List.append_assoc,
    hfields, hsort, hcount]
  simp only [parameter?, values?, Option.map_map]
  rfl

/-- The parameters that are written are those that are meant. -/
theorem parameters_eq_meant (o : RequestOptions) : o.parameters = o.meant := by
  rw [meant, List.filterMap_append, filterMap_further]
  exact congrArg (· ++ o.extra.entries.filterMap extraParameter?) (filterMap_recognised o).symm

/-- A parameter that is set is written in its form. -/
theorem isWritten_of_values? {o : RequestOptions} {name : String} {vs : List String}
    (h : o.values? name = some vs) : (Parameter.mk name vs).IsWritten := by
  unfold values? at h
  split at h
  · exact Parameter.isWritten_of_map rfl h
  · exact Parameter.isWritten_of_map rfl h
  · obtain ⟨hne, heq⟩ := Option.ite_none_left_eq_some.1 h
    obtain rfl := Option.some.inj heq
    exact Parameter.isWritten_list rfl hne
  · obtain ⟨s, -, hs⟩ := Option.bind_eq_some_iff.1 h
    obtain ⟨hne, heq⟩ := Option.ite_none_left_eq_some.1 hs
    obtain rfl := Option.some.inj heq
    exact Parameter.isWritten_list rfl (List.append_ne_nil_of_left_ne_nil hne _)
  · exact Parameter.isWritten_of_map rfl h
  · obtain ⟨-, heq⟩ := Option.ite_none_right_eq_some.1 h
    obtain rfl := Option.some.inj heq
    exact Parameter.isWritten_single rfl _
  · exact Parameter.isWritten_of_map rfl h
  · rename_i hfields hsort _ _ _
    have hlist : Parameter.isList name = false := by
      simp only [Parameter.isList, Bool.or_eq_false_iff, decide_eq_false_iff_not]
      exact ⟨hfields, hsort⟩
    obtain ⟨v, -, hv⟩ := Option.bind_eq_some_iff.1 h
    split at hv
    · exact absurd hv (by simp)
    · obtain rfl := Option.some.inj hv
      exact Parameter.isWritten_single hlist _
    · obtain rfl := Option.some.inj hv
      exact Parameter.isWritten_single hlist _

theorem isWritten_of_mem_meant {o : RequestOptions} {p : Parameter} (h : p ∈ o.meant) :
    p.IsWritten := by
  obtain ⟨name, -, hp⟩ := List.mem_filterMap.1 h
  obtain ⟨vs, hvs, rfl⟩ := Option.map_eq_some_iff.1 hp
  exact isWritten_of_values? hvs

/-- The query string is read as the parameters that are meant. -/
theorem readQuery_query (o : RequestOptions) : readQuery o.query.toList = some o.meant := by
  rw [query, String.toList_ofList, parameters_eq_meant]
  exact readQuery_renderParameters fun p hp => isWritten_of_mem_meant hp

/-- Two query strings are equal just if the same parameters are meant. -/
theorem query_eq_iff (o o' : RequestOptions) : o.query = o'.query ↔ o.meant = o'.meant := by
  constructor
  · intro h
    have hread := readQuery_query o
    rw [h, readQuery_query o'] at hread
    exact (Option.some.inj hread).symm
  · intro h
    rw [query, query, parameters_eq_meant, parameters_eq_meant, h]

theorem names_of_meant_nodup (o : RequestOptions) : (o.meant.map Parameter.name).Nodup := by
  have hname : ∀ k, (o.parameter? k).map Parameter.name = (o.values? k).map fun _ => k := by
    intro k
    simp [parameter?, Function.comp_def]
  have hnames : o.meant.map Parameter.name =
      (recognised ++ o.further).filter fun k => (o.values? k).isSome := by
    rw [meant, List.map_filterMap, ← List.filterMap_eq_filter]
    refine List.filterMap_congr fun k _ => ?_
    rw [hname]
    cases hv : o.values? k <;> simp [Option.guard, hv]
  rw [hnames]
  exact o.names_nodup.filter _

/-- A name with separators in it stays one name. -/
example : (default.withParameter "q&limit=1" (.string "a,b")).query = "q%26limit%3D1=a%2Cb" := by
  decide +kernel

end RequestOptions

end ResourceApi
