import ResourceApi.Facade.Source
import ResourceApi.Facade.Standard
import ResourceApi.Proofs.Manifest.Rules

/-!
The methods that a generated client defines, read off the lines of its implementation. They are the
two that every client has and those that the check of the manifest counts, so the names differ
unless an action is called like one of the two, which the check does not look at.
-/

namespace ResourceApi.Facade

/-! ### Reading the lines -/

def fixedNames : List String := ["new", "inner"]

/-- What a line starts with that begins a method. -/
def methodStarts : List String := ["    pub fn ", "    pub async fn "]

def definedName? (line : String) : Option String :=
  (methodStarts.findSome? fun start => line.toList.dropPrefix? start.toList).map fun rest =>
    String.ofList (rest.takeWhile (· ≠ '('))

def definedNames (r : Resource) : List String := (implementation r).filterMap definedName?

/-- Neither of two texts begins with the other. -/
def Differ (s t : String) : Prop := ¬s.toList <+: t.toList ∧ ¬t.toList <+: s.toList

instance (s t : String) : Decidable (Differ s t) :=
  inferInstanceAs (Decidable (¬s.toList <+: t.toList ∧ ¬t.toList <+: s.toList))

theorem dropPrefix?_of_differ {head start : String} (h : Differ head start) (s : List Char) :
    (head.toList ++ s).dropPrefix? start.toList = none := by
  rw [Option.eq_none_iff_forall_ne_some]
  intro rest hrest
  obtain ⟨p, hline, hp⟩ := List.dropPrefix?_eq_some_iff.1 hrest
  obtain rfl : p = start.toList := by simpa using hp
  have hstart : start.toList <+: head.toList ++ s := ⟨rest, hline.symm⟩
  rcases List.prefix_or_prefix_of_prefix hstart (List.prefix_append _ _) with hp | hp
  · exact h.2 hp
  · exact h.1 hp

/-- A line that goes on from something else begins no method. -/
theorem definedName?_of_differ {head : String} (h : ∀ start ∈ methodStarts, Differ head start)
    (s : String) : definedName? (head ++ s) = none := by
  rw [definedName?, Option.map_eq_none_iff, List.findSome?_eq_none_iff, String.toList_append]
  exact fun start hstart => dropPrefix?_of_differ (h start hstart) s.toList

theorem dropPrefix?_append_self (s t : List Char) : (s ++ t).dropPrefix? s = some t :=
  List.dropPrefix?_eq_some_iff.2 ⟨s, rfl, beq_self_eq_true s⟩

/-- Neither of the two starts is a start of the other. -/
theorem findSome?_of_start {start : String} (h : start ∈ methodStarts) (rest : List Char) :
    methodStarts.findSome? (fun s => (start.toList ++ rest).dropPrefix? s.toList) = some rest := by
  simp only [methodStarts, List.mem_cons, List.not_mem_nil, or_false] at h
  rcases h with rfl | rfl
  · rw [methodStarts, List.findSome?_cons, dropPrefix?_append_self]
  · rw [methodStarts, List.findSome?_cons, dropPrefix?_of_differ (by decide),
      List.findSome?_cons, dropPrefix?_append_self]

/-- The beginning of a method names it, whatever comes after the parenthesis. -/
theorem definedName?_of_start (start : String) {name : String} (hstart : start ∈ methodStarts)
    (h : '(' ∉ name.toList) (s : String) :
    definedName? (start ++ (name ++ ("(" ++ s))) = some name := by
  have hname : (name.toList ++ '(' :: s.toList).takeWhile (· ≠ '(') = name.toList := by
    rw [List.takeWhile_append_of_pos fun c hc => by simpa using ne_of_mem_of_not_mem hc h]
    simp
  have hrest : (name ++ ("(" ++ s)).toList = name.toList ++ '(' :: s.toList := by
    simp [String.toList_append]
  rw [definedName?, String.toList_append, hrest, findSome?_of_start hstart, Option.map_some, hname,
    String.ofList_toList]

/-! ### The methods of a client -/

/-- Empty lines define nothing. -/
theorem filterMap_spaced (groups : List (List String)) :
    (spaced groups).filterMap definedName? = groups.flatMap (·.filterMap definedName?) := by
  induction groups with
  | nil => rfl
  | cons g groups ih =>
    cases groups with
    | nil => simp [spaced, List.intercalate]
    | cons g' groups =>
      have hempty : definedName? "" = none := by decide
      rw [spaced, List.intercalate_cons_cons, List.filterMap_append, List.filterMap_append,
        ← spaced, ih, List.flatMap_cons, List.filterMap_cons_none hempty]
      simp

/-- The first line of a signature defines the method, and no other line does. -/
theorem filterMap_signature {m : Method} (h : '(' ∉ m.name.toList) :
    m.signature.filterMap definedName? = [m.name] := by
  rw [Method.signature]
  split
  · have hname : definedName? ("    pub async fn " ++ m.name ++ "(") = some m.name := by
      simpa only [String.append_assoc, String.append_empty] using
        definedName?_of_start "    pub async fn " (by decide) h ""
    have hparams :
        (m.params.map fun p => "        " ++ p.text ++ ",").filterMap definedName? = [] := by
      rw [List.filterMap_map, List.filterMap_eq_nil_iff]
      intro p _
      rw [Function.comp, String.append_assoc]
      exact definedName?_of_differ (by decide) _
    have hresult : definedName? ("    ) -> " ++ m.resultText ++ " \x7b") = none := by
      rw [String.append_assoc]
      exact definedName?_of_differ (by decide) _
    have hself : definedName? "        &self," = none := by decide
    simp [List.filterMap_append, hname, hself, hparams, hresult]
  · have hname : definedName? ("    pub async fn " ++ m.name ++ "(&self" ++
        String.join (m.params.map (", " ++ ·.text)) ++ ") -> " ++ m.resultText ++ " \x7b") =
          some m.name := by
      have hopen : "(&self" = "(" ++ "&self" := by decide
      rw [hopen]
      simp only [String.append_assoc]
      exact definedName?_of_start "    pub async fn " (by decide) h _
    simp [hname]

theorem filterMap_lines {m : Method} (h : '(' ∉ m.name.toList) :
    m.lines.filterMap definedName? = [m.name] := by
  have hremark : (m.remark.map ("    /// " ++ ·)).toList.filterMap definedName? = [] := by
    cases m.remark with
    | none => rfl
    | some remark =>
      exact List.filterMap_cons_none (definedName?_of_differ (by decide) remark)
  have hcall : definedName? ("        self.inner." ++ m.call ++ ".await") = none := by
    rw [String.append_assoc]
    exact definedName?_of_differ (by decide) _
  have hend : definedName? "    \x7d" = none := by decide
  rw [Method.lines, List.filterMap_append, List.filterMap_append, hremark, filterMap_signature h,
    List.filterMap_cons_none hcall, List.filterMap_cons_none hend]
  rfl

/-- Every client defines the fixed methods. -/
theorem filterMap_fixedItems (r : Resource) :
    (fixedItems r).flatMap (·.filterMap definedName?) = fixedNames := by
  have hpath :
      definedName? ("    pub const PATH: &'static str = \"" ++ r.path ++ "\";") = none := by
    rw [String.append_assoc]
    exact definedName?_of_differ (by decide) _
  have hinner : definedName? ("    pub fn inner(&self) -> &ResourceClient<" ++ r.modelType ++
      "> \x7b") = some "inner" := by
    have hline : "    pub fn inner(&self) -> &ResourceClient<" =
        "    pub fn " ++ ("inner" ++ ("(" ++ "&self) -> &ResourceClient<")) := by decide
    rw [hline]
    simp only [String.append_assoc]
    exact definedName?_of_start "    pub fn " (by decide) (by decide) _
  have hnew : definedName? "    pub fn new(client: &Client) -> Self \x7b" = some "new" := by decide
  have hrest : ∀ line ∈ ["        Self \x7b inner: client.resource(Self::PATH) \x7d", "    \x7d",
      "        &self.inner"], definedName? line = none := by decide
  simp only [List.forall_mem_cons] at hrest
  simp [fixedItems, fixedNames, hpath, hinner, hnew, hrest]

/-- Each method defines its own name. -/
theorem filterMap_methods {ms : List Method} (h : ∀ m ∈ ms, '(' ∉ m.name.toList) :
    (ms.map Method.lines).flatMap (·.filterMap definedName?) = ms.map Method.name := by
  induction ms with
  | nil => rfl
  | cons m ms ih =>
    obtain ⟨hm, hms⟩ := List.forall_mem_cons.1 h
    rw [List.map_cons, List.flatMap_cons, filterMap_lines hm, ih hms, List.map_cons,
      List.singleton_append]

/-- A client defines the two methods that all have, and its own. -/
theorem definedNames_eq {r : Resource} (h : ∀ m ∈ Method.ofResource r, '(' ∉ m.name.toList) :
    definedNames r = fixedNames ++ (Method.ofResource r).map Method.name := by
  have hopen : definedName? ("impl " ++ clientName r ++ " \x7b") = none := by
    rw [String.append_assoc]
    exact definedName?_of_differ (by decide) _
  have hclose : definedName? "\x7d" = none := by decide
  rw [definedNames, implementation, List.filterMap_append, List.filterMap_append,
    filterMap_spaced, List.flatMap_append, filterMap_fixedItems, filterMap_methods h,
    List.filterMap_cons_none hopen, List.filterMap_cons_none hclose]
  simp

/-! ### Names of methods -/

/-- The methods of a verb are those that the rules count for it. -/
theorem map_name_ofVerb (model : String) (v : Verb) :
    (Method.ofVerb model v).map Method.name = v.methods := by
  cases v <;> rfl

theorem map_name_ofResource (r : Resource) : (Method.ofResource r).map Method.name =
    (Verb.all.filter r.supports).flatMap Verb.methods ++ r.actions.map Action.name := by
  rw [Method.ofResource, List.map_append, List.map_flatMap, List.map_map]
  simp only [map_name_ofVerb]
  rfl

theorem nodup_verbs {r : Resource} (h : r.methodNames.Nodup) : r.verbs.Nodup := by
  have hverbs := (List.nodup_flatMap.1 (List.nodup_append.1 h).1).2
  refine hverbs.imp ?_
  rintro v _ hdisjoint rfl
  cases v <;> exact hdisjoint (List.mem_cons_self) (List.mem_cons_self)

/-- Verbs are written in an order of their own, each once. -/
theorem perm_methodNames {r : Resource} (h : r.methodNames.Nodup) :
    ((Method.ofResource r).map Method.name).Perm r.methodNames := by
  have hall : Verb.all.Nodup := by decide
  have hverbs : (Verb.all.filter r.supports).Perm r.verbs := by
    rw [List.perm_ext_iff_of_nodup (hall.filter _) (nodup_verbs h)]
    simp [Resource.supports]
  rw [map_name_ofResource, Resource.methodNames]
  exact (hverbs.flatMap_right _).append_right _

theorem parenthesis_notMem {r : Resource} (h : r.IsValid) {x : String} (hx : x ∈ r.methodNames) :
    '(' ∉ x.toList := by
  rcases List.mem_append.1 hx with hx | hx
  · obtain ⟨v, -, hv⟩ := List.mem_flatMap.1 hx
    have hmethods : ∀ v ∈ Verb.all, ∀ x ∈ v.methods, '(' ∉ x.toList := by decide
    exact hmethods v (Verb.mem_all v) x hv
  · obtain ⟨a, ha, rfl⟩ := List.mem_map.1 hx
    intro hmem
    exact absurd ((h.actions a ha).name.1.forall '(' hmem) (by decide)

/-- A client defines the fixed methods and those that it owes to the manifest. -/
theorem definedNames_perm {r : Resource} (h : r.IsValid) :
    (definedNames r).Perm (fixedNames ++ r.methodNames) := by
  have hperm := perm_methodNames h.methods
  rw [definedNames_eq fun m hm =>
    parenthesis_notMem h (hperm.subset (List.mem_map_of_mem hm))]
  exact hperm.append_left fixedNames

/-- Only an action can be called like a fixed method. -/
theorem mem_methodNames_of_fixed {r : Resource} {x : String} (hx : x ∈ fixedNames) :
    x ∈ r.methodNames ↔ ∃ a ∈ r.actions, a.name = x := by
  have hverbs : ∀ v ∈ Verb.all, ∀ x ∈ fixedNames, x ∉ v.methods := by decide
  have hother : x ∉ r.verbs.flatMap Verb.methods := by
    intro hmem
    obtain ⟨v, -, hv⟩ := List.mem_flatMap.1 hmem
    exact hverbs v (Verb.mem_all v) x hx hv
  rw [Resource.methodNames, List.mem_append, or_iff_right hother, List.mem_map]

/-- The client of an accepted resource defines the two methods that all have and those that the
check counts; the names differ if and only if no action has the name of one of the two. -/
theorem definedNames_nodup_iff {m : Manifest} (hcheck : m.check = .ok ()) {r : Resource}
    (hr : r ∈ m.resources) :
    (definedNames r).Perm (fixedNames ++ r.methodNames) ∧
      ((definedNames r).Nodup ↔ ∀ a ∈ r.actions, a.name ∉ fixedNames) := by
  have hvalid := (Manifest.isValid_of_check hcheck).resources r hr
  have hperm := definedNames_perm hvalid
  refine ⟨hperm, ?_⟩
  rw [hperm.nodup_iff, List.nodup_append]
  constructor
  · rintro ⟨-, -, hdiffer⟩ a ha hmem
    have hname : a.name ∈ r.methodNames := (mem_methodNames_of_fixed hmem).2 ⟨a, ha, rfl⟩
    exact hdiffer a.name hmem a.name hname rfl
  · intro hactions
    refine ⟨by decide, hvalid.methods, ?_⟩
    rintro x hx _ hmem rfl
    obtain ⟨a, ha, rfl⟩ := (mem_methodNames_of_fixed hx).1 hmem
    exact hactions a ha hx

/-- In the standard client of items, all methods have different names. -/
theorem items_methods_differ :
    Manifest.standard.check = .ok () ∧ Manifest.items ∈ Manifest.standard.resources ∧
      (definedNames Manifest.items).Nodup := by
  have hcheck : Manifest.standard.check = .ok () := by decide +kernel
  have hmem : Manifest.items ∈ Manifest.standard.resources := by decide
  exact ⟨hcheck, hmem, (definedNames_nodup_iff hcheck hmem).2.2 (by decide)⟩

/-- A resource with an action that is called like the method that makes its client. -/
def renewed : Resource :=
  ⟨"Item", "/items", none, Verb.all, [⟨"new", .post, some "seg", [], false, none⟩]⟩

/-- Its manifest passes, and its client defines that method twice. -/
theorem renewed_defines_new_twice :
    (Manifest.mk [renewed]).check = .ok () ∧ ¬(definedNames renewed).Nodup := by
  have hcheck : (Manifest.mk [renewed]).check = .ok () := by decide +kernel
  have hvalid := (Manifest.isValid_of_check hcheck).resources renewed (List.mem_singleton_self _)
  refine ⟨hcheck, ?_⟩
  rw [(definedNames_perm hvalid).nodup_iff]
  decide

end ResourceApi.Facade
