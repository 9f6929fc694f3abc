import ResourceApi.Proofs.Facade.Methods

/-!
The types that generated files name. A client file declares one type and imports others, and the
module file exports the types of all clients. The exported names differ; the declared one is among
the imported ones for a single name of a resource, which the check lets through.
-/

namespace ResourceApi.Facade

/-! ### Reading the lines -/

/-- What is read off a line with a certain start, behind that start. -/
def namesBehind (start : String) (read : List Char → List String) (line : String) : List String :=
  match line.toList.dropPrefix? start.toList with
  | none => []
  | some rest => read rest

/-- The names behind the last colon of a path, with or without braces around them. -/
def lastNames (path : List Char) : List String :=
  ((path.rtakeWhile (· ≠ ':')).splitOn ',').map fun w => String.ofList (w.filter Name.isWordChar)

def firstWord (s : List Char) : List String := [String.ofList (s.takeWhile (· ≠ ' '))]

/-- The names that a client file takes over from elsewhere. -/
def importedNames (r : Resource) : List String :=
  (clientLines r).flatMap (namesBehind "use " lastNames)

def declaredTypes (r : Resource) : List String :=
  (clientLines r).flatMap (namesBehind "pub struct " firstWord)

def exportedNames (m : Manifest) : List String :=
  (moduleLines m).flatMap (namesBehind "pub use " lastNames)

section Lines

variable {start line : String} {read : List Char → List String}

/-- Names are read behind a start that the line has. -/
theorem namesBehind_start (start : String) (read : List Char → List String) (s : String) :
    namesBehind start read (start ++ s) = read s.toList := by
  rw [namesBehind, String.toList_append, dropPrefix?_append_self]

/-- A line with another start has no names. -/
theorem namesBehind_of_differ {head : String} (h : Differ head start) (s : String) :
    namesBehind start read (head ++ s) = [] := by
  rw [namesBehind, String.toList_append, dropPrefix?_of_differ h]

theorem flatMap_spaced {f : String → List String} (hf : f "" = []) (groups : List (List String)) :
    (spaced groups).flatMap f = groups.flatMap (·.flatMap f) := by
  induction groups with
  | nil => rfl
  | cons g groups ih =>
    cases groups with
    | nil => simp [spaced, List.intercalate]
    | cons g' groups =>
      rw [spaced, List.intercalate_cons_cons, List.flatMap_append, List.flatMap_append, ← spaced,
        ih, List.flatMap_cons, hf, List.flatMap_cons]
      simp

/-! ### Lines without types -/

/-- What the lines of a client file start with, apart from imports and the declaration. -/
def otherStarts : List String := ["//", "#", "    ", "impl ", "\x7d"]

def IsOther (line : String) : Prop := ∃ head ∈ otherStarts, head.toList <+: line.toList

instance (line : String) : Decidable (IsOther line) :=
  inferInstanceAs (Decidable (∃ head ∈ otherStarts, head.toList <+: line.toList))

theorem IsOther.append (h : IsOther line) (s : String) : IsOther (line ++ s) := by
  obtain ⟨head, hhead, hline⟩ := h
  refine ⟨head, hhead, ?_⟩
  rw [String.toList_append]
  exact hline.trans (List.prefix_append _ _)

/-- The other lines have no names behind a start that differs from theirs. -/
theorem IsOther.namesBehind (h : IsOther line) (hstart : ∀ head ∈ otherStarts, Differ head start) :
    namesBehind start read line = [] := by
  obtain ⟨head, hhead, s, hs⟩ := h
  obtain rfl : head ++ String.ofList s = line := by
    rw [← String.toList_inj, String.toList_append, String.toList_ofList, hs]
  exact namesBehind_of_differ (hstart head hhead) _

end Lines

/-- The lines of a signature are indented. -/
theorem isOther_signature (m : Method) : ∀ line ∈ m.signature, IsOther line := by
  have hname : IsOther "    pub async fn " := by decide
  have hself : IsOther "        &self," := by decide
  have hparam : IsOther "        " := by decide
  have hresult : IsOther "    ) -> " := by decide
  intro line hline
  rw [Method.signature] at hline
  split at hline
  · simp only [List.mem_append, List.mem_cons, List.not_mem_nil, or_false, List.mem_map] at hline
    rcases hline with ((rfl | rfl) | ⟨p, -, rfl⟩) | rfl
    · exact (hname.append _).append _
    · exact hself
    · exact (hparam.append _).append _
    · exact (hresult.append _).append _
  · obtain rfl := List.mem_singleton.1 hline
    exact (((((hname.append _).append _).append _).append _).append _).append _

theorem isOther_lines (m : Method) : ∀ line ∈ m.lines, IsOther line := by
  have hremark : IsOther "    /// " := by decide
  have hcall : IsOther "        self.inner." := by decide
  have hend : IsOther "    \x7d" := by decide
  intro line hline
  simp only [Method.lines, List.mem_append, Option.mem_toList, Option.map_eq_some_iff,
    List.mem_cons, List.not_mem_nil, or_false] at hline
  rcases hline with (⟨remark, -, rfl⟩ | hline) | rfl | rfl
  · exact hremark.append _
  · exact isOther_signature m line hline
  · exact (hcall.append _).append _
  · exact hend

theorem isOther_fixedItems (r : Resource) : ∀ item ∈ fixedItems r, ∀ line ∈ item,
    IsOther line := by
  have hpath : IsOther "    pub const PATH: &'static str = \"" := by decide
  have hinner : IsOther "    pub fn inner(&self) -> &ResourceClient<" := by decide
  have hfixed : ∀ line ∈ ["    pub fn new(client: &Client) -> Self \x7b",
      "        Self \x7b inner: client.resource(Self::PATH) \x7d", "    \x7d",
      "        &self.inner"], IsOther line := by decide
  simp only [List.forall_mem_cons] at hfixed
  obtain ⟨hnew, hself, hend, hget, -⟩ := hfixed
  simp only [fixedItems, List.forall_mem_cons]
  exact ⟨⟨(hpath.append _).append _, by simp⟩, ⟨hnew, hself, hend, by simp⟩,
    ⟨(hinner.append _).append _, hget, hend, by simp⟩, by simp⟩

section Client

variable {start : String} {read : List Char → List String}

theorem namesBehind_empty (hstart : ∀ head ∈ otherStarts, Differ head start) :
    namesBehind start read "" = [] := by
  rw [namesBehind]
  cases hs : start.toList with
  | nil =>
    have hslash := (hstart "//" (by decide)).2
    rw [hs] at hslash
    exact absurd List.nil_prefix hslash
  | cons c rest => rfl

/-- An implementation neither imports nor declares. -/
theorem flatMap_implementation (hstart : ∀ head ∈ otherStarts, Differ head start) (r : Resource) :
    (implementation r).flatMap (namesBehind start read) = [] := by
  have hitems : ∀ item ∈ fixedItems r ++ (Method.ofResource r).map Method.lines,
      item.flatMap (namesBehind start read) = [] := by
    intro item hitem
    rw [List.flatMap_eq_nil_iff]
    intro line hline
    rcases List.mem_append.1 hitem with hitem | hitem
    · exact (isOther_fixedItems r item hitem line hline).namesBehind hstart
    · obtain ⟨m, -, rfl⟩ := List.mem_map.1 hitem
      exact (isOther_lines m line hline).namesBehind hstart
  have himpl : IsOther "impl " := by decide
  have hend : IsOther "\x7d" := by decide
  have hopen : namesBehind start read ("impl " ++ clientName r ++ " \x7b") = [] :=
    ((himpl.append _).append _).namesBehind hstart
  rw [implementation, List.flatMap_append, List.flatMap_append,
    flatMap_spaced (namesBehind_empty hstart), List.flatMap_eq_nil_iff.2 hitems]
  simp [hopen, hend.namesBehind hstart]

/-- Only the imports and the declaration of a client file can name types. -/
theorem flatMap_clientLines (hstart : ∀ head ∈ otherStarts, Differ head start) (r : Resource) :
    (clientLines r).flatMap (namesBehind start read) =
      (imports r).flatMap (namesBehind start read) ++
        namesBehind start read ("pub struct " ++ clientName r ++ " \x7b") := by
  have hpath : IsOther "/// Client for " := by decide
  have hinner : IsOther "    inner: ResourceClient<" := by decide
  have hrest : ∀ line ∈ [header, "#[derive(Clone)]", "\x7d"], IsOther line := by decide
  simp only [List.forall_mem_cons] at hrest
  obtain ⟨hheader, hderive, hend, -⟩ := hrest
  have hdeclaration : (declaration r).flatMap (namesBehind start read) =
      namesBehind start read ("pub struct " ++ clientName r ++ " \x7b") := by
    simp [declaration, ((hpath.append _).append _).namesBehind hstart, hderive.namesBehind hstart,
      ((hinner.append _).append _).namesBehind hstart, hend.namesBehind hstart]
  rw [clientLines, flatMap_spaced (namesBehind_empty hstart)]
  simp only [List.flatMap_cons, List.flatMap_nil, hheader.namesBehind hstart, hdeclaration,
    flatMap_implementation hstart, List.nil_append, List.append_nil]

end Client

/-! ### The types of a client file -/

def queryTypes (r : Resource) : List String :=
  if r.supports .list then ["QueryOptions", "SearchCriteria"]
  else if takesOptions r then ["QueryOptions"]
  else []

/-- All types that a client file takes from elsewhere. -/
def neededTypes (r : Resource) : List String :=
  clientImports r ++ queryTypes r ++ (if mentionsAnyType r then [anyType] else [])

/-- The imports of a client file are the types that it needs. -/
theorem importedNames_eq (r : Resource) : importedNames r = neededTypes r := by
  have himports : (imports r).flatMap (namesBehind "use " lastNames) = neededTypes r := by
    rw [imports, queryImport, neededTypes, queryTypes, clientImports]
    cases r.supports .list <;> cases takesOptions r <;> cases mentionsAnyType r <;> decide
  have hstruct : namesBehind "use " lastNames ("pub struct " ++ clientName r ++ " \x7b") = [] := by
    rw [String.append_assoc]
    exact namesBehind_of_differ (by decide) _
  rw [importedNames, flatMap_clientLines (by decide), himports, hstruct, List.append_nil]

theorem declaredTypes_eq {r : Resource} (h : ' ' ∉ (clientName r).toList) :
    declaredTypes r = [clientName r] := by
  have himports : (imports r).flatMap (namesBehind "pub struct " firstWord) = [] := by
    rw [imports, queryImport, clientImports]
    cases r.supports .list <;> cases takesOptions r <;> cases mentionsAnyType r <;> decide
  have hname : ((clientName r).toList ++ [' ', '\x7b']).takeWhile (· ≠ ' ') =
      (clientName r).toList := by
    rw [List.takeWhile_append_of_pos fun c hc => by simpa using ne_of_mem_of_not_mem hc h]
    simp
  have hstruct : namesBehind "pub struct " firstWord ("pub struct " ++ clientName r ++ " \x7b") =
      [clientName r] := by
    rw [String.append_assoc, namesBehind_start, String.toList_append, firstWord]
    show [String.ofList (((clientName r).toList ++ [' ', '\x7b']).takeWhile (· ≠ ' '))] = _
    rw [hname, String.ofList_toList]
  rw [declaredTypes, flatMap_clientLines (by decide), himports, hstruct, List.nil_append]

theorem isWordChar_clientName {r : Resource} (h : Name.IsCapitalised r.name) :
    ∀ c ∈ (clientName r).toList, Name.isWordChar c = true := by
  have hclient : "Client".toList.all Name.isWordChar = true := by decide
  intro c hc
  rw [clientName, String.toList_append] at hc
  rcases List.mem_append.1 hc with hc | hc
  · simp [Name.isWordChar, h.forall c hc]
  · exact List.all_eq_true.1 hclient c hc

def importableTypes : List String :=
  ["ApiError", "ApiResponse", "Client", "ResourceClient", "QueryOptions", "SearchCriteria", anyType]

theorem neededTypes_subset (r : Resource) : neededTypes r ⊆ importableTypes := by
  rw [neededTypes, queryTypes, clientImports]
  cases r.supports .list <;> cases takesOptions r <;> cases mentionsAnyType r <;> decide

/-- Two of these types end like the name of a client; one consists of that end alone. -/
theorem clientName_mem_neededTypes {r : Resource} (h : Name.IsCapitalised r.name) :
    clientName r ∈ neededTypes r ↔ r.name = "Resource" := by
  constructor
  · intro hmem
    have hends : ∀ x ∈ importableTypes, "Client".toList <:+ x.toList →
        x = "" ++ "Client" ∨ x = "Resource" ++ "Client" := by decide
    have hsuffix : "Client".toList <:+ (clientName r).toList := by
      rw [clientName, String.toList_append]
      exact List.suffix_append _ _
    rcases hends _ (neededTypes_subset r hmem) hsuffix with hname | hname
    · rw [clientName, String.append_left_inj] at hname
      rw [hname] at h
      cases h
    · rwa [clientName, String.append_left_inj] at hname
  · intro hname
    rw [clientName, hname, neededTypes, clientImports]
    simp

/-- No type is imported twice. -/
theorem nodup_neededTypes (r : Resource) : (neededTypes r).Nodup := by
  rw [neededTypes, queryTypes, clientImports]
  cases r.supports .list <;> cases takesOptions r <;> cases mentionsAnyType r <;> decide

theorem declaredTypes_of_isValid {r : Resource} (h : r.IsValid) :
    declaredTypes r = [clientName r] :=
  declaredTypes_eq fun hmem => absurd (isWordChar_clientName h.name ' ' hmem) (by decide)

/-- A client is called like an imported type only for one name of a resource. -/
theorem nodup_typeNames_iff {r : Resource} (h : r.IsValid) :
    (importedNames r ++ declaredTypes r).Nodup ↔ r.name ≠ "Resource" := by
  rw [declaredTypes_of_isValid h, importedNames_eq, List.nodup_append_comm,
    List.singleton_append, List.nodup_cons, clientName_mem_neededTypes h.name,
    and_iff_left (nodup_neededTypes r)]

/-! ### The types of the module file -/

theorem lastNames_of_one {path name : String} (hcolon : ':' ∉ name.toList)
    (hword : ∀ c ∈ name.toList, Name.isWordChar c = true) :
    lastNames (path ++ "::" ++ name ++ ";").toList = [name] := by
  have hcomma : ',' ∉ name.toList ++ [';'] := by
    intro hmem
    rcases List.mem_append.1 hmem with hmem | hmem
    · exact absurd (hword ',' hmem) (by decide)
    · exact absurd hmem (by decide)
  have hpath : (path ++ "::" ++ name ++ ";").toList.rtakeWhile (· ≠ ':') =
      name.toList ++ [';'] := by
    have hstop : ∀ c ∈ (name.toList ++ [';']).reverse, decide (c ≠ ':') = true := by
      intro c hc
      rcases List.mem_append.1 (List.mem_reverse.1 hc) with hc | hc
      · simpa using ne_of_mem_of_not_mem hc hcolon
      · obtain rfl := List.mem_singleton.1 hc
        decide
    have htext : (path ++ "::" ++ name ++ ";").toList.reverse =
        (name.toList ++ [';']).reverse ++ ':' :: (path ++ ":").toList.reverse := by
      simp [String.toList_append]
    rw [List.rtakeWhile, htext, List.takeWhile_append_of_pos hstop]
    simp
  have hfilter : (name.toList ++ [';']).filter Name.isWordChar = name.toList := by
    rw [List.filter_append, List.filter_eq_self.2 hword]
    simp [Name.isWordChar]
  rw [lastNames, hpath, List.splitOn_eq_singleton hcomma, List.map_singleton, hfilter,
    String.ofList_toList]

/-- The module file passes on the client types by their names. -/
theorem exportedNames_eq {m : Manifest} (h : ∀ r ∈ m.resources, Name.IsCapitalised r.name) :
    exportedNames m = m.resources.map clientName := by
  have hmods : (m.resources.map fun r => "pub mod " ++ r.module ++ ";").flatMap
      (namesBehind "pub use " lastNames) = [] := by
    rw [List.flatMap_map, List.flatMap_eq_nil_iff]
    intro r _
    rw [String.append_assoc]
    exact namesBehind_of_differ (by decide) _
  have huse : ∀ r ∈ m.resources, namesBehind "pub use " lastNames
      ("pub use " ++ r.module ++ "::" ++ clientName r ++ ";") = [clientName r] := by
    intro r hr
    have hword := isWordChar_clientName (h r hr)
    have hcolon : ':' ∉ (clientName r).toList := fun hmem => absurd (hword ':' hmem) (by decide)
    have hline : "pub use " ++ r.module ++ "::" ++ clientName r ++ ";" =
        "pub use " ++ (r.module ++ "::" ++ clientName r ++ ";") := by
      simp only [String.append_assoc]
    rw [hline, namesBehind_start, lastNames_of_one hcolon hword]
  have huses : (m.resources.map fun r => "pub use " ++ r.module ++ "::" ++ clientName r ++
      ";").flatMap (namesBehind "pub use " lastNames) = m.resources.map clientName := by
    rw [List.flatMap_map, List.map_eq_flatMap]
    exact List.flatMap_congr huse
  have hheader : [header].flatMap (namesBehind "pub use " lastNames) = [] := by decide
  rw [exportedNames, moduleLines, flatMap_spaced rfl]
  simp only [List.flatMap_cons, List.flatMap_nil, hheader, hmods, huses, List.nil_append,
    List.append_nil]

/-- Resources with one name have one module. -/
theorem nodup_clientNames {m : Manifest} (h : m.IsValid) :
    (m.resources.map clientName).Nodup := by
  have hmodules : ((m.resources.map Resource.name).map Name.snake).Nodup := by
    rw [List.map_map]
    exact h.modules
  have hclients : m.resources.map clientName =
      (m.resources.map Resource.name).map (· ++ "Client") := by
    rw [List.map_map]
    rfl
  rw [hclients]
  exact hmodules.of_map.map fun _ _ => (String.append_left_inj "Client").1

/-- In an accepted manifest, a client file names no type twice unless its resource has one certain
name, and the module file exports every client once. -/
theorem typeNames_nodup_iff {m : Manifest} (hcheck : m.check = .ok ()) :
    (∀ r ∈ m.resources, declaredTypes r = [clientName r] ∧ importedNames r = neededTypes r ∧
      ((importedNames r ++ declaredTypes r).Nodup ↔ r.name ≠ "Resource")) ∧
    exportedNames m = m.resources.map clientName ∧ (exportedNames m).Nodup := by
  have hvalid := Manifest.isValid_of_check hcheck
  have hexported := exportedNames_eq fun r hr => (hvalid.resources r hr).name
  refine ⟨fun r hr => ?_, hexported, ?_⟩
  · have hr := hvalid.resources r hr
    exact ⟨declaredTypes_of_isValid hr, importedNames_eq r, nodup_typeNames_iff hr⟩
  · rw [hexported]
    exact nodup_clientNames hvalid

/-- The standard clients export different types, and the one for items names no type twice. -/
theorem standard_typeNames_differ :
    Manifest.standard.check = .ok () ∧ Manifest.items ∈ Manifest.standard.resources ∧
      (importedNames Manifest.items ++ declaredTypes Manifest.items).Nodup ∧
      (exportedNames Manifest.standard).Nodup := by
  have hcheck : Manifest.standard.check = .ok () := by decide +kernel
  have hmem : Manifest.items ∈ Manifest.standard.resources := by decide
  obtain ⟨hclients, -, hexported⟩ := typeNames_nodup_iff hcheck
  exact ⟨hcheck, hmem, (hclients _ hmem).2.2.2 (by decide), hexported⟩

/-- A resource whose client is called like the type that every client builds on. -/
def homonym : Resource := ⟨"Resource", "/items", none, Verb.all, []⟩

/-- Its manifest passes, and its file declares a type of a name that it imports. -/
theorem homonym_names_type_twice :
    (Manifest.mk [homonym]).check = .ok () ∧
      ¬(importedNames homonym ++ declaredTypes homonym).Nodup := by
  have hcheck : (Manifest.mk [homonym]).check = .ok () := by decide +kernel
  have hvalid := (Manifest.isValid_of_check hcheck).resources homonym (List.mem_singleton_self _)
  refine ⟨hcheck, ?_⟩
  rw [nodup_typeNames_iff hvalid]
  decide

end ResourceApi.Facade
