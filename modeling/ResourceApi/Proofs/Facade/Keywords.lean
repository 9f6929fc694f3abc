import ResourceApi.Proofs.Facade.Modules
import ResourceApi.Proofs.Manifest.Characters

/-!
Keywords among the names that generated code gives to modules, methods and parameters. All of these
names are identifiers, and none is a word that the target language uses; but it has words that it
keeps for later, which the check of the manifest lets through.
-/

namespace ResourceApi

namespace Name

/-- The words that the target language uses. -/
def strictKeywords : List String :=
  ["as", "async", "await", "break", "const", "continue", "crate", "dyn", "else", "enum", "extern",
    "false", "fn", "for", "if", "impl", "in", "let", "loop", "match", "mod", "move", "mut", "pub",
    "ref", "return", "self", "Self", "static", "struct", "super", "trait", "true", "type", "unsafe",
    "use", "where", "while"]

/-- The words that it keeps for later. -/
def reservedKeywords : List String :=
  ["abstract", "become", "box", "do", "final", "macro", "override", "priv", "try", "typeof",
    "unsized", "virtual", "yield"]

/-- A name that can be given to something: an identifier that is neither an underscore alone nor a
keyword of either kind. -/
structure IsUsable (s : String) : Prop where
  identifier : IsIdentifier s.toList
  named : s ≠ "_"
  strict : s ∉ strictKeywords
  reserved : s ∉ reservedKeywords

theorem IsFree.isIdentifier {s : String} (h : IsFree s) : IsIdentifier s.toList := by
  obtain ⟨⟨-, hword⟩, -⟩ := h
  rw [IsIdentifier]
  cases hs : s.toList with
  | nil =>
    rw [hs] at hword
    cases hword
  | cons c rest =>
    rw [hs] at hword
    obtain ⟨hfirst, hlater⟩ := hword
    refine ⟨hfirst.imp_left fun hc => ?_, fun d hd => isWordChar_iff.1 ?_⟩
    · exact Bool.or_eq_true_iff.2 (.inr hc)
    · exact isWordChar_of_snake (hlater d hd)

/-- Of the words that the target language uses, the check knows all but one, which has a capital. -/
theorem IsFree.notMem_strictKeywords {s : String} (h : IsFree s) : s ∉ strictKeywords := by
  have hknown : ∀ k ∈ strictKeywords, k ∈ keywords ∨ 'S' ∈ k.toList := by decide
  intro hmem
  rcases hknown s hmem with hkeyword | hcapital
  · exact h.2 hkeyword
  · exact absurd (h.1.forall 'S' hcapital) (by decide)

/-- A free name can be used unless it is one of those kept for later. -/
theorem IsFree.isUsable_iff {s : String} (h : IsFree s) : IsUsable s ↔ s ∉ reservedKeywords :=
  ⟨fun husable => husable.reserved,
    fun hreserved => ⟨h.isIdentifier, h.1.1, h.notMem_strictKeywords, hreserved⟩⟩

/-- Modules that the check lets through have names like those of methods. -/
theorem IsModule.isFree {s : String} (h : IsModule s) (hkeyword : s ∉ keywords) : IsFree s := by
  rw [IsModule] at h
  refine ⟨⟨?_, ?_⟩, hkeyword⟩
  · rintro rfl
    exact absurd h.1 (by decide)
  · cases hs : s.toList with
    | nil =>
      rw [hs] at h
      cases h
    | cons c rest =>
      rw [hs] at h
      exact ⟨.inl h.1, h.2⟩

end Name

namespace Facade

def parameterNames (r : Resource) : List String :=
  (Method.ofResource r).flatMap fun m => m.params.map Parameter.name

/-- The names in the code for a manifest: the modules that the module file declares, the methods
that the clients define, and the parameters of these. -/
def generatedNames (m : Manifest) : List String :=
  declaredModules (textOfLines (moduleLines m)) ++
    m.resources.flatMap fun r => definedNames r ++ parameterNames r

def ownNames (m : Manifest) : List String :=
  m.resources.flatMap fun r => r.module :: r.actions.flatMap fun a => a.name :: a.params

def commonNames : List String :=
  fixedNames ++ Verb.all.flatMap Verb.methods ++ ["criteria", "options", "id", "body"]

/-! ### Where names come from -/

/-- The methods of verbs share a few names of parameters. -/
theorem parameterNames_ofVerb {model n : String} {v : Verb} {m : Method}
    (hm : m ∈ Method.ofVerb model v) (hn : n ∈ m.params.map Parameter.name) :
    n ∈ ["criteria", "options", "id", "body"] := by
  have hnames : ∀ k ∈ Method.ofVerb model v, ∀ p ∈ k.params,
      p.name ∈ ["criteria", "options", "id", "body"] := by
    cases v <;> simp [Method.ofVerb, Parameter.criteria, Parameter.options, Parameter.id,
      Parameter.body]
  obtain ⟨p, hp, rfl⟩ := List.mem_map.1 hn
  exact hnames m hm p hp

theorem parameterNames_ofAction (a : Action) :
    (Method.ofAction a).params.map Parameter.name =
      a.params ++ (Method.extraParams a).map Parameter.name := by
  rw [Method.ofAction, List.map_append, List.map_map]
  exact congrArg (· ++ _) (List.map_id a.params)

theorem name_extraParams {a : Action} {n : String}
    (hn : n ∈ (Method.extraParams a).map Parameter.name) :
    n ∈ ["criteria", "options", "id", "body"] := by
  obtain ⟨p, hp, rfl⟩ := List.mem_map.1 hn
  rw [Method.extraParams] at hp
  split at hp
  · obtain rfl := List.mem_singleton.1 hp
    decide
  · split at hp
    · obtain rfl := List.mem_singleton.1 hp
      decide
    · cases hp

variable {m : Manifest} {n : String}

/-- A parameter has a common name or one from its action. -/
theorem mem_parameterNames {r : Resource} (hn : n ∈ parameterNames r) :
    n ∈ commonNames ∨ ∃ a ∈ r.actions, n ∈ a.params := by
  have hcommon : ∀ k ∈ ["criteria", "options", "id", "body"], k ∈ commonNames :=
    fun k hk => List.mem_append_right _ hk
  obtain ⟨k, hk, hn⟩ := List.mem_flatMap.1 hn
  rcases List.mem_append.1 hk with hk | hk
  · obtain ⟨v, -, hk⟩ := List.mem_flatMap.1 hk
    exact .inl (hcommon n (parameterNames_ofVerb hk hn))
  · obtain ⟨a, ha, rfl⟩ := List.mem_map.1 hk
    rw [parameterNames_ofAction] at hn
    rcases List.mem_append.1 hn with hn | hn
    · exact .inr ⟨a, ha, hn⟩
    · exact .inl (hcommon n (name_extraParams hn))

/-- The methods of a client are the fixed ones and those of the manifest. -/
theorem mem_definedNames_iff {r : Resource} (h : r.IsValid) :
    n ∈ definedNames r ↔ n ∈ fixedNames ∨ n ∈ r.methodNames := by
  rw [(definedNames_perm h).mem_iff, List.mem_append]

/-- A generated name is a common one or comes from the manifest. -/
theorem mem_generatedNames (h : m.IsValid) (hn : n ∈ generatedNames m) :
    n ∈ commonNames ∨ n ∈ ownNames m := by
  rcases List.mem_append.1 hn with hn | hn
  · rw [declaredModules_moduleFile h] at hn
    obtain ⟨r, hr, rfl⟩ := List.mem_map.1 hn
    exact .inr (List.mem_flatMap.2 ⟨r, hr, List.mem_cons_self⟩)
  obtain ⟨r, hr, hn⟩ := List.mem_flatMap.1 hn
  have hown : ∀ a ∈ r.actions, n ∈ a.name :: a.params → n ∈ ownNames m := fun a ha hmem =>
    List.mem_flatMap.2 ⟨r, hr, List.mem_cons_of_mem _ (List.mem_flatMap.2 ⟨a, ha, hmem⟩)⟩
  rcases List.mem_append.1 hn with hn | hn
  · rcases (mem_definedNames_iff (h.resources r hr)).1 hn with hn | hn
    · exact .inl (List.mem_append_left _ (List.mem_append_left _ hn))
    rcases List.mem_append.1 hn with hn | hn
    · obtain ⟨v, -, hv⟩ := List.mem_flatMap.1 hn
      have hverb := List.mem_flatMap.2 ⟨v, Verb.mem_all v, hv⟩
      exact .inl (List.mem_append_left _ (List.mem_append_right _ hverb))
    · obtain ⟨a, ha, rfl⟩ := List.mem_map.1 hn
      exact .inr (hown a ha List.mem_cons_self)
  · rcases mem_parameterNames hn with hn | ⟨a, ha, hn⟩
    · exact .inl hn
    · exact .inr (hown a ha (List.mem_cons_of_mem _ hn))

/-- Each name from the manifest is generated somewhere. -/
theorem mem_generatedNames_of_own (h : m.IsValid) (hn : n ∈ ownNames m) :
    n ∈ generatedNames m := by
  obtain ⟨r, hr, hn⟩ := List.mem_flatMap.1 hn
  rcases List.mem_cons.1 hn with rfl | hn
  · refine List.mem_append_left _ ?_
    rw [declaredModules_moduleFile h]
    exact List.mem_map_of_mem hr
  obtain ⟨a, ha, hn⟩ := List.mem_flatMap.1 hn
  refine List.mem_append_right _ (List.mem_flatMap.2 ⟨r, hr, ?_⟩)
  rcases List.mem_cons.1 hn with rfl | hn
  · have hname : a.name ∈ r.methodNames := List.mem_append_right _ (List.mem_map_of_mem ha)
    exact List.mem_append_left _ ((mem_definedNames_iff (h.resources r hr)).2 (.inr hname))
  · have hmethod : Method.ofAction a ∈ Method.ofResource r :=
      List.mem_append_right _ (List.mem_map_of_mem ha)
    refine List.mem_append_right _ (List.mem_flatMap.2 ⟨_, hmethod, ?_⟩)
    rw [parameterNames_ofAction]
    exact List.mem_append_left _ hn

/-! ### Keywords among them -/

/-- The common names are free. -/
theorem isFree_of_common (hn : n ∈ commonNames) : Name.IsFree n := by
  have hplain : ∀ k ∈ commonNames, Name.isPlainName k = true := by decide +kernel
  exact Name.isPlainName_iff.1 (hplain n hn)

/-- The rules for manifests leave only free names. -/
theorem isFree_of_own (h : m.IsValid) (hn : n ∈ ownNames m) : Name.IsFree n := by
  obtain ⟨r, hr, hn⟩ := List.mem_flatMap.1 hn
  have hvalid := h.resources r hr
  rcases List.mem_cons.1 hn with rfl | hn
  · exact (Name.isModule_snake hvalid.name).isFree hvalid.module
  obtain ⟨a, ha, hn⟩ := List.mem_flatMap.1 hn
  rcases List.mem_cons.1 hn with rfl | hn
  · exact (hvalid.actions a ha).name
  · exact ((hvalid.actions a ha).params n hn).1

/-- All names in the code for an accepted manifest are identifiers with a name of their own and none
is a word that the target language uses. They can be used if and only if they are none of the words
that it keeps for later; and only modules, actions and parameters of the manifest can be. -/
theorem generatedNames_usable_iff (hcheck : m.check = .ok ()) :
    (∀ n ∈ generatedNames m, Name.IsIdentifier n.toList ∧ n ≠ "_" ∧ n ∉ Name.strictKeywords ∧
      (Name.IsUsable n ↔ n ∉ Name.reservedKeywords)) ∧
    ((∀ n ∈ generatedNames m, Name.IsUsable n) ↔
      ∀ r ∈ m.resources, r.module ∉ Name.reservedKeywords ∧
        ∀ a ∈ r.actions, a.name ∉ Name.reservedKeywords ∧
          ∀ p ∈ a.params, p ∉ Name.reservedKeywords) := by
  have hvalid := Manifest.isValid_of_check hcheck
  have hfree : ∀ n ∈ generatedNames m, Name.IsFree n := fun n hn =>
    (mem_generatedNames hvalid hn).elim isFree_of_common (isFree_of_own hvalid)
  have hown : (∀ n ∈ generatedNames m, Name.IsUsable n) ↔
      ∀ n ∈ ownNames m, n ∉ Name.reservedKeywords := by
    constructor
    · intro husable n hn
      exact (husable n (mem_generatedNames_of_own hvalid hn)).reserved
    · intro hreserved n hn
      have hcommon : ∀ k ∈ commonNames, k ∉ Name.reservedKeywords := by decide +kernel
      refine (hfree n hn).isUsable_iff.2 ?_
      exact (mem_generatedNames hvalid hn).elim (hcommon n) (hreserved n)
  refine ⟨fun n hn => ?_, hown.trans ?_⟩
  · exact ⟨(hfree n hn).isIdentifier, (hfree n hn).1.1, (hfree n hn).notMem_strictKeywords,
      (hfree n hn).isUsable_iff⟩
  · simp only [ownNames, List.forall_mem_flatMap, List.forall_mem_cons]

def bordering : Manifest :=
  ⟨[⟨"BoX", "/boxes", none, [.get], [⟨"do_it", .post, some "do", ["try_", "__"], true, none⟩]⟩]⟩

/-- Names that hold a keyword, or nothing but underscores, can still be used. -/
theorem bordering_names_are_usable :
    bordering.check = .ok () ∧ (∀ n ∈ generatedNames bordering, Name.IsUsable n) ∧
      ["bo_x", "new", "inner", "get", "do_it", "id", "options", "try_", "__", "body"] =
        generatedNames bordering := by
  have hcheck : bordering.check = .ok () := by decide +kernel
  exact ⟨hcheck, (generatedNames_usable_iff hcheck).2.2 (by decide +kernel), by decide +kernel⟩

/-- A resource of which the module has the name of a word that is kept for later. -/
def boxed : Manifest := ⟨[⟨"Box", "/boxes", none, Verb.all, []⟩]⟩

/-- A type name that is no keyword can become one in small letters. -/
theorem boxed_declares_reserved_module :
    boxed.check = .ok () ∧ "box" ∈ generatedNames boxed ∧ ¬Name.IsUsable "box" := by
  have hreserved : "box" ∈ Name.reservedKeywords := by decide
  exact ⟨by decide +kernel, by decide +kernel, fun husable => husable.reserved hreserved⟩

end Facade

end ResourceApi
