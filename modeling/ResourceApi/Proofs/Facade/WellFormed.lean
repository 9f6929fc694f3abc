import ResourceApi.Facade.Standard
import ResourceApi.Proofs.Facade.Filling
import ResourceApi.Proofs.Facade.Modules
import ResourceApi.Proofs.Manifest.Characters

/-!
The files of accepted manifests are well formed, whatever the manifest says: by the characters of
its texts, each fits into the holes that are meant for it.
-/

namespace ResourceApi.Facade

def clientTexts (r : Resource) : Hole → List String
  | .name => [r.name]
  | .path => [r.path]
  | .model => r.model.toList
  | .action => r.actions.map Action.name
  | .segment => r.actions.filterMap Action.path
  | .parameter => r.actions.flatMap Action.params
  | .result => r.actions.filterMap Action.returns

/-- The module file has names of resources only, as they are or as names of modules. -/
def moduleTexts (m : Manifest) : Hole → List String
  | .name => m.resources.map Resource.name ++ m.resources.map Resource.module
  | _ => []

variable {texts : Hole → List String}

/-- The characters that may be put into a hole. -/
def Hole.allows : Hole → Char → Bool
  | .name | .action | .parameter => Name.isWordChar
  | .segment => Name.isSegmentChar
  | .path => fun c => Name.isSegmentChar c || c = '/'
  | .model | .result => Name.isTypeChar

/-- Whether a hole may stand where some signs must not. -/
def Hole.isSafe (stops : List Char) (k : Hole) : Bool :=
  ((stops ++ brackets).all fun c => !k.allows c) && !stops.contains k.sign

def AreAllowed (texts : Hole → List String) : Prop :=
  ∀ k, ∀ x ∈ texts k, ∀ c ∈ x.toList, k.allows c = true

/-- A text whose characters are allowed can be put into its hole. -/
theorem AreAllowed.within (h : AreAllowed texts) {stops : List Char} {k : Hole} {x : String}
    (hx : x ∈ texts k) (hk : k.isSafe stops = true) : Within texts stops k.mark x := by
  obtain ⟨hallows, hsign⟩ := Bool.and_eq_true_iff.1 hk
  intro stack
  refine .mark hx (by simpa using hsign) (fun c hc hmem => ?_) stack
  have hbad := List.all_eq_true.1 hallows c hmem
  rw [h k x hx c hc] at hbad
  cases hbad

theorem AreAllowed.brackets_notMem (h : AreAllowed texts) :
    ∀ k, ∀ x ∈ texts k, ∀ c ∈ x.toList, c ∉ brackets := by
  have hall : ∀ k ∈ Hole.all, (brackets.all fun c => !k.allows c) = true := by decide
  intro k x hx c hc hmem
  have hk : k ∈ Hole.all := by cases k <;> decide
  have hbad := List.all_eq_true.1 (hall k hk) c hmem
  rw [h k x hx c hc] at hbad
  cases hbad

/-- The rules for manifests leave only allowed characters in each place. -/
theorem areAllowed_clientTexts {r : Resource} (h : r.IsValid) : AreAllowed (clientTexts r) := by
  intro k x hx
  cases k with
  | name =>
    obtain rfl := List.mem_singleton.1 hx
    exact h.name.isWordChar
  | path =>
    obtain rfl := List.mem_singleton.1 hx
    exact h.path.isSegmentChar
  | model => exact (h.model x (Option.mem_toList.1 hx)).isTypeChar
  | action =>
    obtain ⟨a, ha, rfl⟩ := List.mem_map.1 hx
    exact (h.actions a ha).name.isWordChar
  | segment =>
    obtain ⟨a, ha, hpath⟩ := List.mem_filterMap.1 hx
    have hsegment := (h.actions a ha).segment
    rw [Action.segment, hpath] at hsegment
    exact hsegment.isSegmentChar
  | parameter =>
    obtain ⟨a, ha, hp⟩ := List.mem_flatMap.1 hx
    exact ((h.actions a ha).params x hp).1.isWordChar
  | result =>
    obtain ⟨a, ha, hreturns⟩ := List.mem_filterMap.1 hx
    exact ((h.actions a ha).returns x hreturns).isTypeChar

theorem fitsAction {r : Resource} (h : AreAllowed (clientTexts r)) {a : Action}
    (ha : a ∈ r.actions) : FitsAction (clientTexts r) a := by
  have hname : a.name ∈ clientTexts r .action := List.mem_map_of_mem ha
  have hparams : ∀ {stops : List Char}, Hole.parameter.isSafe stops = true →
      List.Forall₂ (Within (clientTexts r) stops) a.marked.params a.params := by
    intro stops hstops
    refine List.forall₂_map_left_iff.2 (List.forall₂_same.2 fun p hp => h.within ?_ hstops)
    exact List.mem_flatMap.2 ⟨a, ha, hp⟩
  have hsegment : ∀ {stops : List Char}, Hole.action.isSafe stops = true →
      Hole.segment.isSafe stops = true →
      Within (clientTexts r) stops a.marked.segment a.segment := by
    intro stops haction hstops
    cases hpath : a.path with
    | none =>
      simp only [Action.segment, Action.marked, hpath]
      exact h.within hname haction
    | some p =>
      simp only [Action.segment, Action.marked, hpath]
      exact h.within (List.mem_filterMap.2 ⟨a, ha, hpath⟩) hstops
  refine ⟨h.within hname (by decide), hsegment (by decide) (by decide), hparams (by decide), ?_,
    hsegment (by decide) (by decide), hparams (by decide)⟩
  cases hreturns : a.returns with
  | none =>
    simp only [Action.returnType, Action.marked, hreturns]
    exact .const (by decide)
  | some t =>
    simp only [Action.returnType, Action.marked, hreturns]
    exact h.within (List.mem_filterMap.2 ⟨a, ha, hreturns⟩) (by decide)

/-- A resource with allowed texts fits into the template of its client. -/
theorem fitsResource {r : Resource} (h : AreAllowed (clientTexts r)) :
    FitsResource (clientTexts r) r := by
  have hpath : r.path ∈ clientTexts r .path := List.mem_singleton_self _
  refine ⟨h.within (List.mem_singleton_self _) (by decide), h.within hpath (by decide),
    h.within hpath (by decide), ?_, fun a ha => fitsAction h ha⟩
  cases hmodel : r.model with
  | none =>
    simp only [Resource.modelType, Resource.marked, hmodel]
    exact .const (by decide)
  | some t =>
    simp only [Resource.modelType, Resource.marked, hmodel]
    exact h.within (Option.mem_toList.2 hmodel) (by decide)

/-! ### The module file -/

theorem areAllowed_moduleTexts {m : Manifest} (h : m.IsValid) : AreAllowed (moduleTexts m) := by
  intro k x hx
  cases k with
  | name =>
    rcases List.mem_append.1 hx with hx | hx
    · obtain ⟨r, hr, rfl⟩ := List.mem_map.1 hx
      exact (h.resources r hr).name.isWordChar
    · obtain ⟨r, hr, rfl⟩ := List.mem_map.1 hx
      have hmodule := (Name.isModule_snake (h.resources r hr).name).forall
      exact fun c hc => Name.isWordChar_of_snake (hmodule c hc)
  | _ => cases hx

/-- The module file is made of its template. -/
theorem filled_moduleLines {m : Manifest} (h : AreAllowed (moduleTexts m)) (stack : List Char) :
    Filled (moduleTexts m) (textOfLines (moduleLines m.marked)) (textOfLines (moduleLines m))
      [] stack stack := by
  have hmodule : ∀ r ∈ m.resources,
      Within (moduleTexts m) Mode.codeStops r.marked.module r.module := by
    intro r hr
    have hmarked : r.marked.module = Hole.name.mark := by
      have hmark : Name.snake Hole.name.mark = Hole.name.mark := by decide
      exact hmark
    rw [hmarked]
    exact h.within (List.mem_append_right _ (List.mem_map_of_mem hr)) (by decide)
  have hclient : ∀ r ∈ m.resources,
      Within (moduleTexts m) Mode.codeStops (clientName r.marked) (clientName r) := by
    intro r hr
    have hname : r.name ∈ moduleTexts m .name :=
      List.mem_append_left _ (List.mem_map_of_mem hr)
    exact (h.within hname (by decide)).append (.const (by decide))
  have hmods : ∀ stack, Filled (moduleTexts m)
      (textOfLines (m.marked.resources.map fun r => "pub mod " ++ r.module ++ ";"))
      (textOfLines (m.resources.map fun r => "pub mod " ++ r.module ++ ";")) [] stack stack := by
    intro stack
    rw [Manifest.marked, List.map_map]
    exact .lines_map fun r hr => (hmodule r hr).around (by decide) (by decide) rfl rfl
  have huses : ∀ stack, Filled (moduleTexts m)
      (textOfLines (m.marked.resources.map fun r =>
        "pub use " ++ r.module ++ "::" ++ clientName r ++ ";"))
      (textOfLines (m.resources.map fun r =>
        "pub use " ++ r.module ++ "::" ++ clientName r ++ ";")) [] stack stack := by
    intro stack
    rw [Manifest.marked, List.map_map]
    exact .lines_map fun r hr =>
      ((((Within.const (by decide)).append (hmodule r hr)).append (.const (by decide))).append
        (hclient r hr)).append (.const (by decide)) stack
  exact (FilledGroups.cons filled_header (.cons hmods (.cons huses .nil))).spaced stack

/-! ### All files -/

/-- Every file that is generated for an accepted manifest is well formed and made from its template:
each text of the manifest is in a hole for texts of its kind, where it opens and closes nothing, and
the strings are the path of the resource and the segments of its actions. -/
theorem files_areMade {m : Manifest} (hcheck : m.check = .ok ()) :
    generate m = .ok (files m) ∧ ∀ file ∈ files m,
      (∃ r ∈ m.resources, file.path = r.module ++ extension ∧
        IsMade (clientTexts r) (r.path :: r.actions.map Action.segment)
          (textOfLines (clientLines r.marked)) file.content) ∨
      file.path = moduleFile ∧
        IsMade (moduleTexts m) [] (textOfLines (moduleLines m.marked)) file.content := by
  have hvalid := Manifest.isValid_of_check hcheck
  refine ⟨generate_of_check hcheck, fun file hfile => ?_⟩
  rcases List.mem_append.1 hfile with hfile | hfile
  · obtain ⟨r, hr, rfl⟩ := List.mem_map.1 hfile
    have hallowed := areAllowed_clientTexts (hvalid.resources r hr)
    have hfilled := (fitsResource hallowed).clientLines []
    refine .inl ⟨r, hr, rfl, Filled.isMade ?_ hallowed.brackets_notMem⟩
    rw [List.map_cons, List.map_map]
    exact hfilled
  · obtain rfl := List.mem_singleton.1 hfile
    have hallowed := areAllowed_moduleTexts hvalid
    exact .inr ⟨rfl, (filled_moduleLines hallowed []).isMade hallowed.brackets_notMem⟩

/-- The client for items has three strings. -/
theorem items_file_isMade :
    Manifest.standard.check = .ok () ∧
      ∃ file ∈ files Manifest.standard, file.path = "item.rs" ∧
        IsMade (clientTexts Manifest.items) ["/items", "unitSets", "copy"]
          (textOfLines (clientLines Manifest.items.marked)) file.content := by
  have hcheck : Manifest.standard.check = .ok () := by decide +kernel
  have hmade := (files_areMade hcheck).2
  have hpaths : ∀ r ∈ Manifest.standard.resources, "item.rs" = r.module ++ extension →
      r = Manifest.items := by decide +kernel
  have hother : "item.rs" ≠ moduleFile := by decide
  have hpath : Manifest.items.module ++ extension = "item.rs" := by decide
  have hmem : ⟨Manifest.items.module ++ extension, textOfLines (clientLines Manifest.items)⟩ ∈
      files Manifest.standard := List.mem_append_left _ (List.mem_cons_self ..)
  refine ⟨hcheck, _, hmem, hpath, ?_⟩
  obtain ⟨r, hr, hpath', h⟩ | ⟨hpath', -⟩ := hmade _ hmem
  · obtain rfl := hpaths r hr (hpath.symm.trans hpath')
    exact h
  · exact absurd (hpath.symm.trans hpath') hother

end ResourceApi.Facade
