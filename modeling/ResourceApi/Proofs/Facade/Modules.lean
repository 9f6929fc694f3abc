import ResourceApi.Proofs.Facade.TypeNames

/-!
The files that are generated for a manifest, by their names, and the module file, read from its
text. Every resource has a file of its own, which the module file declares as a module.
-/

namespace ResourceApi

namespace Name

/-- A small letter, then small letters, digits and underscores. -/
def IsModule (s : String) : Prop :=
  IsWordOf (·.isLower = true) (fun c => c.isLower = true ∨ c.isDigit = true ∨ c = '_') s.toList

theorem isLower_toLower {c : Char} (h : c.isUpper = true) : c.toLower.isLower = true := by
  have hcapital : 'A'.val ≤ c.val ∧ c.val ≤ 'Z'.val := of_decide_eq_true h
  have hsmall : c.toLower.val = c.val + 32 := congrArg Char.val (dif_pos hcapital)
  obtain ⟨hfirst, hlast⟩ := hcapital
  have hrange : 'a'.val ≤ c.toLower.val ∧ c.toLower.val ≤ 'z'.val := by
    rw [hsmall]
    simp only [UInt32.le_iff_toNat_le, UInt32.toNat_add, Char.reduceVal, UInt32.reduceToNat]
      at hfirst hlast ⊢
    omega
  exact Bool.and_eq_true_iff.2 ⟨decide_eq_true hrange.1, decide_eq_true hrange.2⟩

/-- Of letters and digits, small letters, digits and underscores are made. -/
theorem snakeFrom_chars {s : List Char} (h : ∀ c ∈ s, c.isAlphanum = true) (afterSmall : Bool) :
    ∀ c ∈ snakeFrom afterSmall s, c.isLower = true ∨ c.isDigit = true ∨ c = '_' := by
  induction s generalizing afterSmall with
  | nil => simp [snakeFrom]
  | cons c s ih =>
    obtain ⟨hc, hs⟩ := List.forall_mem_cons.1 h
    rw [snakeFrom]
    split
    · rename_i hupper
      have hmore : ∀ d ∈ c.toLower :: snakeFrom false s,
          d.isLower = true ∨ d.isDigit = true ∨ d = '_' :=
        List.forall_mem_cons.2 ⟨.inl (isLower_toLower hupper), ih hs false⟩
      split
      · exact List.forall_mem_cons.2 ⟨.inr (.inr rfl), hmore⟩
      · exact hmore
    · rename_i hupper
      refine List.forall_mem_cons.2 ⟨?_, ih hs _⟩
      exact (isAlphanum_iff.1 hc).elim (absurd · hupper) (Or.imp_right .inl)

theorem IsModule.forall {s : String} (h : IsModule s) :
    ∀ c ∈ s.toList, c.isLower = true ∨ c.isDigit = true ∨ c = '_' :=
  h.forall_later fun _ => .inl

/-- A capitalised name gives the name of a module. -/
theorem isModule_snake {s : String} (h : IsCapitalised s) : IsModule (snake s) := by
  rw [IsModule, snake, String.toList_ofList]
  rw [IsCapitalised] at h
  cases hs : s.toList with
  | nil =>
    rw [hs] at h
    cases h
  | cons c rest =>
    rw [hs] at h
    rw [snakeFrom, if_pos h.1]
    exact ⟨isLower_toLower h.1, snakeFrom_chars h.2 false⟩

end Name

namespace Facade

/-! ### Reading the module file -/

/-- The lines of a text, with what stands behind the last end of a line. -/
def linesOf (text : String) : List String := (text.toList.splitOn '\n').map String.ofList

def upToSemicolon (s : List Char) : List String := [String.ofList (s.takeWhile (· ≠ ';'))]

def declaredModules (text : String) : List String :=
  (linesOf text).flatMap (namesBehind "pub mod " upToSemicolon)

def exportedPaths (text : String) : List String :=
  (linesOf text).flatMap (namesBehind "pub use " upToSemicolon)

theorem splitOn_append_cons (x : Char) (s t : List Char) :
    (s ++ x :: t).splitOn x = s.splitOn x ++ t.splitOn x :=
  List.splitOnP_append_cons _ _ (beq_self_eq_true x)

/-- Lines that were put together are the lines of the text. -/
theorem linesOf_textOfLines {ls : List String} (h : ∀ l ∈ ls, '\n' ∉ l.toList) :
    linesOf (textOfLines ls) = ls ++ [""] := by
  induction ls with
  | nil => rfl
  | cons l ls ih =>
    obtain ⟨hl, hls⟩ := List.forall_mem_cons.1 h
    have htext : (textOfLines (l :: ls)).toList =
        l.toList ++ '\n' :: (textOfLines ls).toList := by
      simp [textOfLines]
    have hsplit : (textOfLines (l :: ls)).toList.splitOn '\n' =
        l.toList :: (textOfLines ls).toList.splitOn '\n' := by
      rw [htext, splitOn_append_cons, List.splitOn_eq_singleton hl, List.singleton_append]
    rw [linesOf, hsplit, List.map_cons, ← linesOf, ih hls, String.ofList_toList, List.cons_append]

/-! ### The text of the module file -/

variable {m : Manifest}

theorem newline_notMem_moduleLines (h : m.IsValid) :
    ∀ line ∈ moduleLines m, '\n' ∉ line.toList := by
  have hmodule : ∀ r ∈ m.resources, '\n' ∉ r.module.toList := fun r hr hmem =>
    absurd ((Name.isModule_snake (h.resources r hr).name).forall '\n' hmem) (by decide)
  have hclient : ∀ r ∈ m.resources, '\n' ∉ (clientName r).toList := fun r hr hmem =>
    absurd (isWordChar_clientName (h.resources r hr).name '\n' hmem) (by decide)
  intro line hline
  simp only [moduleLines, spaced, List.intercalate_cons_cons, List.intercalate_singleton,
    List.mem_append, List.mem_singleton, List.mem_map] at hline
  rcases hline with (rfl | rfl) | ((⟨r, hr, rfl⟩ | rfl) | ⟨r, hr, rfl⟩)
  · decide
  · decide
  · simp [String.toList_append, hmodule r hr]
  · decide
  · simp [String.toList_append, hmodule r hr, hclient r hr]

theorem namesBehind_upToSemicolon (start : String) {path : String} (h : ';' ∉ path.toList) :
    namesBehind start upToSemicolon (start ++ path ++ ";") = [path] := by
  have htake : (path ++ ";").toList.takeWhile (· ≠ ';') = path.toList := by
    rw [String.toList_append,
      List.takeWhile_append_of_pos fun c hc => by simpa using ne_of_mem_of_not_mem hc h]
    simp
  rw [String.append_assoc, namesBehind_start, upToSemicolon, htake, String.ofList_toList]

/-- What is read off the lines of the module file, group by group. -/
theorem flatMap_linesOf_moduleFile (h : m.IsValid) {start : String}
    {read : List Char → List String} (hheader : namesBehind start read header = [])
    (hempty : namesBehind start read "" = []) :
    (linesOf (textOfLines (moduleLines m))).flatMap (namesBehind start read) =
      m.resources.flatMap (fun r => namesBehind start read ("pub mod " ++ r.module ++ ";")) ++
        m.resources.flatMap fun r =>
          namesBehind start read ("pub use " ++ (r.module ++ "::" ++ clientName r) ++ ";") := by
  have hassoc : ∀ r : Resource, "pub use " ++ r.module ++ "::" ++ clientName r ++ ";" =
      "pub use " ++ (r.module ++ "::" ++ clientName r) ++ ";" := by
    intro r
    simp only [String.append_assoc]
  rw [linesOf_textOfLines (newline_notMem_moduleLines h), List.flatMap_append, moduleLines,
    flatMap_spaced hempty]
  simp [List.flatMap_map, hheader, hempty, hassoc]

theorem semicolon_notMem_module {r : Resource} (h : r.IsValid) : ';' ∉ r.module.toList :=
  fun hmem => absurd ((Name.isModule_snake h.name).forall ';' hmem) (by decide)

/-- The module file declares the modules of the resources, in their order. -/
theorem declaredModules_moduleFile (h : m.IsValid) :
    declaredModules (textOfLines (moduleLines m)) = m.resources.map Resource.module := by
  have hmods : ∀ r ∈ m.resources,
      namesBehind "pub mod " upToSemicolon ("pub mod " ++ r.module ++ ";") = [r.module] :=
    fun r hr => namesBehind_upToSemicolon _ (semicolon_notMem_module (h.resources r hr))
  have huses : ∀ r ∈ m.resources, namesBehind "pub mod " upToSemicolon
      ("pub use " ++ (r.module ++ "::" ++ clientName r) ++ ";") = [] := by
    intro r _
    rw [String.append_assoc]
    exact namesBehind_of_differ (by decide) _
  rw [declaredModules, flatMap_linesOf_moduleFile h (by decide) rfl, List.flatMap_congr hmods,
    List.flatMap_eq_nil_iff.2 huses, ← List.map_eq_flatMap, List.append_nil]

/-- The module file passes on the client of each module. -/
theorem exportedPaths_moduleFile (h : m.IsValid) :
    exportedPaths (textOfLines (moduleLines m)) =
      m.resources.map fun r => r.module ++ "::" ++ clientName r := by
  have hmods : ∀ r ∈ m.resources,
      namesBehind "pub use " upToSemicolon ("pub mod " ++ r.module ++ ";") = [] := by
    intro r _
    rw [String.append_assoc]
    exact namesBehind_of_differ (by decide) _
  have huses : ∀ r ∈ m.resources, namesBehind "pub use " upToSemicolon
      ("pub use " ++ (r.module ++ "::" ++ clientName r) ++ ";") =
        [r.module ++ "::" ++ clientName r] := by
    intro r hr
    have hclient : ';' ∉ (clientName r).toList := fun hmem =>
      absurd (isWordChar_clientName (h.resources r hr).name ';' hmem) (by decide)
    refine namesBehind_upToSemicolon _ ?_
    simp [String.toList_append, semicolon_notMem_module (h.resources r hr), hclient]
  rw [exportedPaths, flatMap_linesOf_moduleFile h (by decide) rfl, List.flatMap_eq_nil_iff.2 hmods,
    List.flatMap_congr huses, ← List.map_eq_flatMap, List.nil_append]

/-! ### All files -/

/-- A manifest that passes the check has its files. -/
theorem generate_of_check (h : m.check = .ok ()) : generate m = .ok (files m) := by
  rw [generate, h]
  rfl

/-- Files for a manifest: one for each resource, in its order, and last the module file, under
names of their own. The module file declares the others and passes on their clients, each once. -/
structure AreLaidOut (m : Manifest) (fs : List SourceFile) : Prop where
  names : fs.map SourceFile.path =
    m.resources.map (fun r => r.module ++ extension) ++ [moduleFile]
  modules : ∀ r ∈ m.resources, Name.IsModule r.module
  distinct : (fs.map SourceFile.path).Nodup
  contents : ∃ text, fs.getLast? = some ⟨moduleFile, text⟩ ∧
    declaredModules text = m.resources.map Resource.module ∧ (declaredModules text).Nodup ∧
    exportedPaths text = m.resources.map (fun r => r.module ++ "::" ++ clientName r) ∧
    (m.resources.map clientName).Nodup

/-- The files of a valid manifest are one for each resource and the module file. -/
theorem areLaidOut_files (h : m.IsValid) : AreLaidOut m (files m) := by
  have hnames : (files m).map SourceFile.path =
      m.resources.map (fun r => r.module ++ extension) ++ [moduleFile] := by
    simp [files, Function.comp_def]
  have hmodules := declaredModules_moduleFile h
  refine ⟨hnames, fun r hr => Name.isModule_snake (h.resources r hr).name, ?_, ?_⟩
  · have hother : ∀ r ∈ m.resources, r.module ++ extension ≠ moduleFile := by
      intro r hr hclash
      have hkeyword : "mod" ∈ Name.keywords := by decide
      rw [moduleFile, String.append_left_inj] at hclash
      exact (h.resources r hr).module (hclash ▸ hkeyword)
    have hfiles : (m.resources.map fun r => r.module ++ extension) =
        (m.resources.map Resource.module).map (· ++ extension) := by
      rw [List.map_map]
      rfl
    have hdistinct : (m.resources.map fun r => r.module ++ extension).Nodup := by
      rw [hfiles]
      exact h.modules.map fun _ _ => (String.append_left_inj extension).1
    rw [hnames, List.nodup_append]
    refine ⟨hdistinct, List.nodup_singleton _, ?_⟩
    simpa using hother
  · refine ⟨_, List.getLast?_concat, hmodules, ?_, exportedPaths_moduleFile h,
      nodup_clientNames h⟩
    rw [hmodules]
    exact h.modules

/-- File names are single names, and no dots alone. -/
theorem path_of_mem_files (h : m.IsValid) {file : SourceFile} (hfile : file ∈ files m) :
    '/' ∉ file.path.toList ∧ 2 < file.path.length := by
  rcases List.mem_append.1 hfile with hfile | hfile
  · obtain ⟨r, hr, rfl⟩ := List.mem_map.1 hfile
    have hmodule : '/' ∉ r.module.toList := fun hmem =>
      absurd ((Name.isModule_snake (h.resources r hr).name).forall '/' hmem) (by decide)
    have hextension : '/' ∉ extension.toList ∧ extension.length = 3 := by decide
    refine ⟨?_, ?_⟩
    · simp [String.toList_append, hmodule, hextension.1]
    · rw [String.length_append, hextension.2]
      omega
  · obtain rfl := List.mem_singleton.1 hfile
    have hmodules : '/' ∉ moduleFile.toList ∧ 2 < moduleFile.length := by decide
    exact hmodules

end Facade

end ResourceApi
