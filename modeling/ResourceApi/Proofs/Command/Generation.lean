import ResourceApi.Command.Generator
import ResourceApi.Proofs.Command.ContextFile
import ResourceApi.Proofs.Facade.Modules

/-!
The generator and the files. It changes nothing unless its manifest is accepted; then it writes
every generated file under a name of its own and leaves all other texts as they were.
-/

namespace ResourceApi.Command

/-! ### Paths -/

namespace Route

/-- A name that is no dots leads on by this name. -/
theorem follow_name {name : String} (h : 2 < name.length) (route : Route) :
    route.follow name = route ++ [name] := by
  have hshort : ∀ other ∈ ["", ".", ".."], ¬2 < other.length := by decide
  have hne : ∀ other ∈ ["", ".", ".."], name ≠ other := by
    rintro _ hother rfl
    exact hshort _ hother h
  simp only [List.forall_mem_cons] at hne
  simp [follow, hne]

@[simp] theorem follow_empty (route : Route) : route.follow "" = route := by
  simp [follow]

def start (path : List Char) : Route := if path.head? = some '/' then ["/"] else []

theorem ofText_eq (path : String) : ofText path =
    ((path.toList.splitOn '/').map String.ofList).foldl follow (start path.toList) := rfl

/-- Going on from a folder that is written with a slash at its end. -/
theorem ofText_slash_append (path : String) {name : String} (hslash : '/' ∉ name.toList)
    (hname : 2 < name.length) : ofText (path ++ "/" ++ name) = ofText (path ++ "/") ++ [name] := by
  have htext : (path ++ "/" ++ name).toList = path.toList ++ '/' :: name.toList := by
    simp [String.toList_append]
  have hfolder : (path ++ "/").toList = path.toList ++ '/' :: [] := by
    simp [String.toList_append]
  have hstart : start (path.toList ++ '/' :: name.toList) = start (path.toList ++ '/' :: []) := by
    cases path.toList <;> rfl
  rw [ofText_eq, ofText_eq, htext, hfolder, hstart, Facade.splitOn_append_cons,
    Facade.splitOn_append_cons, List.splitOn_eq_singleton hslash]
  simp [follow_name hname]

/-- A slash at the end of a path leads nowhere. -/
theorem ofText_append_slash {path : String} (hpath : path ≠ "") :
    ofText (path ++ "/") = ofText path := by
  have hfolder : (path ++ "/").toList = path.toList ++ '/' :: [] := by
    simp [String.toList_append]
  have hstart : start (path.toList ++ '/' :: []) = start path.toList := by
    rw [start, List.head?_append_of_ne_nil _ (by simpa using hpath), start]
  rw [ofText_eq, ofText_eq, hfolder, hstart, Facade.splitOn_append_cons]
  simp

/-- A name without slashes is a way of one step. -/
theorem ofText_name {name : String} (hslash : '/' ∉ name.toList) (hname : 2 < name.length) :
    ofText name = [name] := by
  have hstart : start name.toList = [] := by
    rw [start, if_neg]
    exact fun hhead => hslash (List.mem_of_head? hhead)
  rw [ofText_eq, hstart, List.splitOn_eq_singleton hslash]
  simp [follow_name hname]

end Route

/-! ### Files in one folder -/

namespace Files

variable {f f' : Files} {folder r : Route} {name text : String} {names : List String}

theorem read_eq_ok : f.read r = .ok text ↔ Ordered.get? r f.texts = some text := by
  rw [read]
  cases Ordered.get? r f.texts with
  | some t => simp
  | none => cases f.isBlocked r <;> cases f.isFolder r <;> simp

theorem any_keys_put_of_any {p : Route → Bool} {texts : List (Route × String)}
    (h : (Ordered.keys texts).any p = true) :
    (Ordered.keys (Ordered.put r text texts)).any p = true := by
  rw [Ordered.keys_put]
  split
  · exact h
  · rw [List.any_append, h, Bool.true_or]

theorem isFolder_write (h : f.isFolder r = true) (hw : f.write folder text = .ok f') :
    f'.isFolder r = true := by
  obtain rfl := write_cases hw
  rw [isFolder, Bool.or_eq_true] at h ⊢
  exact h.imp_right any_keys_put_of_any

/-- Where a file could be written, there is a place for it. -/
theorem isFree_of_write (h : f.write r text = .ok f') : f.IsFree r := by
  rw [write] at h
  split at h
  · cases h
  · rename_i hway
    split at h
    · cases h
    · rename_i hfolder
      exact ⟨Bool.eq_false_iff.2 hfolder, Bool.eq_false_iff.2 hway⟩

/-- Writing a file leaves room for others beside it. -/
theorem IsFree.write_beside (h : f.IsFree (folder ++ [name])) {other : String}
    (hw : f.write (folder ++ [other]) text = .ok f') : f'.IsFree (folder ++ [name]) := by
  have hbelow : ∀ a b : String, isBelow (folder ++ [a]) (folder ++ [b]) = false := by
    simp [isBelow]
  obtain rfl := write_cases hw
  constructor
  · rw [← h.folder, isFolder,
      any_keys_put (p := fun r => isBelow r (folder ++ [name])) (hbelow _ _)]
    rfl
  · rw [← h.way, isBlocked, any_keys_put (p := fun r => isBelow (folder ++ [name]) r) (hbelow _ _)]
    rfl

/-- A folder into which files of these names can be written. -/
structure Takes (f : Files) (folder : Route) (names : List String) : Prop where
  there : f.isFolder folder = true
  free : ∀ name ∈ names, f.IsFree (folder ++ [name])

/-- A folder takes files one after the other. -/
theorem Takes.write (h : f.Takes folder names) (hname : name ∈ names) (text : String) :
    ∃ f', f.write (folder ++ [name]) text = .ok f' ∧ f'.Takes folder names := by
  have hfolder : f.isFolder (folder ++ [name]).dropLast = true := by
    rw [List.dropLast_concat]
    exact h.there
  obtain ⟨f', hw⟩ := (h.free name hname).exists_write hfolder text
  refine ⟨f', hw, isFolder_write h.there hw, fun other hother => ?_⟩
  exact (h.free other hother).write_beside hw

end Files

namespace Generation

/-- A generated file lies in the output folder, however that is written. -/
theorem ofText_outputPath (g : Generation) {name : String} (hslash : '/' ∉ name.toList)
    (hname : 2 < name.length) :
    Route.ofText (g.outputPath name) = Route.ofText g.output ++ [name] := by
  rw [outputPath]
  split
  · rename_i hend
    cases hlast : g.output.toList.getLast? with
    | none =>
      have houtput : g.output = "" := by simpa using hlast
      rw [houtput, String.empty_append, Route.ofText_name hslash hname]
      rfl
    | some c =>
      obtain rfl : c = '/' := by simpa [hlast] using hend
      obtain ⟨path, hpath⟩ := List.getLast?_eq_some_iff.1 hlast
      have houtput : g.output = String.ofList path ++ "/" := by
        rw [← String.toList_inj, hpath, String.toList_append, String.toList_ofList]
        rfl
      rw [houtput, Route.ofText_slash_append _ hslash hname]
  · rename_i hend
    have houtput : g.output ≠ "" := by
      intro hempty
      simp [hempty] at hend
    rw [Route.ofText_slash_append _ hslash hname, Route.ofText_append_slash houtput]

variable {g : Generation} {w : World} {f : Files} {names : List String}

def place (g : Generation) (file : Facade.SourceFile) : Route :=
  Route.ofText (g.outputPath file.path)

/-- All texts after generated files were put among them. -/
def putFiles (g : Generation) (fs : List Facade.SourceFile) (texts : List (Route × String)) :
    List (Route × String) :=
  fs.foldl (fun texts file => Ordered.put (g.place file) file.content texts) texts

/-- A place to which no generated file goes keeps its text. -/
theorem get?_putFiles_of_notMem {fs : List Facade.SourceFile} {r : Route}
    (h : r ∉ fs.map g.place) (texts : List (Route × String)) :
    Ordered.get? r (g.putFiles fs texts) = Ordered.get? r texts := by
  induction fs generalizing texts with
  | nil => rfl
  | cons file fs ih =>
    obtain ⟨hne, hfs⟩ := not_or.1 (mt List.mem_cons.2 h)
    rw [putFiles, List.foldl_cons, ← putFiles, ih hfs, Ordered.get?_put, if_neg (Ne.symm hne)]

/-- Each generated file is found at its place, with its content. -/
theorem get?_putFiles {fs : List Facade.SourceFile} (hdistinct : (fs.map g.place).Nodup)
    {file : Facade.SourceFile} (hfile : file ∈ fs) (texts : List (Route × String)) :
    Ordered.get? (g.place file) (g.putFiles fs texts) = some file.content := by
  induction fs generalizing texts with
  | nil => cases hfile
  | cons first fs ih =>
    obtain ⟨hnew, hdistinct⟩ := List.nodup_cons.1 hdistinct
    rw [putFiles, List.foldl_cons, ← putFiles]
    rcases List.mem_cons.1 hfile with rfl | hfile
    · rw [get?_putFiles_of_notMem hnew, Ordered.get?_put, if_pos rfl]
    · exact ih hdistinct hfile _

/-- Putting files that are there already changes nothing. -/
theorem putFiles_eq_self {fs : List Facade.SourceFile} {texts : List (Route × String)}
    (h : ∀ file ∈ fs, Ordered.get? (g.place file) texts = some file.content) :
    g.putFiles fs texts = texts := by
  induction fs with
  | nil => rfl
  | cons file fs ih =>
    obtain ⟨hfile, hfs⟩ := List.forall_mem_cons.1 h
    rw [putFiles, List.foldl_cons, Ordered.put_eq_self hfile]
    exact ih hfs

def written (g : Generation) (fs : List Facade.SourceFile) (f : Files) : Files :=
  { f with texts := g.putFiles fs f.texts }

/-- Files that belong directly into the output folder are written one after another. -/
theorem runIn_writeFiles {fs : List Facade.SourceFile}
    (hplace : ∀ file ∈ fs, g.place file = Route.ofText g.output ++ [file.path])
    (hnames : ∀ file ∈ fs, file.path ∈ names)
    (h : w.files.Takes (Route.ofText g.output) names) :
    (g.writeFiles fs).runIn w = (.ok (), { w with files := g.written fs w.files }) ∧
      (g.written fs w.files).Takes (Route.ofText g.output) names := by
  induction fs generalizing w with
  | nil => exact ⟨rfl, h⟩
  | cons file fs ih =>
    obtain ⟨hfile, hfs⟩ := List.forall_mem_cons.1 hplace
    obtain ⟨hname, hnames⟩ := List.forall_mem_cons.1 hnames
    obtain ⟨f, hwrite, htakes⟩ := h.write hname file.content
    obtain ⟨hrun, hlater⟩ := ih hfs hnames (w := { w with files := f }) htakes
    have hwritten : g.written fs f = g.written (file :: fs) w.files := by
      rw [Files.write_cases hwrite, ← hfile]
      rfl
    rw [hwritten] at hlater
    refine ⟨?_, hlater⟩
    rw [← hfile] at hwrite
    have hstep : (g.writeFile file).runIn w = (.ok (), { w with files := f }) := by
      rw [writeFile, Job.runIn_changeFiles, ← place, hwrite]
    rw [writeFiles, Job.runIn_bind, hstep, ← hwritten]
    exact hrun

/-! ### Whole runs -/

/-- A manifest that the generator reads and that passes the check. -/
def Accepts (g : Generation) (f : Files) (m : Manifest) : Prop :=
  ∃ text, f.read (Route.ofText g.input) = .ok text ∧ Manifest.ofText? text = some m ∧
    m.check = .ok ()

/-- What the generator accepts keeps all rules of manifests. -/
theorem Accepts.isValid {m : Manifest} (h : g.Accepts f m) : m.IsValid := by
  obtain ⟨-, -, -, hcheck⟩ := h
  exact Manifest.isValid_of_check hcheck

/-- What the generator accepts has files. -/
theorem Accepts.generate {m : Manifest} (h : g.Accepts f m) :
    Facade.generate m = .ok (Facade.files m) := by
  obtain ⟨-, -, -, hcheck⟩ := h
  exact Facade.generate_of_check hcheck

/-- What is accepted depends on one text only. -/
theorem Accepts.of_get? {f' : Files} {m : Manifest} (h : g.Accepts f m)
    (hinput : Ordered.get? (Route.ofText g.input) f'.texts =
      Ordered.get? (Route.ofText g.input) f.texts) : g.Accepts f' m := by
  obtain ⟨text, hread, haccepted⟩ := h
  refine ⟨text, ?_, haccepted⟩
  rw [Files.read_eq_ok, hinput]
  exact Files.read_eq_ok.1 hread

/-- Without a manifest that is accepted the generator fails and changes nothing. -/
theorem runIn_run_of_refuses (h : ∀ m, ¬g.Accepts w.files m) :
    ∃ e, g.run.runIn w = (.error e, w) := by
  cases hread : w.files.read (Route.ofText g.input) with
  | error e => exact ⟨.fileAt "reading" g.input, by simp [run, hread]⟩
  | ok text =>
    cases hmanifest : Manifest.ofText? text with
    | none => exact ⟨.unreadableManifest, by simp [run, hread, hmanifest]⟩
    | some m =>
      cases hcheck : m.check with
      | ok => exact absurd ⟨text, hread, hmanifest, hcheck⟩ (h m)
      | error e =>
        have hgenerate : Facade.generate m = .error e := by rw [Facade.generate, hcheck]; rfl
        exact ⟨.badManifest e, by simp [run, hread, hmanifest, hgenerate]⟩

variable {m : Manifest}

/-- A generated file goes right into the output folder. -/
theorem place_eq (hm : m.IsValid) :
    ∀ file ∈ Facade.files m, g.place file = Route.ofText g.output ++ [file.path] := by
  intro file hfile
  obtain ⟨hslash, hlength⟩ := Facade.path_of_mem_files hm hfile
  exact g.ofText_outputPath hslash hlength

/-- No two generated files go to the same place. -/
theorem nodup_places (hm : m.IsValid) : ((Facade.files m).map g.place).Nodup := by
  have hplaces : (Facade.files m).map g.place =
      ((Facade.files m).map Facade.SourceFile.path).map (Route.ofText g.output ++ [·]) := by
    rw [List.map_map]
    exact List.map_congr_left (place_eq hm)
  rw [hplaces]
  refine (Facade.areLaidOut_files hm).distinct.map fun a b hab => ?_
  simpa using hab

/-- With an accepted manifest, a run makes the folder and writes the files. -/
theorem runIn_run_of_takes (h : g.Accepts w.files m)
    (hfolder : w.files.makeFolder (Route.ofText g.output) = .ok f)
    (htakes : f.Takes (Route.ofText g.output) ((Facade.files m).map Facade.SourceFile.path)) :
    g.run.runIn w = (.ok "", { w with files := g.written (Facade.files m) f }) ∧
      (g.written (Facade.files m) f).Takes (Route.ofText g.output)
        ((Facade.files m).map Facade.SourceFile.path) := by
  have hgenerate := h.generate
  obtain ⟨hfiles, hlater⟩ := runIn_writeFiles (w := { w with files := f }) (place_eq h.isValid)
    (fun file hfile => List.mem_map_of_mem hfile) htakes
  obtain ⟨text, hread, hmanifest, -⟩ := h
  refine ⟨?_, hlater⟩
  simp only [run, Job.runIn_bind, Job.runIn_files, Job.runIn_ofExcept, Job.runIn_ofOption,
    Job.runIn_changeFiles, Job.runIn_pure, hread, hmanifest, hgenerate, hfolder, hfiles]

/-- Once the output folder is there, each generated file can be written for itself. -/
def CanWrite (g : Generation) (f : Files) (fs : List Facade.SourceFile) : Prop :=
  ∃ f', f.makeFolder (Route.ofText g.output) = .ok f' ∧
    ∀ file ∈ fs, ∃ f'', f'.write (g.place file) file.content = .ok f''

/-- Once the output folder is made, it takes all generated files. -/
theorem exists_takes (hm : m.IsValid) (h : g.CanWrite f (Facade.files m)) :
    ∃ f', f.makeFolder (Route.ofText g.output) = .ok f' ∧ f'.texts = f.texts ∧
      f'.Takes (Route.ofText g.output) ((Facade.files m).map Facade.SourceFile.path) := by
  obtain ⟨f', hf', hwrites⟩ := h
  refine ⟨f', hf', Files.makeFolder_texts hf', Files.makeFolder_makes hf', fun name hname => ?_⟩
  obtain ⟨file, hfile, rfl⟩ := List.mem_map.1 hname
  obtain ⟨f'', hwrite⟩ := hwrites file hfile
  rw [← place_eq hm file hfile]
  exact Files.isFree_of_write hwrite

/-- Where the files are written already, a run leaves everything as it is. -/
theorem runIn_run_again (h : g.Accepts w.files m)
    (htakes : w.files.Takes (Route.ofText g.output) ((Facade.files m).map Facade.SourceFile.path))
    (hstored : ∀ file ∈ Facade.files m,
      Ordered.get? (g.place file) w.files.texts = some file.content) :
    g.run.runIn w = (.ok "", w) := by
  have hfolder : w.files.makeFolder (Route.ofText g.output) = .ok w.files := by
    rw [Files.makeFolder, if_pos htakes.there]
  rw [(runIn_run_of_takes h hfolder htakes).1, written, putFiles_eq_self hstored]

/-- A generation is all or nothing. Without an accepted manifest nothing changes. With one, all
files have names of their own; if each of them can be written, it then holds its text, all other
texts stay, and a further run changes nothing, unless the first has overwritten the manifest. -/
theorem run_is_all_or_nothing (g : Generation) (w : World) :
    ((∀ m, ¬g.Accepts w.files m) → ∃ e, g.run.runIn w = (.error e, w)) ∧
    ∀ m, g.Accepts w.files m →
      Facade.generate m = .ok (Facade.files m) ∧ Facade.AreLaidOut m (Facade.files m) ∧
      (∀ file ∈ Facade.files m, g.place file = Route.ofText g.output ++ [file.path]) ∧
      (g.CanWrite w.files (Facade.files m) →
        ∃ f : Files, g.run.runIn w = (.ok "", { w with files := f }) ∧
          (∀ file ∈ Facade.files m, f.read (g.place file) = .ok file.content) ∧
          (∀ r, r ∉ (Facade.files m).map g.place →
            Ordered.get? r f.texts = Ordered.get? r w.files.texts) ∧
          (Route.ofText g.input ∉ (Facade.files m).map g.place →
            g.run.runIn { w with files := f } = (.ok "", { w with files := f }))) := by
  refine ⟨runIn_run_of_refuses, fun m haccepts => ?_⟩
  have hm := haccepts.isValid
  refine ⟨haccepts.generate, Facade.areLaidOut_files hm, place_eq hm, fun hwrites => ?_⟩
  obtain ⟨f, hfolder, htexts, htakes⟩ := exists_takes hm hwrites
  obtain ⟨hrun, hlater⟩ := runIn_run_of_takes haccepts hfolder htakes
  have hstored : ∀ file ∈ Facade.files m,
      Ordered.get? (g.place file) (g.written (Facade.files m) f).texts = some file.content :=
    fun file hfile => get?_putFiles (nodup_places hm) hfile _
  have hother : ∀ r, r ∉ (Facade.files m).map g.place →
      Ordered.get? r (g.written (Facade.files m) f).texts = Ordered.get? r w.files.texts := by
    intro r hr
    rw [written, get?_putFiles_of_notMem hr, htexts]
  refine ⟨_, hrun, fun file hfile => Files.read_eq_ok.2 (hstored file hfile), hother, ?_⟩
  exact fun hinput => runIn_run_again (haccepts.of_get? (hother _ hinput)) hlater hstored

/-- A folder with a manifest of one resource, and with a client from an earlier run. -/
def oneResource : World where
  files :=
    { texts := [(["api.toml"], "[[resource]]\nname = \"Item\"\npath = \"/items\"\n"),
        (["out", "item.rs"], "")]
      made := [] }
  network := .isolated

/-- A file that was there is replaced, and the manifest beside it stays. -/
theorem oneResource_generates :
    ∃ f : Files, (Generation.mk "api.toml" "out/").run.runIn oneResource =
        (.ok "", { oneResource with files := f }) ∧
      (∃ text, f.read ["out", "item.rs"] = .ok text) ∧
      (∃ text, f.read ["out", "mod.rs"] = .ok text) ∧
      (Generation.mk "api.toml" "out/").run.runIn { oneResource with files := f } =
        (.ok "", { oneResource with files := f }) := by
  let g : Generation := ⟨"api.toml", "out/"⟩
  let m : Manifest := ⟨[⟨"Item", "/items", none, Verb.all, []⟩]⟩
  have haccepts : g.Accepts oneResource.files m :=
    ⟨"[[resource]]\nname = \"Item\"\npath = \"/items\"\n", by decide +kernel,
      by decide +kernel, by decide +kernel⟩
  have hplaces : (Facade.files m).map g.place = [["out", "item.rs"], ["out", "mod.rs"]] := by
    decide +kernel
  have hfolder : oneResource.files.makeFolder (Route.ofText g.output) = .ok oneResource.files := by
    decide +kernel
  have hwrites : ∀ file ∈ Facade.files m,
      ∃ f, oneResource.files.write (g.place file) file.content = .ok f := by
    have hall : ∀ file ∈ Facade.files m,
        (oneResource.files.write (g.place file) file.content).isOk = true := by
      decide +kernel
    intro file hfile
    have hwrite := hall file hfile
    cases hresult : oneResource.files.write (g.place file) file.content with
    | ok f => exact ⟨f, rfl⟩
    | error e =>
      rw [hresult] at hwrite
      cases hwrite
  obtain ⟨-, -, -, hrun⟩ := (run_is_all_or_nothing g oneResource).2 m haccepts
  obtain ⟨f, hfirst, hstored, -, hagain⟩ := hrun ⟨_, hfolder, hwrites⟩
  have htext : ∀ r ∈ (Facade.files m).map g.place, ∃ text, f.read r = .ok text := by
    intro r hr
    obtain ⟨file, hfile, rfl⟩ := List.mem_map.1 hr
    exact ⟨file.content, hstored file hfile⟩
  rw [hplaces] at htext hagain
  exact ⟨f, hfirst, htext _ (by simp), htext _ (by simp), hagain (by decide +kernel)⟩

end Generation

end ResourceApi.Command
