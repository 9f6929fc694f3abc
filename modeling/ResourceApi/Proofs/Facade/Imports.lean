import ResourceApi.Proofs.Facade.UsedTypes

/-!
What a client file imports. Some types are imported only under conditions on the resource; the code
behind the imports names each of them under the same condition, so that no import is missing and
none is unused.
-/

namespace ResourceApi.Facade

/-! ### Reading the imports -/

/-- Some code up to a semicolon that takes names over from elsewhere. -/
def isImport (statement : List Char) : Bool := (wordsOf statement).head? = some "use".toList

def wordsOfImport (statement : List Char) : List (List Char) :=
  wordsOf ((statement.splitOn ':').getLast?.getD [])

/-- The names that some code takes over from elsewhere before all else. -/
def importedWords (code : List Char) : List (List Char) :=
  ((code.splitOn ';').takeWhile isImport).flatMap wordsOfImport

def behindImports (code : List Char) : List Char :=
  [';'].intercalate ((code.splitOn ';').dropWhile isImport)

/-- What comes before a statement and has no words. -/
structure IsWordless (s : List Char) : Prop where
  words : wordsOf s = []
  ends : EndsApart s
  semicolon : ';' ∉ s

/-- A line that is an import, with its semicolon. -/
structure IsImportLine (l : String) : Prop where
  semicolon : l.toList = l.toList.dropLast ++ [';']
  one : ';' ∉ l.toList.dropLast
  first : isImport l.toList.dropLast = true
  colon : ':' ∈ l.toList.dropLast

instance (l : String) : Decidable (IsImportLine l) :=
  decidable_of_iff (l.toList = l.toList.dropLast ++ [';'] ∧ ';' ∉ l.toList.dropLast ∧
    isImport l.toList.dropLast = true ∧ ':' ∈ l.toList.dropLast)
    ⟨fun ⟨h₁, h₂, h₃, h₄⟩ => ⟨h₁, h₂, h₃, h₄⟩, fun ⟨h₁, h₂, h₃, h₄⟩ => ⟨h₁, h₂, h₃, h₄⟩⟩

/-- Code that starts with something else than an import. -/
structure StartsApart (code : List Char) : Prop where
  semicolon : ';' ∉ code
  ends : EndsApart code
  first : ∃ w ∈ (wordsOf code).head?, w ≠ "use".toList

section Statements

variable {s t : List Char}

theorem IsWordless.isImport_append (hs : IsWordless s) (t : List Char) :
    isImport (s ++ t) = isImport t := by
  rw [isImport, hs.ends, hs.words, List.nil_append, isImport]

/-- What stands in front of the last colon does not matter. -/
theorem wordsOfImport_append (ht : ':' ∈ t) (s : List Char) :
    wordsOfImport (s ++ t) = wordsOfImport t := by
  obtain ⟨before, after, rfl⟩ := List.append_of_mem ht
  have hlast : ∀ front : List Char, ((front ++ ':' :: after).splitOn ':').getLast? =
      (after.splitOn ':').getLast? := by
    intro front
    rw [splitOn_append_cons, List.getLast?_append_of_ne_nil _ (List.splitOn_ne_nil ':' after)]
  rw [wordsOfImport, ← List.append_assoc, hlast, wordsOfImport, hlast]

theorem splitOn_append_of_notMem {x : Char} (h : x ∉ s) (t : List Char) :
    (s ++ t).splitOn x = (t.splitOn x).modifyHead (s ++ ·) := by
  induction s with
  | nil =>
    rw [List.nil_append]
    cases t.splitOn x <;> rfl
  | cons c s ih =>
    obtain ⟨hc, hs⟩ := not_or.1 (mt List.mem_cons.2 h)
    have hsplit : (c == x) = false := by simpa using Ne.symm hc
    rw [List.cons_append, List.splitOn, List.splitOnP_cons_eq_if_modifyHead, hsplit, ← List.splitOn,
      ih hs]
    cases t.splitOn x <;> rfl

/-- Code that starts apart begins with a statement that is no import. -/
theorem StartsApart.statements (h : StartsApart s) (t : List Char) :
    ∃ p ps, (s ++ t).splitOn ';' = p :: ps ∧ isImport p = false := by
  obtain ⟨p, ps, ht⟩ := List.exists_cons_of_ne_nil (List.splitOn_ne_nil ';' t)
  obtain ⟨w, hw, huse⟩ := h.first
  refine ⟨s ++ p, ps, by rw [splitOn_append_of_notMem h.semicolon, ht]; rfl, ?_⟩
  rw [isImport, h.ends, List.head?_append, Option.mem_def.1 hw]
  simpa using huse

theorem IsWordless.startsApart_append (hs : IsWordless s) (ht : StartsApart t) :
    StartsApart (s ++ t) := by
  refine ⟨by simp [hs.semicolon, ht.semicolon], hs.ends.append ht.ends, ?_⟩
  rw [hs.ends, hs.words, List.nil_append]
  exact ht.first

/-- Lines of imports, and then something else. -/
theorem imports_of_lines {ls : List String} (hls : ∀ l ∈ ls, IsImportLine l) (hs : IsWordless s)
    (ht : StartsApart t) (u : List Char) :
    importedWords (s ++ ((textOfLines ls).toList ++ (t ++ u))) =
        ls.flatMap (fun l => wordsOfImport l.toList.dropLast) ∧
      ∃ s', IsWordless s' ∧
        behindImports (s ++ ((textOfLines ls).toList ++ (t ++ u))) = s' ++ (t ++ u) := by
  induction ls generalizing s with
  | nil =>
    obtain ⟨p, ps, hsplit, hp⟩ := (hs.startsApart_append ht).statements u
    have hcode : s ++ ((textOfLines []).toList ++ (t ++ u)) = s ++ t ++ u := by
      simp [textOfLines]
    have hnone : ¬isImport p = true := by simp [hp]
    rw [hcode, importedWords, behindImports, hsplit, List.takeWhile_cons_of_neg hnone,
      List.dropWhile_cons_of_neg hnone, ← hsplit, List.intercalate_splitOn, List.append_assoc]
    exact ⟨rfl, s, hs, rfl⟩
  | cons l ls ih =>
    obtain ⟨hl, hls⟩ := List.forall_mem_cons.1 hls
    have hend : IsWordless ['\n'] := ⟨rfl, endsApart_concat (by decide) [], by decide⟩
    obtain ⟨himported, s', hs', hbehind⟩ := ih hls hend
    generalize hrest : ['\n'] ++ ((textOfLines ls).toList ++ (t ++ u)) = rest at himported hbehind
    have hcode : s ++ ((textOfLines (l :: ls)).toList ++ (t ++ u)) =
        (s ++ l.toList.dropLast) ++ ';' :: rest := by
      rw [← hrest, Filled.textOfLines_cons, String.toList_append, String.toList_append,
        hl.semicolon]
      simp
    have hone : ';' ∉ s ++ l.toList.dropLast := by simp [hs.semicolon, hl.one]
    have himport : isImport (s ++ l.toList.dropLast) = true := by
      rw [hs.isImport_append, hl.first]
    rw [hcode, importedWords, behindImports, splitOn_append_cons, List.splitOn_eq_singleton hone,
      List.singleton_append, List.takeWhile_cons_of_pos himport, List.dropWhile_cons_of_pos himport,
      List.flatMap_cons, wordsOfImport_append hl.colon, ← importedWords, himported, ← behindImports,
      hbehind, List.flatMap_cons]
    exact ⟨rfl, s', hs', rfl⟩

example : importedWords "use a::b;\nuse c::\x7bD, E\x7d;\nfn f() \x7b\x7d\n".toList =
    ["b".toList, "D".toList, "E".toList] := by decide

end Statements

/-! ### The imports of client files -/

section Client

variable {n : String} {r : Resource}

/-- Which of the optional types are imported, and when. -/
theorem mem_neededTypes (r : Resource) :
    ("ApiResponse" ∈ neededTypes r ↔ r.supports .list = true) ∧
      ("SearchCriteria" ∈ neededTypes r ↔ r.supports .list = true) ∧
      ("QueryOptions" ∈ neededTypes r ↔ r.supports .list = true ∨ takesOptions r = true) ∧
      (anyType ∈ neededTypes r ↔ mentionsAnyType r = true) := by
  rw [neededTypes, queryTypes, clientImports]
  cases r.supports .list <;> cases takesOptions r <;> cases mentionsAnyType r <;> decide

/-- Which of the optional types are used, and when: just when they are imported. -/
theorem uses_iff (r : Resource) :
    (Uses r "ApiResponse" ↔ r.supports .list = true) ∧
      (Uses r "SearchCriteria" ↔ r.supports .list = true) ∧
      (Uses r "QueryOptions" ↔ r.supports .list = true ∨ takesOptions r = true) ∧
      (Uses r anyType ↔ mentionsAnyType r = true) := by
  have hverbs : ∀ v, ("ApiResponse" ∈ verbTypes v ↔ v = .list) ∧
      ("SearchCriteria" ∈ verbTypes v ↔ v = .list) ∧
      ("QueryOptions" ∈ verbTypes v ↔ v = .list ∨ v = .get) ∧
      (anyType ∈ verbTypes v ↔ v = .patch) := by
    intro v
    cases v <;> decide
  have hkinds : ∀ k, "ApiResponse" ≠ kindType k ∧ "SearchCriteria" ≠ kindType k ∧
      ("QueryOptions" = kindType k ↔ k = .get) ∧ (anyType = kindType k ↔ k = .post) := by
    intro k
    cases k <;> decide
  have hothers : "ApiResponse" ≠ anyType ∧ "SearchCriteria" ≠ anyType ∧
      "QueryOptions" ≠ anyType := by decide
  refine ⟨?_, ?_, ?_, ?_⟩
  · simp [Uses, Resource.supports, hverbs, hkinds, hothers]
  · simp [Uses, Resource.supports, hverbs, hkinds, hothers]
  · simp [Uses, Resource.supports, takesOptions, hverbs, hkinds, hothers, and_or_left, exists_or,
      or_assoc]
  · simp [Uses, Resource.supports, mentionsAnyType, hverbs, hkinds, or_comm, or_left_comm,
      or_assoc]

/-- What is imported is what is used. -/
theorem mem_neededTypes_iff (hn : n ∈ optionalTypes) : n ∈ neededTypes r ↔ Uses r n := by
  obtain ⟨hresponse, hcriteria, hoptions, hany⟩ := mem_neededTypes r
  obtain ⟨hresponse', hcriteria', hoptions', hany'⟩ := uses_iff r
  simp only [optionalTypes, List.mem_cons, List.not_mem_nil, or_false] at hn
  rcases hn with rfl | rfl | rfl | rfl
  · rw [hresponse, hresponse']
  · rw [hcriteria, hcriteria']
  · rw [hoptions, hoptions']
  · rw [hany, hany']

def clientFront (r : Resource) : List String :=
  header :: "" :: (imports r ++ "" :: (declaration r).take 2)

/-- A client file is its front and its body. -/
theorem clientLines_eq (r : Resource) : clientLines r = clientFront r ++ clientBody r := by
  simp [clientLines, spaced, List.intercalate_cons_cons, clientFront, clientBody, declaration]

/-- What remains of the lines between the imports and the body. -/
def openingCode : List Char := "\n/\n#[derive(Clone)]\n".toList

/-- The comments in it are shaded, so that it differs only in the imports. -/
theorem hasCode_clientFront {texts : Hole → List String} (hfits : FitsResource texts r) :
    HasCode (textOfLines (clientFront r))
      ("/\n\n".toList ++ ((textOfLines (imports r)).toList ++ openingCode)) := by
  have hheader : HasCode (header ++ "\n") ['/', '\n'] := by
    have hstart : header = "//" ++ " Auto-generated by erp-codegen. Do not edit." := by decide
    rw [hstart]
    exact .remark (by decide)
  have hempty : HasCode ("" ++ "\n") ['\n'] := .line (by simp)
  have himports : HasCode (textOfLines (imports r)) (textOfLines (imports r)).toList := by
    refine .lines fun l hl => ?_
    have hconst : Within texts Mode.codeStops l l := .const (FitsResource.isConst_imports r l hl)
    exact (hconst []).text
  have hpath : HasCode ("/// Client for " ++ tick r.path ++ "." ++ "\n") ['/', '\n'] := by
    have hline : '\n' ∉ r.path.toList := fun hmem =>
      (hfits.remarkPath []).text '\n' hmem (List.mem_singleton_self _)
    rw [FitsResource.pathRemark_eq]
    exact .remark (by simp [tick, String.toList_append, hline])
  have hderive : HasCode ("#[derive(Clone)]" ++ "\n") "#[derive(Clone)]\n".toList :=
    ⟨_, rfl, rfl⟩
  have hend : HasCode (textOfLines ("" :: (declaration r).take 2)) openingCode :=
    hempty.lines_cons (hpath.lines_cons (hderive.lines_cons HasCode.lines_nil))
  exact hheader.lines_cons (hempty.lines_cons (himports.lines_append hend))

theorem startsApart_openingCode : StartsApart openingCode :=
  ⟨by decide, endsApart_concat (c := '\n') (by decide) "\n/\n#[derive(Clone)]".toList,
    "derive".toList, by decide, by decide⟩

/-- The lines for imports are imports. -/
theorem isImportLine_imports (r : Resource) : ∀ l ∈ imports r, IsImportLine l := by
  have hclient : IsImportLine
      ("use erp_client::\x7b" ++ ", ".intercalate (clientImports r) ++ "\x7d;") := by
    rw [clientImports]
    cases r.supports .list <;> decide
  have hquery : ∀ l ∈ queryImport r, IsImportLine l := by
    rw [queryImport]
    cases r.supports .list <;> cases takesOptions r <;> decide
  have hany : ∀ l ∈ (if mentionsAnyType r then ["use serde_json::Value;"] else []),
      IsImportLine l := by
    cases mentionsAnyType r <;> decide
  rw [imports, List.forall_mem_append, List.forall_mem_append, List.forall_mem_singleton]
  exact ⟨⟨hclient, hquery⟩, hany⟩

/-- The imports take over the needed types, each once. -/
theorem words_imports (r : Resource) :
    (imports r).flatMap (fun l => wordsOfImport l.toList.dropLast) =
      (neededTypes r).map String.toList := by
  have hclient : wordsOfImport ("use erp_client::\x7b" ++ ", ".intercalate (clientImports r) ++
      "\x7d;").toList.dropLast = (clientImports r).map String.toList := by
    rw [clientImports]
    cases r.supports .list <;> decide
  have hquery : (queryImport r).flatMap (fun l => wordsOfImport l.toList.dropLast) =
      (queryTypes r).map String.toList := by
    rw [queryImport, queryTypes]
    cases r.supports .list <;> cases takesOptions r <;> decide
  have hany : (if mentionsAnyType r then ["use serde_json::Value;"] else []).flatMap
      (fun l => wordsOfImport l.toList.dropLast) =
        (if mentionsAnyType r then [anyType] else []).map String.toList := by
    cases mentionsAnyType r <;> decide
  rw [imports, neededTypes, List.flatMap_append, List.flatMap_append, hquery, hany,
    List.flatMap_singleton, hclient, List.map_append, List.map_append]

/-- A client file imports the types that its code names, and it names those that it needs. -/
theorem scan_clientLines {texts : Hole → List String} (hfits : FitsResource texts r)
    (hvalid : r.IsValid) (hgiven : ∀ t ∈ givenTypes r, ∀ n ∈ optionalTypes, ¬Names n t) :
    ∃ ts, scan (textOfLines (clientLines r)).toList = some ts ∧ ∀ n ∈ optionalTypes,
      (n.toList ∈ importedWords (codeOf ts) ↔ n.toList ∈ wordsOf (behindImports (codeOf ts))) ∧
        (n.toList ∈ wordsOf (behindImports (codeOf ts)) ↔ Uses r n) := by
  have hbody : ∀ n ∈ optionalTypes, Mentions n (textOfLines (clientBody r)) (Uses r n) :=
    fun n hn => mentions_clientBody hn hfits hvalid fun t ht => hgiven t ht n hn
  have hopening : ∀ n ∈ optionalTypes, n.toList ∉ wordsOf openingCode := by decide
  obtain ⟨code, hcode, -⟩ := hbody "ApiResponse" (by decide)
  have hfile := (hasCode_clientFront hfits).lines_append hcode
  rw [← clientLines_eq, List.append_assoc, List.append_assoc] at hfile
  obtain ⟨ts, hscan, hts⟩ := hfile.scan
  have hstart : IsWordless "/\n\n".toList :=
    ⟨rfl, endsApart_concat (c := '\n') (by decide) "/\n".toList, by decide⟩
  obtain ⟨himported, s, hs, hbehind⟩ :=
    imports_of_lines (isImportLine_imports r) hstart startsApart_openingCode code
  refine ⟨ts, hscan, fun n hn => ?_⟩
  -- The code of the body is the same one for all types.
  obtain ⟨code', hcode', -, hnames⟩ := hbody n hn
  obtain rfl := hcode.unique hcode'
  have hneeds : n.toList ∈ importedWords (codeOf ts) ↔ Uses r n := by
    rw [hts, himported, words_imports, ← mem_neededTypes_iff hn]
    exact List.mem_map_of_injective fun _ _ => String.toList_inj.1
  have huses : n.toList ∈ wordsOf (behindImports (codeOf ts)) ↔ Uses r n := by
    rw [hts, hbehind, hs.ends, hs.words, List.nil_append, startsApart_openingCode.ends,
      List.mem_append, hnames, or_iff_right (hopening n hn)]
  exact ⟨hneeds.trans huses.symm, huses⟩

end Client

/-- In an accepted manifest whose types do not name any of the types that are imported only under
conditions, the client file of each resource imports just those of them that the code behind its
imports names; and which these are follows from its verbs, its actions and the types left out. -/
theorem imports_match_use {m : Manifest} (hcheck : m.check = .ok ()) {r : Resource}
    (hr : r ∈ m.resources) (hgiven : ∀ t ∈ givenTypes r, ∀ n ∈ optionalTypes, ¬Names n t) :
    ∃ fs, generate m = .ok fs ∧ ∃ file ∈ fs, file.path = r.module ++ extension ∧
      ∃ ts, scan file.content.toList = some ts ∧ ∀ n ∈ optionalTypes,
        (n.toList ∈ importedWords (codeOf ts) ↔ n.toList ∈ wordsOf (behindImports (codeOf ts))) ∧
          (n.toList ∈ wordsOf (behindImports (codeOf ts)) ↔ Uses r n) := by
  have hvalid := (Manifest.isValid_of_check hcheck).resources r hr
  have hfits := fitsResource (areAllowed_clientTexts hvalid)
  refine ⟨files m, generate_of_check hcheck, ⟨r.module ++ extension, textOfLines (clientLines r)⟩,
    List.mem_append_left _ (List.mem_map_of_mem hr), rfl, ?_⟩
  exact scan_clientLines hfits hvalid hgiven

/-- A resource with types of its own, where only one call names the type of any value. -/
def priced : Resource where
  name := "Item"
  path := "/items"
  model := some "crate::Item"
  verbs := [.create, .delete]
  actions := [⟨"reprice", .post, none, ["id"], false, some "Vec<Price>"⟩]

/-- Its client imports that type, and no other one that is imported only under conditions. -/
theorem priced_imports_match :
    (Manifest.mk [priced]).check = .ok () ∧
      (∀ t ∈ givenTypes priced, ∀ n ∈ optionalTypes, ¬Names n t) ∧
      ∃ fs, generate (Manifest.mk [priced]) = .ok fs ∧ ∃ file ∈ fs,
        file.path = priced.module ++ extension ∧
        ∃ ts, scan file.content.toList = some ts ∧ ∀ n ∈ optionalTypes,
          (n.toList ∈ importedWords (codeOf ts) ↔ n = anyType) ∧
            (n.toList ∈ wordsOf (behindImports (codeOf ts)) ↔ n = anyType) := by
  have hcheck : (Manifest.mk [priced]).check = .ok () := by decide +kernel
  have hgiven : ∀ t ∈ givenTypes priced, ∀ n ∈ optionalTypes, ¬Names n t := by decide
  have huses : ∀ n ∈ optionalTypes, Uses priced n ↔ n = anyType := by decide
  obtain ⟨fs, hfs, file, hfile, hpath, ts, hscan, hmatch⟩ :=
    imports_match_use hcheck (List.mem_singleton_self priced) hgiven
  refine ⟨hcheck, hgiven, fs, hfs, file, hfile, hpath, ts, hscan, fun n hn => ?_⟩
  obtain ⟨himported, hnamed⟩ := hmatch n hn
  exact ⟨(himported.trans hnamed).trans (huses n hn), hnamed.trans (huses n hn)⟩

end ResourceApi.Facade
