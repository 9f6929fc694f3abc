import ResourceApi.Proofs.Facade.Template

/-!
Client files as fillings of templates. The template of a file is what is generated with signs of
holes in place of all texts of the manifest. The file is a filling of it, if the texts fit into the
holes.
-/

namespace ResourceApi

open Facade (Hole)

/-! ### Templates -/

def Action.marked (a : Action) : Action where
  name := Hole.action.mark
  method := a.method
  path := a.path.map fun _ => Hole.segment.mark
  params := a.params.map fun _ => Hole.parameter.mark
  takesBody := a.takesBody
  returns := a.returns.map fun _ => Hole.result.mark

/-- A resource of the same kind, with signs of holes for texts. -/
def Resource.marked (r : Resource) : Resource where
  name := Hole.name.mark
  path := Hole.path.mark
  model := r.model.map fun _ => Hole.model.mark
  verbs := r.verbs
  actions := r.actions.map Action.marked

def Manifest.marked (m : Manifest) : Manifest := ⟨m.resources.map Resource.marked⟩

namespace Facade

/-! ### Methods -/

variable {texts : Hole → List String}

def FitsParameter (texts : Hole → List String) (p q : Parameter) : Prop :=
  Within texts Mode.codeStops p.text q.text

/-- A method and its template; the call may have strings. -/
structure FitsMethod (texts : Hole → List String) (t m : Method) (ss : List (List Char)) :
    Prop where
  remark : Option.Rel (Within texts ['\n']) t.remark m.remark
  name : Within texts Mode.codeStops t.name m.name
  params : List.Forall₂ (FitsParameter texts) t.params m.params
  spread : t.spread = m.spread
  result : Within texts Mode.codeStops t.result m.result
  call : ∀ stack, Filled texts ("        self.inner." ++ t.call ++ ".await" ++ "\n")
    ("        self.inner." ++ m.call ++ ".await" ++ "\n") ss stack stack

namespace FitsMethod

variable {t m : Method} {ss : List (List Char)}

theorem resultText (h : FitsMethod texts t m ss) :
    Within texts Mode.codeStops t.resultText m.resultText :=
  fun _ => h.result.around (by decide) (by decide) rfl rfl

theorem joined (h : FitsMethod texts t m ss) :
    Within texts Mode.codeStops (String.join (t.params.map (", " ++ ·.text)))
      (String.join (m.params.map (", " ++ ·.text))) := by
  refine Within.join (List.forall₂_map_left_iff.2 (List.forall₂_map_right_iff.2 ?_))
  exact h.params.imp fun _ _ hp => (Within.const (by decide)).append hp

/-- The parameters of a long signature stand on lines of their own. -/
theorem spreadParams (h : FitsMethod texts t m ss) (stack : List Char) :
    Filled texts (textOfLines (t.params.map fun p => "        " ++ p.text ++ ","))
      (textOfLines (m.params.map fun p => "        " ++ p.text ++ ",")) [] stack stack := by
  have hparams := h.params
  generalize t.params = ps, m.params = qs at hparams
  induction hparams with
  | nil => exact .lines_nil stack
  | cons hp _ ih =>
    exact (Filled.line (hp.around (by decide) (by decide) rfl rfl)).lines_cons ih

/-- The signature ends with an open bracket. -/
theorem signature (h : FitsMethod texts t m ss) (stack : List Char) :
    Filled texts (textOfLines t.signature) (textOfLines m.signature) [] stack ('}' :: stack) := by
  have hname : Within texts Mode.codeStops ("    pub async fn " ++ t.name)
      ("    pub async fn " ++ m.name) :=
    (Within.const (by decide)).append h.name
  rw [Method.signature, Method.signature, h.spread]
  split
  · have hopen : Fits texts Mode.codeStops ("    pub async fn " ++ t.name ++ "(")
        ("    pub async fn " ++ m.name ++ "(") stack (')' :: stack) :=
      (hname stack).append (.const (by decide) rfl)
    have hself : Fits texts Mode.codeStops "        &self," "        &self," (')' :: stack)
        (')' :: stack) := .const (by decide) rfl
    have hresult : Fits texts Mode.codeStops ("    ) -> " ++ t.resultText ++ " \x7b")
        ("    ) -> " ++ m.resultText ++ " \x7b") (')' :: stack) ('}' :: stack) :=
      h.resultText.around (by decide) (by decide) rfl rfl
    have hstart := (Filled.line hopen).lines_cons ((Filled.line hself).lines_cons (.lines_nil _))
    exact (hstart.lines_append (h.spreadParams _)).lines_append
      ((Filled.line hresult).lines_cons (.lines_nil _))
  · have hline : Fits texts Mode.codeStops
        ("    pub async fn " ++ t.name ++ "(&self" ++
          String.join (t.params.map (", " ++ ·.text)) ++ ") -> " ++ t.resultText ++ " \x7b")
        ("    pub async fn " ++ m.name ++ "(&self" ++
          String.join (m.params.map (", " ++ ·.text)) ++ ") -> " ++ m.resultText ++ " \x7b")
        stack ('}' :: stack) :=
      (((((hname stack).append (.const (by decide) rfl)).append (h.joined (')' :: stack))).append
        (.const (by decide) rfl)).append (h.resultText stack)).append (.const (by decide) rfl)
    exact (Filled.line hline).lines_cons (.lines_nil _)

/-- A comment on a method, behind what indents it. -/
theorem remarkLine_eq (s : String) :
    "    /// " ++ s ++ "\n" = "    " ++ ("//" ++ ("/ " ++ s) ++ "\n") := by
  have hstart : "    /// " = "    " ++ ("//" ++ "/ ") := by decide
  simp only [hstart, String.append_assoc]

theorem remark_line {x y : String} (h : Within texts ['\n'] x y) (stack : List Char) :
    Filled texts ("    /// " ++ x ++ "\n") ("    /// " ++ y ++ "\n") [] stack stack := by
  have hindent : Filled texts "    " "    " [] stack stack :=
    .const (by decide) rfl rfl
  have hremark : Within texts ['\n'] ("/ " ++ x) ("/ " ++ y) :=
    (Within.const (by decide)).append h
  rw [remarkLine_eq, remarkLine_eq]
  exact hindent.append (.comment hremark stack)

/-- The lines of a method are made of those of its template. -/
theorem lines (h : FitsMethod texts t m ss) (stack : List Char) :
    Filled texts (textOfLines t.lines) (textOfLines m.lines) ss stack stack := by
  have hremark : Filled texts (textOfLines (t.remark.map ("    /// " ++ ·)).toList)
      (textOfLines (m.remark.map ("    /// " ++ ·)).toList) [] stack stack := by
    have hremark := h.remark
    generalize t.remark = x, m.remark = y at hremark
    cases hremark with
    | none => exact .lines_nil stack
    | some hxy => exact (remark_line hxy stack).lines_cons (.lines_nil _)
  have hend : Fits texts Mode.codeStops "    \x7d" "    \x7d" ('}' :: stack) stack :=
    .const (by decide) rfl
  have hbody : Filled texts
      (textOfLines ["        self.inner." ++ t.call ++ ".await", "    \x7d"])
      (textOfLines ["        self.inner." ++ m.call ++ ".await", "    \x7d"]) (ss ++ [])
      ('}' :: stack) stack :=
    (h.call _).lines_cons ((Filled.line hend).lines_cons (.lines_nil _))
  rw [List.append_nil] at hbody
  exact (hremark.lines_append (h.signature stack)).lines_append hbody

end FitsMethod

theorem filledGroups_methods {ts ms : List Method}
    (h : List.Forall₂ (fun t m => FitsMethod texts t m []) ts ms) :
    FilledGroups texts (ts.map Method.lines) (ms.map Method.lines) [] := by
  induction h with
  | nil => exact .nil
  | cons hm _ ih => exact .cons hm.lines ih

/-- A method with a name and a call that are always the same. -/
theorem fits_fixed {name call t model : String} {ps qs : List Parameter} {spread : Bool}
    (hname : Within texts Mode.codeStops name name)
    (hparams : List.Forall₂ (FitsParameter texts) ps qs)
    (hresult : Within texts Mode.codeStops t model)
    (hcall : Within texts Mode.codeStops call call) :
    FitsMethod texts ⟨none, name, ps, spread, t, call⟩
      ⟨none, name, qs, spread, model, call⟩ [] where
  remark := .none
  name := hname
  params := hparams
  spread := rfl
  result := hresult
  call _ := .line (hcall.around (by decide) (by decide) rfl rfl)

theorem within_parameter {x y x' y' : String} (hname : Within texts Mode.codeStops x y)
    (htype : Within texts Mode.codeStops x' y') :
    FitsParameter texts ⟨x, x'⟩ ⟨y, y'⟩ :=
  (hname.append (.const (by decide))).append htype

/-- The methods of a verb name the type of the records where the template has its hole. -/
theorem fits_ofVerb {t model : String} (h : Within texts Mode.codeStops t model) (v : Verb) :
    List.Forall₂ (fun t m => FitsMethod texts t m []) (Method.ofVerb t v)
      (Method.ofVerb model v) := by
  have hcriteria : FitsParameter texts .criteria .criteria := Within.const (by decide)
  have hoptions : FitsParameter texts .options .options := Within.const (by decide)
  have hid : FitsParameter texts .id .id := Within.const (by decide)
  have hbody : FitsParameter texts (.body t) (.body model) :=
    within_parameter (.const (by decide)) ((Within.const (by decide)).append h)
  have hany : FitsParameter texts (.body anyType) (.body anyType) := Within.const (by decide)
  have hpage : Within texts Mode.codeStops ("ApiResponse<" ++ t ++ ">")
      ("ApiResponse<" ++ model ++ ">") :=
    fun _ => h.around (by decide) (by decide) rfl rfl
  have hlist : Within texts Mode.codeStops ("Vec<" ++ t ++ ">") ("Vec<" ++ model ++ ">") :=
    fun _ => h.around (by decide) (by decide) rfl rfl
  have hunit : Within texts Mode.codeStops "()" "()" := .const (by decide)
  cases v with
  | list =>
    have hparams := List.Forall₂.cons hcriteria (.cons hoptions .nil)
    exact .cons (fits_fixed (.const (by decide)) hparams hpage (.const (by decide)))
      (.cons (fits_fixed (.const (by decide)) hparams hlist (.const (by decide))) .nil)
  | get =>
    have hparams := List.Forall₂.cons hid (.cons hoptions .nil)
    exact .cons (fits_fixed (.const (by decide)) hparams h (.const (by decide))) .nil
  | create =>
    have hparams := List.Forall₂.cons hbody .nil
    exact .cons (fits_fixed (.const (by decide)) hparams h (.const (by decide))) .nil
  | update =>
    have hparams := List.Forall₂.cons hid (.cons hbody .nil)
    exact .cons (fits_fixed (.const (by decide)) hparams h (.const (by decide))) .nil
  | patch =>
    have hparams := List.Forall₂.cons hid (.cons hany .nil)
    exact .cons (fits_fixed (.const (by decide)) hparams h (.const (by decide))) .nil
  | delete =>
    have hparams := List.Forall₂.cons hid .nil
    exact .cons (fits_fixed (.const (by decide)) hparams hunit (.const (by decide))) .nil

/-! ### Actions -/

/-- An action whose texts fit where its method has them. -/
structure FitsAction (texts : Hole → List String) (a : Action) : Prop where
  name : Within texts Mode.codeStops a.marked.name a.name
  segment : Within texts Mode.stringStops a.marked.segment a.segment
  params : List.Forall₂ (Within texts Mode.codeStops) a.marked.params a.params
  result : Within texts Mode.codeStops a.marked.returnType a.returnType
  remarkSegment : Within texts ['\n'] a.marked.segment a.segment
  remarkParams : List.Forall₂ (Within texts ['\n']) a.marked.params a.params

namespace FitsAction

variable {a : Action}

theorem remark (h : FitsAction texts a) :
    Within texts ['\n'] (tick (Method.verbWord a.method ++ " " ++ Method.route a.marked))
      (tick (Method.verbWord a.method ++ " " ++ Method.route a)) := by
  have htick : Within texts ['\n'] "`" "`" := .const (by decide)
  have hverb : Within texts ['\n'] (Method.verbWord a.method) (Method.verbWord a.method) := by
    cases a.method
    · exact .const (by decide)
    · exact .const (by decide)
  have hparams : List.Forall₂ (Within texts ['\n'])
      (a.marked.params.map fun p => "/\x7b" ++ p ++ "\x7d")
      (a.params.map fun p => "/\x7b" ++ p ++ "\x7d") := by
    refine List.forall₂_map_left_iff.2 (List.forall₂_map_right_iff.2 ?_)
    exact h.remarkParams.imp fun _ _ hp _ => hp.around (by decide) (by decide) rfl rfl
  have hroute : Within texts ['\n'] (Method.route a.marked) (Method.route a) :=
    ((Within.const (by decide)).append h.remarkSegment).append (.join hparams)
  exact (htick.append ((hverb.append (.const (by decide))).append hroute)).append htick

/-- An action has its own parameters and then the common ones, as its template has. -/
theorem parameters (h : FitsAction texts a) :
    List.Forall₂ (FitsParameter texts)
      (a.marked.params.map (⟨·, "&str"⟩) ++ Method.extraParams a.marked)
      (a.params.map (⟨·, "&str"⟩) ++ Method.extraParams a) := by
  have hextra : List.Forall₂ (FitsParameter texts) (Method.extraParams a.marked)
      (Method.extraParams a) := by
    have hsame : Method.extraParams a.marked = Method.extraParams a := rfl
    have hoptions : FitsParameter texts .options .options := Within.const (by decide)
    have hbody : FitsParameter texts .optionalBody .optionalBody := Within.const (by decide)
    rw [hsame, Method.extraParams]
    split
    · exact .cons hoptions .nil
    · split
      · exact .cons hbody .nil
      · exact .nil
  refine List.rel_append ?_ hextra
  refine List.forall₂_map_left_iff.2 (List.forall₂_map_right_iff.2 ?_)
  exact h.params.imp fun _ _ hp => within_parameter hp (.const (by decide))

/-- The line of a call, taken apart at the segment. -/
theorem callLine_eq (before after : String) (a : Action) :
    "        self.inner." ++ (before ++ "(" ++ Method.target a ++ after) ++ ".await" ++ "\n" =
      ("        self.inner." ++ before ++ String.singleton '(') ++
        (("\"" ++ a.segment ++ "\"") ++
          ((", &[" ++ ", ".intercalate a.params ++ "]" ++ after ++ ".await") ++ "\n")) := by
  have hopen : "(" = String.singleton '(' := by decide
  have hquote : "\", &[" = "\"" ++ ", &[" := by decide
  rw [Method.target, hquote, hopen]
  simp only [String.append_assoc]

/-- A call with the segment as its only string; the bracket that opens in front of it is closed
behind it. -/
theorem call (h : FitsAction texts a) {before before' after : String}
    (hbefore : Within texts Mode.codeStops before before')
    (hafter : ∀ stack, Fits texts Mode.codeStops after after (')' :: stack) stack)
    (stack : List Char) :
    Filled texts ("        self.inner." ++ (before ++ "(" ++ Method.target a.marked ++ after) ++
        ".await" ++ "\n")
      ("        self.inner." ++ (before' ++ "(" ++ Method.target a ++ after) ++ ".await" ++ "\n")
      [a.segment.toList] stack stack := by
  have hstart : Filled texts ("        self.inner." ++ before ++ String.singleton '(')
      ("        self.inner." ++ before' ++ String.singleton '(') [] stack (')' :: stack) :=
    .code (((Within.const (by decide)).append hbefore) stack) (by decide) (by decide) rfl
  have hparams : Within texts Mode.codeStops (", ".intercalate a.marked.params)
      (", ".intercalate a.params) := .intercalate (.const (by decide)) h.params
  have hend : Fits texts Mode.codeStops
      (", &[" ++ ", ".intercalate a.marked.params ++ "]" ++ after ++ ".await")
      (", &[" ++ ", ".intercalate a.params ++ "]" ++ after ++ ".await") (')' :: stack) stack :=
    ((((Fits.const (by decide) rfl).append (hparams _)).append (.const (by decide) rfl)).append
      (hafter stack)).append (.const (by decide) rfl)
  rw [callLine_eq, callLine_eq]
  exact hstart.append ((Filled.string h.segment _).append (.line hend))

theorem actionCall_get (h : a.method = .get) :
    Method.actionCall a = "action_get" ++ "(" ++ Method.target a ++ ", options)" := by
  have hopen : "action_get" ++ "(" = "action_get(" := by decide
  rw [hopen, Method.actionCall, h]

theorem actionCall_body (h : a.method = .post) (hbody : a.takesBody = true) :
    Method.actionCall a = "action_post" ++ "(" ++ Method.target a ++ ", body)" := by
  have hopen : "action_post" ++ "(" = "action_post(" := by decide
  rw [hopen, Method.actionCall, h]
  exact if_pos hbody

theorem actionCall_plain (h : a.method = .post) (hbody : a.takesBody = false) :
    Method.actionCall a = "action_post::<" ++ a.returnType ++ ", " ++ anyType ++ ">" ++ "(" ++
      Method.target a ++ ", None)" := by
  have hopen : ">(" = ">" ++ "(" := by decide
  rw [Method.actionCall, h]
  simp only [hbody, Bool.false_eq_true, if_false, hopen, String.append_assoc]

/-- The call of an action holds its path segment as the only string. -/
theorem actionCall (h : FitsAction texts a) (stack : List Char) :
    Filled texts ("        self.inner." ++ Method.actionCall a.marked ++ ".await" ++ "\n")
      ("        self.inner." ++ Method.actionCall a ++ ".await" ++ "\n")
      [a.segment.toList] stack stack := by
  cases hmethod : a.method with
  | get =>
    have hmarked : a.marked.method = .get := hmethod
    rw [actionCall_get hmethod, actionCall_get hmarked]
    exact h.call (.const (by decide)) (fun _ => .const (by decide) rfl) stack
  | post =>
    have hmarked : a.marked.method = .post := hmethod
    cases hbody : a.takesBody with
    | true =>
      have hmarkedBody : a.marked.takesBody = true := hbody
      rw [actionCall_body hmethod hbody, actionCall_body hmarked hmarkedBody]
      exact h.call (.const (by decide)) (fun _ => .const (by decide) rfl) stack
    | false =>
      have hmarkedBody : a.marked.takesBody = false := hbody
      have htyped : Within texts Mode.codeStops
          ("action_post::<" ++ a.marked.returnType ++ ", " ++ anyType ++ ">")
          ("action_post::<" ++ a.returnType ++ ", " ++ anyType ++ ">") :=
        ((((Within.const (by decide)).append h.result).append (.const (by decide))).append
          (.const (by decide))).append (.const (by decide))
      rw [actionCall_plain hmethod hbody, actionCall_plain hmarked hmarkedBody]
      exact h.call htyped (fun _ => .const (by decide) rfl) stack

/-- The method of an action is made of the template for it. -/
theorem fits_ofAction (h : FitsAction texts a) :
    FitsMethod texts (Method.ofAction a.marked) (Method.ofAction a) [a.segment.toList] where
  remark := .some h.remark
  name := h.name
  params := h.parameters
  spread := rfl
  result := h.result
  call := h.actionCall

end FitsAction

/-! ### Client files -/

theorem filled_header (stack : List Char) :
    Filled texts (textOfLines [header]) (textOfLines [header]) [] stack stack := by
  have hstart : header = "//" ++ " Auto-generated by erp-codegen. Do not edit." := by decide
  have hremark : Within texts ['\n'] " Auto-generated by erp-codegen. Do not edit."
      " Auto-generated by erp-codegen. Do not edit." := .const (by decide)
  have hline := Filled.comment hremark stack
  rw [← hstart] at hline
  exact hline.lines_cons (.lines_nil _)

/-- A resource whose texts fit where its client has them. -/
structure FitsResource (texts : Hole → List String) (r : Resource) : Prop where
  name : Within texts Mode.codeStops r.marked.name r.name
  path : Within texts Mode.stringStops r.marked.path r.path
  remarkPath : Within texts ['\n'] r.marked.path r.path
  model : Within texts Mode.codeStops r.marked.modelType r.modelType
  actions : ∀ a ∈ r.actions, FitsAction texts a

namespace FitsResource

variable {r : Resource}

/-- The imports do not depend on the texts of a resource. -/
theorem imports_marked (r : Resource) : imports r.marked = imports r := by
  have hoptions : takesOptions r.marked = takesOptions r := by
    simp [takesOptions, Resource.marked, Resource.supports, List.any_map, Function.comp_def,
      Action.marked]
  have hany : mentionsAnyType r.marked = mentionsAnyType r := by
    simp [mentionsAnyType, Resource.marked, Resource.supports, List.any_map, Function.comp_def,
      Action.marked]
  have hlist : r.marked.supports .list = r.supports .list := rfl
  rw [imports, imports, queryImport, queryImport, clientImports, clientImports, hoptions, hany,
    hlist]

/-- Imports are code without holes. -/
theorem isConst_imports (r : Resource) :
    ∀ l ∈ imports r, isConst Mode.codeStops l = true ∧ IsNested l.toList := by
  rw [imports, queryImport, clientImports]
  cases r.supports .list <;> cases takesOptions r <;> cases mentionsAnyType r <;> decide

theorem filled_imports (r : Resource) (stack : List Char) :
    Filled texts (textOfLines (imports r.marked)) (textOfLines (imports r)) [] stack stack := by
  rw [imports_marked]
  exact .lines_const (isConst_imports r) stack

theorem clientName (h : FitsResource texts r) :
    Within texts Mode.codeStops (clientName r.marked) (Facade.clientName r) :=
  h.name.append (.const (by decide))

theorem pathRemark_eq (s : String) :
    "/// Client for " ++ s ++ "." ++ "\n" = "//" ++ ("/ Client for " ++ s ++ ".") ++ "\n" := by
  have hstart : "/// Client for " = "//" ++ "/ Client for " := by decide
  simp only [hstart, String.append_assoc]

/-- The lines that declare a client are made of those of the template. -/
theorem declaration (h : FitsResource texts r) (stack : List Char) :
    Filled texts (textOfLines (declaration r.marked)) (textOfLines (Facade.declaration r)) []
      stack stack := by
  have htick : Within texts ['\n'] "`" "`" := .const (by decide)
  have hremark : Within texts ['\n'] ("/ Client for " ++ tick r.marked.path ++ ".")
      ("/ Client for " ++ tick r.path ++ ".") :=
    ((Within.const (by decide)).append ((htick.append h.remarkPath).append htick)).append
      (.const (by decide))
  have hcomment : Filled texts ("/// Client for " ++ tick r.marked.path ++ "." ++ "\n")
      ("/// Client for " ++ tick r.path ++ "." ++ "\n") [] stack stack := by
    rw [pathRemark_eq, pathRemark_eq]
    exact .comment hremark stack
  have hderive : Fits texts Mode.codeStops "#[derive(Clone)]" "#[derive(Clone)]" stack stack :=
    .const (by decide) rfl
  have hopen : Fits texts Mode.codeStops ("pub struct " ++ Facade.clientName r.marked ++ " \x7b")
      ("pub struct " ++ Facade.clientName r ++ " \x7b") stack ('}' :: stack) :=
    h.clientName.around (by decide) (by decide) rfl rfl
  have hfield : Within texts Mode.codeStops
      ("    inner: ResourceClient<" ++ r.marked.modelType ++ ">,")
      ("    inner: ResourceClient<" ++ r.modelType ++ ">,") :=
    fun _ => h.model.around (by decide) (by decide) rfl rfl
  have hclose : Fits texts Mode.codeStops "\x7d" "\x7d" ('}' :: stack) stack :=
    .const (by decide) rfl
  exact hcomment.lines_cons ((Filled.line hderive).lines_cons ((Filled.line hopen).lines_cons
    ((Filled.line (hfield _)).lines_cons ((Filled.line hclose).lines_cons (.lines_nil _)))))

/-- The line of the path, taken apart at its string. -/
theorem pathLine_eq (s : String) : "    pub const PATH: &'static str = \"" ++ s ++ "\";" ++ "\n" =
    "    pub const PATH: &'static str = " ++ (("\"" ++ s ++ "\"") ++ (";" ++ "\n")) := by
  have hstart : "    pub const PATH: &'static str = \"" =
      "    pub const PATH: &'static str = " ++ "\"" := by decide
  have hend : "\";" = "\"" ++ ";" := by decide
  rw [hstart, hend]
  simp only [String.append_assoc]

theorem pathLine (h : FitsResource texts r) (stack : List Char) :
    Filled texts ("    pub const PATH: &'static str = \"" ++ r.marked.path ++ "\";" ++ "\n")
      ("    pub const PATH: &'static str = \"" ++ r.path ++ "\";" ++ "\n") [r.path.toList]
      stack stack := by
  have hname : Filled texts "    pub const PATH: &'static str = "
      "    pub const PATH: &'static str = " [] stack stack :=
    .const (by decide) rfl rfl
  rw [pathLine_eq, pathLine_eq]
  exact hname.append ((Filled.string h.path stack).append (.line (.const (by decide) rfl)))

/-- What every client has holds the path of the collection as its only string. -/
theorem fixedItems (h : FitsResource texts r) :
    FilledGroups texts (fixedItems r.marked) (Facade.fixedItems r) [r.path.toList] := by
  have hnew : ∀ stack, Fits texts Mode.codeStops "    pub fn new(client: &Client) -> Self \x7b"
      "    pub fn new(client: &Client) -> Self \x7b" stack ('}' :: stack) :=
    fun _ => .const (by decide) rfl
  have hself : Within texts Mode.codeStops
      "        Self \x7b inner: client.resource(Self::PATH) \x7d"
      "        Self \x7b inner: client.resource(Self::PATH) \x7d" := .const (by decide)
  have hclose : ∀ stack, Fits texts Mode.codeStops "    \x7d" "    \x7d" ('}' :: stack) stack :=
    fun _ => .const (by decide) rfl
  have hinner : ∀ stack, Fits texts Mode.codeStops
      ("    pub fn inner(&self) -> &ResourceClient<" ++ r.marked.modelType ++ "> \x7b")
      ("    pub fn inner(&self) -> &ResourceClient<" ++ r.modelType ++ "> \x7b") stack
      ('}' :: stack) :=
    fun _ => h.model.around (by decide) (by decide) rfl rfl
  have hget : Within texts Mode.codeStops "        &self.inner" "        &self.inner" :=
    .const (by decide)
  have hfirst : ∀ stack, Filled texts
      (textOfLines ["    pub const PATH: &'static str = \"" ++ r.marked.path ++ "\";"])
      (textOfLines ["    pub const PATH: &'static str = \"" ++ r.path ++ "\";"]) [r.path.toList]
      stack stack := fun stack => (h.pathLine stack).lines_cons (.lines_nil _)
  have hsecond := fun stack => (Filled.line (hnew stack)).lines_cons
    ((Filled.line (hself _)).lines_cons ((Filled.line (hclose stack)).lines_cons (.lines_nil _)))
  have hthird := fun stack => (Filled.line (hinner stack)).lines_cons
    ((Filled.line (hget _)).lines_cons ((Filled.line (hclose stack)).lines_cons (.lines_nil _)))
  exact FilledGroups.cons hfirst (.cons hsecond (.cons hthird .nil))

/-- All methods of a client are made of those of the template. -/
theorem methods (h : FitsResource texts r) :
    FilledGroups texts ((Method.ofResource r.marked).map Method.lines)
      ((Method.ofResource r).map Method.lines) (r.actions.map (·.segment.toList)) := by
  have hverbs : ∀ vs : List Verb, List.Forall₂ (fun t m => FitsMethod texts t m [])
      (vs.flatMap (Method.ofVerb r.marked.modelType)) (vs.flatMap (Method.ofVerb r.modelType)) := by
    intro vs
    induction vs with
    | nil => exact .nil
    | cons v vs ih =>
      rw [List.flatMap_cons, List.flatMap_cons]
      exact List.rel_append (fits_ofVerb h.model v) ih
  have hactions : ∀ as : List Action, (∀ a ∈ as, FitsAction texts a) →
      FilledGroups texts (((as.map Action.marked).map Method.ofAction).map Method.lines)
        ((as.map Method.ofAction).map Method.lines) (as.map (·.segment.toList)) := by
    intro as has
    induction as with
    | nil => exact .nil
    | cons a as ih =>
      obtain ⟨ha, has⟩ := List.forall_mem_cons.1 has
      exact FilledGroups.cons ha.fits_ofAction.lines (ih has)
  rw [Method.ofResource, Method.ofResource, List.map_append, List.map_append]
  exact (filledGroups_methods (hverbs _)).append (hactions _ h.actions)

/-- The strings of an implementation are the path and the segments of the actions, in order. -/
theorem implementation (h : FitsResource texts r) (stack : List Char) :
    Filled texts (textOfLines (implementation r.marked)) (textOfLines (Facade.implementation r))
      (r.path.toList :: r.actions.map (·.segment.toList)) stack stack := by
  have hopen : Fits texts Mode.codeStops ("impl " ++ Facade.clientName r.marked ++ " \x7b")
      ("impl " ++ Facade.clientName r ++ " \x7b") stack ('}' :: stack) :=
    h.clientName.around (by decide) (by decide) rfl rfl
  have hclose : Fits texts Mode.codeStops "\x7d" "\x7d" ('}' :: stack) stack :=
    .const (by decide) rfl
  have hitems := (h.fixedItems.append h.methods).spaced ('}' :: stack)
  have hall := (((Filled.line hopen).lines_cons (.lines_nil _)).lines_append hitems).lines_append
    ((Filled.line hclose).lines_cons (.lines_nil _))
  rw [Facade.implementation, Facade.implementation]
  simpa only [List.append_nil, List.nil_append, List.singleton_append] using hall

/-- The file of a client is a filling of its template. -/
theorem clientLines (h : FitsResource texts r) (stack : List Char) :
    Filled texts (textOfLines (clientLines r.marked)) (textOfLines (Facade.clientLines r))
      (r.path.toList :: r.actions.map (·.segment.toList)) stack stack := by
  have hgroups := FilledGroups.cons filled_header (.cons (filled_imports r) (.cons h.declaration
    (.cons h.implementation .nil)))
  rw [List.append_nil] at hgroups
  exact hgroups.spaced stack

end FitsResource

end Facade

end ResourceApi
