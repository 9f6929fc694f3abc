import ResourceApi.Proofs.Facade.Identifiers
import ResourceApi.Proofs.Facade.WellFormed

/-!
The types that the code of a client file names. Each method is made of pieces of code, and a type is
named in it if and only if one of the pieces names it; so it is for all methods together.
-/

namespace ResourceApi.Facade

/-- The types that are imported only where they are used. -/
def optionalTypes : List String := ["ApiResponse", "SearchCriteria", "QueryOptions", anyType]

/-! ### Pieces of code -/

/-- A text without strings, comments and labels, in which a type is named in a certain case. -/
structure Piece (n s : String) (p : Prop) : Prop where
  code : ∀ c ∈ s.toList, c ∉ Mode.codeStops
  names : Names n s ↔ p

/-- A text of this kind in which none of the types is named. -/
def isFixed (s : String) : Bool :=
  (s.toList.all fun c => !Mode.codeStops.contains c) &&
    optionalTypes.all fun n => !decide (Names n s)

/-- A text of this kind that keeps words apart. -/
structure IsSeparator (s : String) : Prop where
  fixed : isFixed s = true
  before : isClosedBefore s = true
  behind : isClosedBehind s = true
  nonempty : s ≠ ""

theorem isSeparator_comma : IsSeparator ", " := ⟨by decide, by decide, by decide, by decide⟩

theorem isSeparator_colon : IsSeparator ": " := ⟨by decide, by decide, by decide, by decide⟩

theorem isSeparator_arrow : IsSeparator ") -> Result<" :=
  ⟨by decide, by decide, by decide, by decide⟩

namespace Piece

variable {n s t : String} {p q : Prop}

theorem congr (h : Piece n s p) (hpq : p ↔ q) : Piece n s q := ⟨h.code, h.names.trans hpq⟩

/-- A piece of code names just the words in it. -/
theorem self (h : Piece n s p) : Piece n s (Names n s) := ⟨h.code, Iff.rfl⟩

/-- A fixed text names none of the types. -/
theorem fixed (hn : n ∈ optionalTypes) (h : isFixed s = true) : Piece n s False := by
  obtain ⟨hcode, hnames⟩ := Bool.and_eq_true_iff.1 h
  refine ⟨fun c hc => ?_, ?_⟩
  · simpa using List.all_eq_true.1 hcode c hc
  · simpa using List.all_eq_true.1 hnames n hn

/-- Two pieces are one if words end between them. -/
theorem append_of_behind (hs : Piece n s p) (ht : Piece n t q) (h : isClosedBehind s = true) :
    Piece n (s ++ t) (p ∨ q) := by
  refine ⟨fun c hc => ?_, ?_⟩
  · rw [String.toList_append] at hc
    exact (List.mem_append.1 hc).elim (hs.code c) (ht.code c)
  · rw [names_append_of_behind h, hs.names, ht.names]

theorem append_of_before (hs : Piece n s p) (ht : Piece n t q) (h : isClosedBefore t = true) :
    Piece n (s ++ t) (p ∨ q) := by
  refine ⟨fun c hc => ?_, ?_⟩
  · rw [String.toList_append] at hc
    exact (List.mem_append.1 hc).elim (hs.code c) (ht.code c)
  · rw [names_append_of_before h, hs.names, ht.names]

theorem append_fixed (hn : n ∈ optionalTypes) (h : Piece n s p) {after : String}
    (hafter : isFixed after = true ∧ isClosedBefore after = true) : Piece n (s ++ after) p :=
  (h.append_of_before (fixed hn hafter.1) hafter.2).congr (by simp)

/-- What stands in front and behind is the same in all files. -/
theorem around (hn : n ∈ optionalTypes) (h : Piece n s p) {before after : String}
    (hbefore : isFixed before = true ∧ isClosedBehind before = true)
    (hafter : isFixed after = true ∧ isClosedBefore after = true) :
    Piece n (before ++ s ++ after) p := by
  have hfront := (fixed hn hbefore.1).append_of_behind h hbefore.2
  exact (hfront.append_fixed hn hafter).congr (by simp)

/-- So is what stands in between. -/
theorem between (hn : n ∈ optionalTypes) (hs : Piece n s p) {sep : String}
    (hsep : IsSeparator sep) (ht : Piece n t q) : Piece n (s ++ sep ++ t) (p ∨ q) := by
  have hend : isClosedBehind (s ++ sep) = true := by
    rw [isClosedBehind_append hsep.nonempty]
    exact hsep.behind
  exact (hs.append_fixed hn ⟨hsep.fixed, hsep.before⟩).append_of_behind ht hend

/-- Pieces with the same text in front of each. -/
theorem join {α : Type} (hn : n ∈ optionalTypes) {sep : String} (hsep : IsSeparator sep)
    {f : α → String} {q : α → Prop} {xs : List α} (h : ∀ x ∈ xs, Piece n (f x) (q x)) :
    Piece n (String.join (xs.map (sep ++ f ·))) (∃ x ∈ xs, q x) ∧
      isClosedBefore (String.join (xs.map (sep ++ f ·))) = true := by
  induction xs with
  | nil => exact ⟨⟨by simp, by simp [Names, wordsOf]⟩, rfl⟩
  | cons x xs ih =>
    obtain ⟨hx, hxs⟩ := List.forall_mem_cons.1 h
    obtain ⟨hrest, hclosed⟩ := ih hxs
    have hfirst := (fixed hn hsep.fixed).append_of_behind hx hsep.behind
    rw [List.map_cons, String.join_cons]
    refine ⟨(hfirst.append_of_before hrest hclosed).congr (by simp), ?_⟩
    rw [String.append_assoc, isClosedBefore_append hsep.nonempty]
    exact hsep.before

/-- Joining by separators names nothing new. -/
theorem intercalate (hn : n ∈ optionalTypes) {sep : String} (hsep : IsSeparator sep)
    {xs : List String} (h : ∀ x ∈ xs, Piece n x False) :
    Piece n (sep.intercalate xs) False := by
  induction xs with
  | nil =>
    rw [String.intercalate_nil]
    exact fixed hn (by decide)
  | cons x xs ih =>
    obtain ⟨hx, hxs⟩ := List.forall_mem_cons.1 h
    cases xs with
    | nil => exact hx
    | cons y ys =>
      rw [String.intercalate_cons_cons]
      exact (hx.between hn hsep (ih hxs)).congr (by simp)

theorem mentions (h : Piece n s p) : Mentions n (s ++ "\n") p :=
  (Mentions.line h.code).congr h.names

/-- Lines that are code. -/
theorem lines {α : Type} {f : α → String} {q : α → Prop} {xs : List α}
    (h : ∀ x ∈ xs, Piece n (f x) (q x)) :
    Mentions n (textOfLines (xs.map f)) (∃ x ∈ xs, q x) := by
  induction xs with
  | nil => exact Mentions.lines_nil.congr (by simp)
  | cons x xs ih =>
    obtain ⟨hx, hxs⟩ := List.forall_mem_cons.1 h
    exact (hx.mentions.lines_cons (ih hxs)).congr (by simp)

end Piece

/-! ### Methods -/

section Methods

variable {n : String}

/-- A method that is made of pieces of code, apart from its call, and not called like a type. -/
structure IsPlain (n : String) (m : Method) : Prop where
  remark : ∀ t ∈ m.remark, '\n' ∉ t.toList
  name : Piece n m.name False
  params : ∀ x ∈ m.params, Piece n x.text (Names n x.text)
  result : Piece n m.result (Names n m.result)

variable {m : Method} {p q : Prop}

/-- What is named in front of the call of a method. -/
def SignatureNames (n : String) (m : Method) : Prop :=
  (∃ x ∈ m.params, Names n x.text) ∨ Names n m.result

/-- A signature over several lines names the types of parameters and of the result. -/
theorem mentions_spread (hn : n ∈ optionalTypes) (h : IsPlain n m) (hspread : m.spread) :
    Mentions n (textOfLines m.signature) (SignatureNames n m) := by
  have hname : Piece n ("    pub async fn " ++ m.name ++ "(") False :=
    h.name.around hn (by decide) (by decide)
  have hself : Piece n "        &self," False := .fixed hn (by decide)
  have hparams := Piece.lines (f := fun x => "        " ++ x.text ++ ",") fun x hx =>
    (h.params x hx).around hn (by decide) (by decide)
  have hresult : Piece n ("    ) -> " ++ m.resultText ++ " \x7b") (Names n m.result) := by
    have htext : "    ) -> " ++ m.resultText ++ " \x7b" =
        "    ) -> Result<" ++ m.result ++ ", ApiError> \x7b" := by
      simp [Method.resultText, ← String.toList_inj, String.toList_append]
    rw [htext]
    exact h.result.around hn (by decide) (by decide)
  have hfirst := hname.mentions.lines_cons (hself.mentions.lines_cons Mentions.lines_nil)
  rw [Method.signature, if_pos hspread]
  exact ((hfirst.lines_append hparams).lines_append
    (hresult.mentions.lines_cons Mentions.lines_nil)).congr (by simp [SignatureNames])

/-- So does a signature on one line. -/
theorem mentions_unspread (hn : n ∈ optionalTypes) (h : IsPlain n m)
    (hspread : ¬m.spread) :
    Mentions n (textOfLines m.signature) (SignatureNames n m) := by
  have hname : Piece n ("    pub async fn " ++ m.name ++ "(&self") False :=
    h.name.around hn (by decide) (by decide)
  obtain ⟨hparams, hclosed⟩ := Piece.join hn isSeparator_comma h.params
  have hfront := (hname.append_of_before hparams hclosed).between hn isSeparator_arrow h.result
  have hall : Piece n (_ ++ ", ApiError> \x7b") _ := hfront.append_fixed hn (by decide)
  have htext : ∀ s : String, s ++ ") -> " ++ m.resultText ++ " \x7b" =
      s ++ ") -> Result<" ++ m.result ++ ", ApiError> \x7b" := by
    simp [Method.resultText, ← String.toList_inj, String.toList_append]
  rw [Method.signature, if_neg hspread, htext]
  exact (hall.mentions.lines_cons Mentions.lines_nil).congr (by simp [SignatureNames])

/-- A method names what its parameters, its result and its call name. -/
theorem mentions_method (hn : n ∈ optionalTypes) (h : IsPlain n m)
    (hcall : Mentions n ("        self.inner." ++ m.call ++ ".await" ++ "\n") q) :
    Mentions n (textOfLines m.lines) (SignatureNames n m ∨ q) := by
  have hremark : Mentions n (textOfLines (m.remark.map ("    /// " ++ ·)).toList) False := by
    cases hr : m.remark with
    | none => exact Mentions.lines_nil
    | some t =>
      have hindent : Mentions n "    " False := by
        have hend : "    " = "   " ++ String.singleton ' ' := by decide
        have hblank : Piece n "   " False := .fixed hn (by decide)
        rw [hend]
        exact (Mentions.plain hblank.code (by decide) (by decide)).congr hblank.names
      have hline : '\n' ∉ ("/ " ++ t).toList := by
        simpa [String.toList_append] using h.remark t hr
      have hremark : Mentions n ("    /// " ++ t ++ "\n") False := by
        rw [FitsMethod.remarkLine_eq]
        exact (hindent.append (.remark hline)).congr (by simp)
      exact (hremark.lines_cons Mentions.lines_nil).congr (by simp)
  have hsignature : Mentions n (textOfLines m.signature) (SignatureNames n m) := by
    by_cases hspread : m.spread
    · exact mentions_spread hn h hspread
    · exact mentions_unspread hn h hspread
  have hclose : Piece n "    \x7d" False := .fixed hn (by decide)
  exact ((hremark.lines_append hsignature).lines_append
    (hcall.lines_cons (hclose.mentions.lines_cons Mentions.lines_nil))).congr (by simp)

/-- Parameters of which one names a type in a certain case. -/
structure Takes (n : String) (params : List Parameter) (p : Prop) : Prop where
  code : ∀ x ∈ params, Piece n x.text (Names n x.text)
  names : (∃ x ∈ params, Names n x.text) ↔ p

theorem Takes.nil : Takes n [] False := ⟨by simp, by simp⟩

theorem Takes.congr {params : List Parameter} (h : Takes n params p) (hpq : p ↔ q) :
    Takes n params q := ⟨h.code, h.names.trans hpq⟩

/-- A further parameter may name a type or not. -/
theorem Takes.cons {x : Parameter} {params : List Parameter} (hx : Piece n x.text p)
    (h : Takes n params q) : Takes n (x :: params) (p ∨ q) :=
  ⟨List.forall_mem_cons.2 ⟨hx.self, h.code⟩, by
    rw [List.exists_mem_cons_iff, hx.names, h.names]⟩

/-! ### The methods of verbs -/

/-- The types that the methods of a verb name, apart from the type of the records. -/
def verbTypes : Verb → List String
  | .list => ["ApiResponse", "SearchCriteria", "QueryOptions"]
  | .get => ["QueryOptions"]
  | .patch => [anyType]
  | _ => []

/-- A text that names one of the types. -/
theorem Piece.constant (hn : n ∈ optionalTypes) {s t : String}
    (hcode : (s.toList.all fun c => !Mode.codeStops.contains c) = true)
    (hnames : ∀ n ∈ optionalTypes, Names n s ↔ n = t) : Piece n s (n = t) :=
  ⟨fun c hc => by simpa using List.all_eq_true.1 hcode c hc, hnames n hn⟩

theorem piece_criteria (hn : n ∈ optionalTypes) :
    Piece n Parameter.criteria.text (n = "SearchCriteria") :=
  .constant hn (by decide) (by decide)

theorem piece_options (hn : n ∈ optionalTypes) :
    Piece n Parameter.options.text (n = "QueryOptions") :=
  .constant hn (by decide) (by decide)

theorem piece_optionalBody (hn : n ∈ optionalTypes) :
    Piece n Parameter.optionalBody.text (n = anyType) :=
  .constant hn (by decide) (by decide)

theorem piece_anyType (hn : n ∈ optionalTypes) : Piece n anyType (n = anyType) :=
  .constant hn (by decide) (by decide)

theorem piece_body (hn : n ∈ optionalTypes) {model : String} (h : Piece n model p) :
    Piece n (Parameter.body model).text p := by
  have hname : Piece n "body" False := .fixed hn (by decide)
  have htype : Piece n ("&" ++ model) p :=
    ((Piece.fixed hn (by decide)).append_of_behind h (by decide)).congr (by simp)
  exact (hname.between hn isSeparator_colon htype).congr (by simp)

/-- A method without a comment, and with the same name and call in all files. -/
theorem mentions_fixedCall (hn : n ∈ optionalTypes) {name call result : String}
    {params : List Parameter} {spread : Bool} (hname : isFixed name = true)
    (hcall : isFixed call = true) (hparams : Takes n params p) (hresult : Piece n result q) :
    Mentions n (textOfLines (Method.lines ⟨none, name, params, spread, result, call⟩))
      (p ∨ q) := by
  have hplain : IsPlain n ⟨none, name, params, spread, result, call⟩ :=
    ⟨by simp, .fixed hn hname, hparams.code, hresult.self⟩
  have hline : Piece n ("        self.inner." ++ call ++ ".await") False :=
    (Piece.fixed hn hcall).around hn (by decide) (by decide)
  exact (mentions_method hn hplain hline.mentions).congr
    (by simp [SignatureNames, hparams.names, hresult.names])

/-- What the methods of a verb name, where all but deletions name the type of the records. -/
theorem mentions_ofVerb (hn : n ∈ optionalTypes) {model : String} (hmodel : Piece n model p)
    (v : Verb) : GroupsMention n ((Method.ofVerb model v).map Method.lines)
      (n ∈ verbTypes v ∨ v ≠ .delete ∧ p) := by
  have hcriteria := piece_criteria hn
  have hoptions := Takes.cons (piece_options hn) .nil
  have hid : Piece n Parameter.id.text False := .fixed hn (by decide)
  have hbody := Takes.cons (piece_body hn hmodel) .nil
  have hany := Takes.cons (piece_body hn (piece_anyType hn)) .nil
  have hunit : Piece n "()" False := .fixed hn (by decide)
  cases v with
  | list =>
    have hpage : Piece n ("ApiResponse<" ++ model ++ ">") (n = "ApiResponse" ∨ p) := by
      have hname : Piece n "ApiResponse<" (n = "ApiResponse") :=
        .constant hn (by decide) (by decide)
      exact (hname.append_of_behind hmodel (by decide)).append_fixed hn (by decide)
    have hall : Piece n ("Vec<" ++ model ++ ">") p := hmodel.around hn (by decide) (by decide)
    have hparams := Takes.cons hcriteria hoptions
    refine (GroupsMention.cons (mentions_fixedCall hn (by decide) (by decide) hparams hpage)
      (.cons (mentions_fixedCall hn (by decide) (by decide) hparams hall) .nil)).congr ?_
    simp only [verbTypes, List.mem_cons, List.not_mem_nil, or_false]
    tauto
  | get =>
    refine (GroupsMention.cons (mentions_fixedCall hn (by decide) (by decide)
      (.cons hid hoptions) hmodel) .nil).congr ?_
    simp [verbTypes]
  | create =>
    refine (GroupsMention.cons (mentions_fixedCall hn (by decide) (by decide)
      hbody hmodel) .nil).congr ?_
    simp [verbTypes]
  | update =>
    refine (GroupsMention.cons (mentions_fixedCall hn (by decide) (by decide)
      (.cons hid hbody) hmodel) .nil).congr ?_
    simp [verbTypes]
  | patch =>
    refine (GroupsMention.cons (mentions_fixedCall hn (by decide) (by decide)
      (.cons hid hany) hmodel) .nil).congr ?_
    simp [verbTypes]
  | delete =>
    refine (GroupsMention.cons (mentions_fixedCall hn (by decide) (by decide)
      (.cons hid .nil) hunit) .nil).congr ?_
    simp [verbTypes]

/-! ### The methods of actions -/

/-- The type that the method of an action names in any case. -/
def kindType : ActionKind → String
  | .get => "QueryOptions"
  | .post => anyType

/-- No type is called like a method or a parameter. -/
theorem Piece.free (hn : n ∈ optionalTypes) {s : String} (h : Name.IsFree s) :
    Piece n s False := by
  have hother : ∀ n ∈ optionalTypes, Name.isPlainName n = false := by decide
  have hstops : (Mode.codeStops.all fun c => !Name.isWordChar c) = true := by decide
  have hne : s.toList ≠ [] := by
    intro hnil
    have hempty := h.1.2
    rwa [hnil] at hempty
  refine ⟨fun c hc hmem => ?_, ?_⟩
  · have hbad := List.all_eq_true.1 hstops c hmem
    rw [h.isWordChar c hc] at hbad
    cases hbad
  · rw [names_word hne h.isWordChar, iff_false]
    rintro rfl
    exact absurd (Name.isPlainName_iff.2 h) (by simp [hother n hn])

variable {a : Action}

/-- The call of an action names what stands in front of its bracket. -/
theorem mentions_call (hn : n ∈ optionalTypes) {before after : String} (hbefore : Piece n before p)
    (hafter : isFixed after = true ∧ isClosedBefore after = true)
    (hsegment : ∀ c ∈ a.segment.toList, c ∉ Mode.stringStops)
    (hparams : ∀ x ∈ a.params, Piece n x False) :
    Mentions n
      ("        self.inner." ++ (before ++ "(" ++ Method.target a ++ after) ++ ".await" ++ "\n")
      p := by
  have hfront : Piece n ("        self.inner." ++ before) p :=
    ((Piece.fixed hn (by decide)).append_of_behind hbefore (by decide)).congr (by simp)
  have hopen : Mentions n ("        self.inner." ++ before ++ String.singleton '(') p :=
    (Mentions.plain hfront.code (by decide) (by decide)).congr hfront.names
  have hlist := (Piece.intercalate hn isSeparator_comma hparams).around hn
    (by decide : isFixed ", &[" = true ∧ _) (by decide : isFixed "]" = true ∧ _)
  have hend := (hlist.append_fixed hn hafter).append_fixed hn
    (by decide : isFixed ".await" = true ∧ _)
  rw [FitsAction.callLine_eq]
  exact (hopen.append ((Mentions.string hsegment).append hend.mentions)).congr (by simp)

/-- Only a posted call without a body names types, since nothing else says them. -/
theorem mentions_actionCall (hn : n ∈ optionalTypes) (hresult : Piece n a.returnType p)
    (hsegment : ∀ c ∈ a.segment.toList, c ∉ Mode.stringStops)
    (hparams : ∀ x ∈ a.params, Piece n x False) :
    Mentions n ("        self.inner." ++ Method.actionCall a ++ ".await" ++ "\n")
      (a.method = .post ∧ a.takesBody = false ∧ (p ∨ n = anyType)) := by
  cases hmethod : a.method with
  | get =>
    have hname : Piece n "action_get" False := .fixed hn (by decide)
    rw [FitsAction.actionCall_get hmethod]
    exact (mentions_call hn hname (by decide) hsegment hparams).congr (by simp)
  | post =>
    cases hbody : a.takesBody with
    | true =>
      have hname : Piece n "action_post" False := .fixed hn (by decide)
      rw [FitsAction.actionCall_body hmethod hbody]
      exact (mentions_call hn hname (by decide) hsegment hparams).congr (by simp)
    | false =>
      have hfront : Piece n ("action_post::<" ++ a.returnType) p :=
        ((Piece.fixed hn (by decide)).append_of_behind hresult (by decide)).congr (by simp)
      have hname := (hfront.between hn isSeparator_comma (piece_anyType hn)).append_fixed hn
        (by decide : isFixed ">" = true ∧ _)
      rw [FitsAction.actionCall_plain hmethod hbody]
      exact (mentions_call hn hname (by decide) hsegment hparams).congr (by simp)

theorem takes_ofAction (hn : n ∈ optionalTypes) (hparams : ∀ x ∈ a.params, Piece n x False) :
    Takes n (Method.ofAction a).params
      (n = kindType a.method ∧ (a.method = .post → a.takesBody = true)) := by
  have hextra : Takes n (Method.extraParams a)
      (n = kindType a.method ∧ (a.method = .post → a.takesBody = true)) := by
    rw [Method.extraParams]
    cases a.method with
    | get => exact (Takes.cons (piece_options hn) .nil).congr (by simp [kindType])
    | post =>
      cases a.takesBody with
      | true => exact (Takes.cons (piece_optionalBody hn) .nil).congr (by simp [kindType])
      | false => exact Takes.nil.congr (by simp)
  have hcons : ∀ xs : List String, (∀ x ∈ xs, Piece n x False) →
      Takes n (xs.map (⟨·, "&str"⟩) ++ Method.extraParams a)
        (n = kindType a.method ∧ (a.method = .post → a.takesBody = true)) := by
    intro xs hxs
    induction xs with
    | nil => exact hextra
    | cons x xs ih =>
      obtain ⟨hx, hxs⟩ := List.forall_mem_cons.1 hxs
      have htype : Piece n "&str" False := .fixed hn (by decide)
      have hparam : Piece n (Parameter.text ⟨x, "&str"⟩) (False ∨ False) :=
        hx.between hn isSeparator_colon htype
      exact (Takes.cons hparam (ih hxs)).congr (by simp)
  exact hcons a.params hparams

/-- The method of an action names one type beside that of its result. -/
theorem mentions_ofAction (hn : n ∈ optionalTypes) {texts : Hole → List String}
    (hfits : FitsAction texts a) (hvalid : a.IsValid) (hresult : Names n a.returnType ↔ p) :
    Mentions n (textOfLines (Method.ofAction a).lines) (n = kindType a.method ∨ p) := by
  have hparams : ∀ x ∈ a.params, Piece n x False :=
    fun x hx => .free hn (hvalid.params x hx).1
  have hname : Piece n a.name False := .free hn hvalid.name
  have hresult : Piece n a.returnType p := ⟨(hfits.result []).text, hresult⟩
  have hremark : ∀ t ∈ (Method.ofAction a).remark, '\n' ∉ t.toList := by
    rintro t ⟨⟩ hmem
    exact (hfits.remark []).text '\n' hmem (List.mem_singleton_self _)
  have htakes := takes_ofAction hn hparams
  have hplain : IsPlain n (Method.ofAction a) := ⟨hremark, hname, htakes.code, hresult.self⟩
  have hcall := mentions_actionCall hn hresult (hfits.segment []).text hparams
  refine (mentions_method hn hplain hcall).congr ?_
  have hresult : Names n (Method.ofAction a).result ↔ p := hresult.names
  rw [SignatureNames, htakes.names, hresult]
  cases a.method with
  | get => simp
  | post =>
    cases a.takesBody with
    | true => simp
    | false => simp [kindType, or_comm]

end Methods

/-! ### Client files -/

section Client

variable {n : String} {r : Resource}

/-- The types that a manifest gives for the records of a resource and the results of its actions. -/
def givenTypes (r : Resource) : List String :=
  r.model.toList ++ r.actions.filterMap Action.returns

/-- When the client of a resource needs a type. -/
def Uses (r : Resource) (n : String) : Prop :=
  (r.model = none ∧ n = anyType) ∨ (∃ v ∈ r.verbs, n ∈ verbTypes v) ∨
    ∃ a ∈ r.actions, n = kindType a.method ∨ (a.returns = none ∧ n = anyType)

instance (r : Resource) (n : String) : Decidable (Uses r n) :=
  inferInstanceAs (Decidable (_ ∨ (∃ v ∈ r.verbs, _) ∨ ∃ a ∈ r.actions, _))

/-- Where nothing is said about a type, it is that of any value. -/
theorem names_getD (hn : n ∈ optionalTypes) {t : Option String} (h : ∀ s ∈ t, ¬Names n s) :
    Names n (t.getD anyType) ↔ t = none ∧ n = anyType := by
  cases t with
  | none => exact (piece_anyType hn).names.trans (by simp)
  | some s => exact iff_of_false (h s rfl) (by simp)

theorem piece_clientName (hn : n ∈ optionalTypes) (h : Name.IsCapitalised r.name)
    (hcode : ∀ c ∈ (clientName r).toList, c ∉ Mode.codeStops) : Piece n (clientName r) False := by
  have hother : ∀ n ∈ optionalTypes, ¬"Client".toList <:+ n.toList := by decide
  have hsuffix : "Client".toList <:+ (clientName r).toList := by
    rw [clientName, String.toList_append]
    exact List.suffix_append _ _
  have hne : (clientName r).toList ≠ [] := by
    intro hnil
    rw [hnil] at hsuffix
    exact absurd (List.suffix_nil.1 hsuffix) (by decide)
  refine ⟨hcode, ?_⟩
  rw [names_word hne (isWordChar_clientName h), iff_false]
  rintro rfl
  exact hother _ hn hsuffix

/-- What a client file has behind the line that derives how its client is copied. -/
def clientBody (r : Resource) : List String := (declaration r).drop 2 ++ "" :: implementation r

/-- What every client has names the type of the records only. -/
theorem mentions_fixedItems (hn : n ∈ optionalTypes) {p : Prop} (hmodel : Piece n r.modelType p)
    (hpath : ∀ c ∈ r.path.toList, c ∉ Mode.stringStops) : GroupsMention n (fixedItems r) p := by
  have hfixed : ∀ {l : String}, isFixed l = true → Mentions n (l ++ "\n") False :=
    fun hl => (Piece.fixed hn hl).mentions
  have hclose : Mentions n ("    \x7d" ++ "\n") False := hfixed (by decide)
  -- The label of its type keeps the start of this line from being a piece.
  have hstart : Mentions n "    pub const PATH: &'static str = " False := by
    have hnone : ∀ n ∈ optionalTypes,
        n.toList ∉ wordsOf "    pub const PATH: &'static str = ".toList := by decide
    exact ⟨_, ⟨_, rfl, rfl⟩, endsApart_concat (c := ' ') (by decide)
      "    pub const PATH: &'static str =".toList, iff_of_false (hnone n hn) id⟩
  have hfirst : Mentions n ("    pub const PATH: &'static str = \"" ++ r.path ++ "\";" ++ "\n")
      False := by
    rw [FitsResource.pathLine_eq]
    exact (hstart.append ((Mentions.string hpath).append (hfixed (by decide)))).congr (by simp)
  have hnew : Mentions n ("    pub fn new(client: &Client) -> Self \x7b" ++ "\n") False :=
    hfixed (by decide)
  have hself : Mentions n
      ("        Self \x7b inner: client.resource(Self::PATH) \x7d" ++ "\n") False :=
    hfixed (by decide)
  have hinner : Mentions n
      ("    pub fn inner(&self) -> &ResourceClient<" ++ r.modelType ++ "> \x7b" ++ "\n") p :=
    (hmodel.around hn (by decide) (by decide)).mentions
  have hget : Mentions n ("        &self.inner" ++ "\n") False := hfixed (by decide)
  have hend := hclose.lines_cons Mentions.lines_nil
  exact (GroupsMention.cons (hfirst.lines_cons Mentions.lines_nil)
    (.cons (hnew.lines_cons (hself.lines_cons hend))
      (.cons (hinner.lines_cons (hget.lines_cons hend)) .nil))).congr (by simp)

theorem mentions_methods (hn : n ∈ optionalTypes) {p : Prop} {q : Action → Prop}
    (hmodel : Piece n r.modelType p)
    (hactions : ∀ a ∈ r.actions, Mentions n (textOfLines (Method.ofAction a).lines) (q a)) :
    GroupsMention n ((Method.ofResource r).map Method.lines)
      ((∃ v ∈ r.verbs, n ∈ verbTypes v ∨ v ≠ .delete ∧ p) ∨ ∃ a ∈ r.actions, q a) := by
  have hverbs : ∀ vs : List Verb, GroupsMention n
      (vs.flatMap fun v => (Method.ofVerb r.modelType v).map Method.lines)
      (∃ v ∈ vs, n ∈ verbTypes v ∨ v ≠ .delete ∧ p) :=
    fun vs => .flatMap fun v _ => mentions_ofVerb hn hmodel v
  have hsupports : ∀ v, v ∈ Verb.all.filter r.supports ↔ v ∈ r.verbs := by
    simp [Resource.supports]
  rw [Method.ofResource, List.map_append, List.map_flatMap, List.map_map]
  exact ((hverbs _).append (.map hactions)).congr (by simp only [hsupports])

/-- The body of a client names a type just if the client uses it. -/
theorem mentions_clientBody (hn : n ∈ optionalTypes) {texts : Hole → List String}
    (hfits : FitsResource texts r) (hvalid : r.IsValid)
    (hgiven : ∀ t ∈ givenTypes r, ¬Names n t) :
    Mentions n (textOfLines (clientBody r)) (Uses r n) := by
  have hmodel : Piece n r.modelType (r.model = none ∧ n = anyType) := by
    refine ⟨(hfits.model []).text, names_getD hn fun t ht => hgiven t ?_⟩
    exact List.mem_append_left _ (Option.mem_toList.2 ht)
  have hname : Piece n (clientName r) False :=
    piece_clientName hn hvalid.name (hfits.clientName []).text
  have hactions : ∀ a ∈ r.actions, Mentions n (textOfLines (Method.ofAction a).lines)
      (n = kindType a.method ∨ a.returns = none ∧ n = anyType) := by
    intro a ha
    refine mentions_ofAction hn (hfits.actions a ha) (hvalid.actions a ha)
      (names_getD hn fun t ht => hgiven t ?_)
    exact List.mem_append_right _ (List.mem_filterMap.2 ⟨a, ha, ht⟩)
  have hclose : Mentions n ("\x7d" ++ "\n") False := (Piece.fixed hn (by decide)).mentions
  have hempty : Mentions n ("" ++ "\n") False := (Piece.fixed hn (by decide)).mentions
  have hstruct : Mentions n ("pub struct " ++ clientName r ++ " \x7b" ++ "\n") False :=
    (hname.around hn (by decide) (by decide)).mentions
  have hfield : Mentions n ("    inner: ResourceClient<" ++ r.modelType ++ ">," ++ "\n")
      (r.model = none ∧ n = anyType) := (hmodel.around hn (by decide) (by decide)).mentions
  have himpl : Mentions n ("impl " ++ clientName r ++ " \x7b" ++ "\n") False :=
    (hname.around hn (by decide) (by decide)).mentions
  have hitems := ((mentions_fixedItems hn hmodel (hfits.path []).text).append
    (mentions_methods hn hmodel hactions)).spaced
  have hfront := hstruct.lines_cons (hfield.lines_cons (hclose.lines_cons Mentions.lines_nil))
  have himplementation := ((himpl.lines_cons Mentions.lines_nil).lines_append hitems).lines_append
    (hclose.lines_cons Mentions.lines_nil)
  refine (hfront.lines_append (hempty.lines_cons himplementation)).congr ?_
  rw [Uses]
  by_cases hp : r.model = none ∧ n = anyType
  · simp only [hp, true_or, or_true, and_self]
  · simp only [hp, and_false, or_false, false_or]

end Client

end ResourceApi.Facade
