import Mathlib.Data.List.Nodup
import ResourceApi.Manifest.Rules
import ResourceApi.Proofs.Manifest.TypeText

/-!
What checking a manifest decides. The rules are said here of the manifest as a whole, without the
order in which they are checked; a manifest passes if and only if it keeps them all. If it does
not, the error is true of it, and is about the first resource that breaks a rule.
-/

namespace ResourceApi

/-! ### The rules -/

structure Action.IsValid (a : Action) : Prop where
  name : Name.IsFree a.name
  returns : ∀ t ∈ a.returns, Name.IsTypeText t
  segment : Name.IsSegment a.segment.toList
  params : ∀ p ∈ a.params, Name.IsFree p ∧ p ≠ "options" ∧ p ≠ "body"
  distinct : a.params.Nodup
  body : a.method = .get → a.takesBody = false

/-- The methods that a client owes to the manifest. -/
def Resource.methodNames (r : Resource) : List String :=
  r.verbs.flatMap Verb.methods ++ r.actions.map Action.name

structure Resource.IsValid (r : Resource) : Prop where
  name : Name.IsCapitalised r.name
  module : r.module ∉ Name.keywords
  model : ∀ t ∈ r.model, Name.IsTypeText t
  path : Name.IsSegmentPath r.path
  methods : r.methodNames.Nodup
  actions : ∀ a ∈ r.actions, a.IsValid

structure Manifest.IsValid (m : Manifest) : Prop where
  resources : ∀ r ∈ m.resources, r.IsValid
  modules : (m.resources.map Resource.module).Nodup

/-- The rules for a resource, given those before it. -/
def Resource.KeepsRules (before : List Resource) (r : Resource) : Prop :=
  r.IsValid ∧ r.module ∉ before.map Resource.module

theorem Manifest.isValid_append_singleton {before : List Resource} {r : Resource} :
    (Manifest.mk (before ++ [r])).IsValid ↔
      (Manifest.mk before).IsValid ∧ r.KeepsRules before := by
  have hmodules : ((before ++ [r]).map Resource.module).Nodup ↔
      (before.map Resource.module).Nodup ∧ r.module ∉ before.map Resource.module := by
    rw [List.map_append, List.nodup_append_comm, List.map_singleton, List.singleton_append,
      List.nodup_cons, and_comm]
  constructor
  · intro h
    obtain ⟨hbefore, hfresh⟩ := hmodules.1 h.modules
    refine ⟨⟨fun q hq => h.resources q ?_, hbefore⟩, h.resources r ?_, hfresh⟩
    · exact List.mem_append_left _ hq
    · exact List.mem_append_right _ (List.mem_singleton_self r)
  · rintro ⟨h, hr, hfresh⟩
    refine ⟨fun q hq => ?_, hmodules.2 ⟨h.modules, hfresh⟩⟩
    rcases List.mem_append.1 hq with hq | hq
    · exact h.resources q hq
    · rwa [List.mem_singleton.1 hq]

/-! ### What errors say -/

def BrokenRule.resource : BrokenRule → String
  | .duplicateResource r => r
  | .badResourceName r => r
  | .moduleClash r _ => r
  | .badPath r _ => r
  | .badType r _ => r
  | .badIdentifier r _ => r
  | .duplicateMethod r _ => r
  | .bodyOnGet r _ => r

/-- What an error can say of an action. -/
def Action.Breaks (a : Action) : BrokenRule → Prop
  | .badIdentifier _ x => x = a.name ∧ ¬Name.IsFree x ∨
      x ∈ a.params ∧ (¬Name.IsFree x ∨ x = "options" ∨ x = "body" ∨ 2 ≤ a.params.count x)
  | .badType _ t => a.returns = some t ∧ ¬Name.IsTypeText t
  | .badPath _ p => p = a.segment ∧ ¬Name.IsSegment p.toList
  | .bodyOnGet _ x => x = a.name ∧ a.method = .get ∧ a.takesBody = true
  | _ => False

/-- What an error can say of a resource of a manifest, apart from its actions. -/
def Resource.Breaks (m : Manifest) (before : List Resource) (r : Resource) : BrokenRule → Prop
  | .badResourceName _ => ¬Name.IsCapitalised r.name ∨ r.module ∈ Name.keywords
  -- The second one may come later, if a resource of another name has taken the module.
  | .duplicateResource _ => 2 ≤ (m.resources.map Resource.name).count r.name
  | .moduleClash _ k => k = r.module ∧ ∃ q ∈ before, q.name ≠ r.name ∧ q.module = k
  | .badType _ t => r.model = some t ∧ ¬Name.IsTypeText t
  | .badPath _ p => p = r.path ∧ ¬Name.IsSegmentPath p
  | .duplicateMethod _ x => 2 ≤ r.methodNames.count x
  | _ => False

/-- An error is about a resource, and says what is so. -/
def BrokenRule.IsTrueOf (m : Manifest) (before : List Resource) (r : Resource) (e : BrokenRule) :
    Prop :=
  e.resource = r.name ∧ (r.Breaks m before e ∨ ∃ a ∈ r.actions, a.Breaks e)

/-- An error is about the first resource that breaks a rule. -/
def BrokenRule.IsFirstOf (m : Manifest) (e : BrokenRule) : Prop :=
  ∃ before r after, m.resources = before ++ r :: after ∧ (Manifest.mk before).IsValid ∧
    ¬r.KeepsRules before ∧ e.IsTrueOf m before r

namespace Manifest

/-! ### Sequences of checks -/

section Sequences

variable {ε α β : Type}

theorem bind_eq_ok {x : Except ε α} {f : α → Except ε β} {b : β} :
    (x >>= f) = .ok b ↔ ∃ a, x = .ok a ∧ f a = .ok b := by
  cases x <;> simp [bind, Except.bind]

theorem bind_eq_error {x : Except ε α} {f : α → Except ε β} {e : ε} :
    (x >>= f) = .error e ↔ x = .error e ∨ ∃ a, x = .ok a ∧ f a = .error e := by
  cases x <;> simp [bind, Except.bind]

theorem require_eq_ok {c : Bool} {e : BrokenRule} {u : Unit} :
    require c e = .ok u ↔ c = true := by
  cases c <;> simp [require]

theorem require_eq_error {c : Bool} {e e' : BrokenRule} :
    require c e = .error e' ↔ c = false ∧ e = e' := by
  cases c <;> simp [require]

/-- A step that accepts good elements with a new key, and keeps the key. -/
def Collects (f : List String → α → Except ε (List String)) (key : α → String)
    (good : α → Prop) : Prop :=
  ∀ seen a seen', f seen a = .ok seen' ↔ (good a ∧ key a ∉ seen) ∧ seen' = key a :: seen

variable {f : List String → α → Except ε (List String)} {key : α → String} {good : α → Prop}

/-- Elements are collected if all are good and their keys are new and distinct. -/
theorem Collects.foldlM_eq_ok (hf : Collects f key good) {xs : List α} {seen seen' : List String} :
    xs.foldlM f seen = .ok seen' ↔
      ((∀ a ∈ xs, good a) ∧ (xs.map key).Nodup ∧ ∀ a ∈ xs, key a ∉ seen) ∧
        seen' = (xs.map key).reverse ++ seen := by
  induction xs generalizing seen with
  | nil => simp [pure, Except.pure, eq_comm]
  | cons a xs ih =>
    rw [List.foldlM_cons, bind_eq_ok]
    constructor
    · rintro ⟨seen', hstep, hrest⟩
      obtain ⟨⟨hgood, hnew⟩, rfl⟩ := (hf _ _ _).1 hstep
      obtain ⟨⟨hgoods, hnodup, hnews⟩, rfl⟩ := ih.1 hrest
      have hother : ∀ b ∈ xs, key b ≠ key a ∧ key b ∉ seen := fun b hb =>
        not_or.1 (List.mem_cons.not.1 (hnews b hb))
      refine ⟨⟨List.forall_mem_cons.2 ⟨hgood, hgoods⟩, List.nodup_cons.2 ⟨fun hmem => ?_, hnodup⟩,
        List.forall_mem_cons.2 ⟨hnew, fun b hb => (hother b hb).2⟩⟩, by simp⟩
      obtain ⟨b, hb, heq⟩ := List.mem_map.1 hmem
      exact (hother b hb).1 heq
    · rintro ⟨⟨hgood, hnodup, hnew⟩, rfl⟩
      obtain ⟨hgood, hgoods⟩ := List.forall_mem_cons.1 hgood
      obtain ⟨hnew, hnews⟩ := List.forall_mem_cons.1 hnew
      obtain ⟨hother, hnodup⟩ := List.nodup_cons.1 hnodup
      refine ⟨key a :: seen, (hf _ _ _).2 ⟨⟨hgood, hnew⟩, rfl⟩, ih.2 ⟨⟨hgoods, hnodup, ?_⟩, ?_⟩⟩
      · intro b hb hmem
        rcases List.mem_cons.1 hmem with heq | hmem
        · exact hother (heq ▸ List.mem_map_of_mem hb)
        · exact hnews b hb hmem
      · simp

/-- Collecting fails at the first element that is not accepted. -/
theorem Collects.foldlM_eq_error (hf : Collects f key good) {xs : List α} {seen : List String}
    {e : ε} (h : xs.foldlM f seen = .error e) :
    ∃ front a back, xs = front ++ a :: back ∧ f ((front.map key).reverse ++ seen) a = .error e := by
  induction xs generalizing seen with
  | nil => cases h
  | cons a xs ih =>
    rw [List.foldlM_cons, bind_eq_error] at h
    rcases h with h | ⟨seen', hstep, h⟩
    · exact ⟨[], a, xs, rfl, h⟩
    · obtain ⟨-, rfl⟩ := (hf _ _ _).1 hstep
      obtain ⟨front, b, back, rfl, hb⟩ := ih h
      exact ⟨a :: front, b, back, rfl, by simpa using hb⟩

theorem collects_guard {bad : List String → String → Bool} {error : String → ε}
    {good : String → Prop} (h : ∀ seen x, bad seen x = false ↔ good x ∧ x ∉ seen) :
    Collects (fun seen x => if bad seen x then .error (error x) else .ok (x :: seen)) id good := by
  intro seen x seen'
  simp only [id, ← h seen x]
  cases bad seen x with
  | false => simpa using eq_comm
  | true => simp

theorem two_le_count {x : String} {front back : List String} (h : x ∈ front) :
    2 ≤ (front ++ x :: back).count x := by
  have := List.count_pos_iff.2 h
  rw [List.count_append, List.count_cons_self]
  omega

end Sequences

/-! ### The checks one by one -/

variable {r : Resource} {taken taken' : List String} {e : BrokenRule}

theorem collects_reserve (r : Resource) : Collects (reserve r) id fun _ => True :=
  collects_guard (by simp)

theorem reserve_eq_error {x : String} (h : reserve r taken x = .error e) :
    e = .duplicateMethod r.name x ∧ x ∈ taken := by
  rw [reserve] at h
  split at h
  · rename_i htaken
    cases h
    exact ⟨rfl, List.contains_iff_mem.1 htaken⟩
  · cases h

theorem checkParam_accepts {seen : List String} {p : String} :
    (!Name.isPlainName p || reservedParams.contains p || seen.contains p) = false ↔
      (Name.IsFree p ∧ p ≠ "options" ∧ p ≠ "body") ∧ p ∉ seen := by
  rw [← Name.isPlainName_iff]
  simp [reservedParams, and_assoc]

theorem collects_checkParam (r : Resource) : Collects (checkParam r) id
    fun p => Name.IsFree p ∧ p ≠ "options" ∧ p ≠ "body" :=
  collects_guard fun _ _ => checkParam_accepts

theorem checkParam_eq_error {seen : List String} {p : String}
    (h : checkParam r seen p = .error e) :
    e = .badIdentifier r.name p ∧ (¬Name.IsFree p ∨ p = "options" ∨ p = "body" ∨ p ∈ seen) := by
  rw [checkParam] at h
  split at h
  · rename_i hbad
    cases h
    refine ⟨rfl, ?_⟩
    by_contra hgood
    rw [checkParam_accepts.2 (by tauto)] at hbad
    cases hbad
  · cases h

theorem checkParams_eq_ok {ps : List String} :
    (∃ seen, ps.foldlM (checkParam r) [] = .ok seen) ↔
      (∀ p ∈ ps, Name.IsFree p ∧ p ≠ "options" ∧ p ≠ "body") ∧ ps.Nodup := by
  simp [(collects_checkParam r).foldlM_eq_ok]

theorem checkParams_eq_error {ps : List String} (h : ps.foldlM (checkParam r) [] = .error e) :
    ∃ p ∈ ps, e = .badIdentifier r.name p ∧
      (¬Name.IsFree p ∨ p = "options" ∨ p = "body" ∨ 2 ≤ ps.count p) := by
  obtain ⟨front, p, back, rfl, hp⟩ := (collects_checkParam r).foldlM_eq_error h
  obtain ⟨rfl, hbad⟩ := checkParam_eq_error hp
  refine ⟨p, by simp, rfl, ?_⟩
  rcases hbad with hbad | hbad | hbad | hseen
  · exact .inl hbad
  · exact .inr (.inl hbad)
  · exact .inr (.inr (.inl hbad))
  · exact .inr (.inr (.inr (two_le_count (by simpa using hseen))))

theorem reserveAll_eq_ok {ms : List String} :
    reserveAll r [] ms = .ok taken ↔ ms.Nodup ∧ taken = ms.reverse := by
  simp [reserveAll, (collects_reserve r).foldlM_eq_ok]

theorem reserveAll_eq_error {ms : List String} (h : reserveAll r [] ms = .error e) :
    ∃ x, e = .duplicateMethod r.name x ∧ 2 ≤ ms.count x := by
  obtain ⟨front, x, back, rfl, hx⟩ := (collects_reserve r).foldlM_eq_error h
  obtain ⟨rfl, htaken⟩ := reserve_eq_error hx
  exact ⟨x, rfl, two_le_count (by simpa using htaken)⟩

theorem all_isTypeText {t : Option String} :
    t.all Name.isTypeText = true ↔ ∀ s ∈ t, Name.IsTypeText s := by
  cases t <;> simp [Name.isTypeText_iff]

theorem all_isTypeText_eq_false {t : Option String} :
    t.all Name.isTypeText = false ↔ ∃ s, t = some s ∧ ¬Name.IsTypeText s := by
  cases t <;> simp [← Name.isTypeText_iff]

theorem collects_checkAction (r : Resource) :
    Collects (checkAction r) Action.name Action.IsValid := by
  intro taken a taken'
  simp only [checkAction, bind_eq_ok, require_eq_ok, exists_const, Name.isPlainName_iff,
    all_isTypeText, Name.isPlainSegment_iff]
  have hget : (!(a.takesBody && decide (a.method = .get))) = true ↔
      (a.method = .get → a.takesBody = false) := by
    simp [imp_iff_not_or, or_comm]
  constructor
  · rintro ⟨hname, _, hreserve, hreturns, hsegment, _, hparams, hbody, ⟨⟩⟩
    obtain ⟨⟨-, hnew⟩, rfl⟩ := (collects_reserve r _ _ _).1 hreserve
    obtain ⟨hfree, hdistinct⟩ := checkParams_eq_ok.1 ⟨_, hparams⟩
    exact ⟨⟨⟨hname, hreturns, hsegment, hfree, hdistinct, hget.1 hbody⟩, hnew⟩, rfl⟩
  · rintro ⟨⟨ha, hnew⟩, rfl⟩
    obtain ⟨seen, hparams⟩ := checkParams_eq_ok.2 ⟨ha.params, ha.distinct⟩
    have hreserve := (collects_reserve r taken a.name _).2 ⟨⟨trivial, hnew⟩, rfl⟩
    exact ⟨ha.name, _, hreserve, ha.returns, ha.segment, seen, hparams, hget.2 ha.body, rfl⟩

/-- An action fails for what is wrong with it, or because its name is taken. -/
theorem checkAction_eq_error {a : Action} (h : checkAction r taken a = .error e) :
    e.resource = r.name ∧ a.Breaks e ∨ e = .duplicateMethod r.name a.name ∧ a.name ∈ taken := by
  simp only [checkAction, bind_eq_error, require_eq_error, require_eq_ok, exists_const] at h
  rcases h with ⟨hname, rfl⟩ | ⟨-, hreserve | ⟨taken', -, h⟩⟩
  · refine .inl ⟨rfl, .inl ⟨rfl, ?_⟩⟩
    rw [← Name.isPlainName_iff, hname]
    decide
  · exact .inr (reserve_eq_error hreserve)
  rcases h with ⟨hreturns, rfl⟩ | ⟨-, ⟨hsegment, rfl⟩ | ⟨-, hparams | ⟨seen, -, hbody⟩⟩⟩
  · obtain ⟨t, ht, hbad⟩ := all_isTypeText_eq_false.1 hreturns
    have htype : a.returnType = t := by rw [Action.returnType, ht, Option.getD_some]
    exact .inl ⟨rfl, by rw [htype]; exact ⟨ht, hbad⟩⟩
  · refine .inl ⟨rfl, rfl, ?_⟩
    rw [← Name.isPlainSegment_iff, hsegment]
    decide
  · obtain ⟨p, hp, rfl, hbad⟩ := checkParams_eq_error hparams
    exact .inl ⟨rfl, .inr ⟨hp, hbad⟩⟩
  · rcases hbody with ⟨hbody, rfl⟩ | ⟨-, ⟨⟩⟩
    refine .inl ⟨rfl, rfl, ?_⟩
    simpa [and_comm] using hbody

variable {m : Manifest} {before after : List Resource}

theorem nodup_methodNames : r.methodNames.Nodup ↔
    (r.verbs.flatMap Verb.methods).Nodup ∧ (r.actions.map Action.name).Nodup ∧
      ∀ a ∈ r.actions, a.name ∉ r.verbs.flatMap Verb.methods := by
  rw [Resource.methodNames, List.nodup_append, and_congr_right_iff, and_congr_right_iff]
  intro _ _
  constructor
  · intro h a ha hmem
    exact h _ hmem _ (List.mem_map_of_mem ha) rfl
  · rintro h x hx _ hy rfl
    obtain ⟨a, ha, rfl⟩ := List.mem_map.1 hy
    exact h a ha hx

/-- A resource passes its check just if it keeps the rules. -/
theorem checkResource_eq_ok : checkResource m before r = .ok () ↔ r.KeepsRules before := by
  have hname : (Name.isCapitalised r.name && !Name.isKeyword r.module) = true ↔
      Name.IsCapitalised r.name ∧ r.module ∉ Name.keywords := by
    rw [← Name.isCapitalised_iff, ← Name.isKeyword_iff]
    simp
  have hfresh : (!(before.map Resource.module).contains r.module) = true ↔
      r.module ∉ before.map Resource.module := by
    simp
  simp only [checkResource, bind_eq_ok, require_eq_ok, exists_const, hname, hfresh,
    all_isTypeText, Name.isCollectionPath_iff, reserveAll_eq_ok,
    (collects_checkAction r).foldlM_eq_ok]
  constructor
  · rintro ⟨⟨hname, hmodule⟩, hfresh, hmodel, hpath, _, ⟨hmethods, rfl⟩, _,
      ⟨⟨hactions, hnames, hnew⟩, -⟩, -⟩
    refine ⟨⟨hname, hmodule, hmodel, hpath, nodup_methodNames.2 ⟨hmethods, hnames, ?_⟩, hactions⟩,
      hfresh⟩
    simpa using hnew
  · rintro ⟨hr, hfresh⟩
    obtain ⟨hmethods, hnames, hnew⟩ := nodup_methodNames.1 hr.methods
    exact ⟨⟨hr.name, hr.module⟩, hfresh, hr.model, hr.path, _, ⟨hmethods, rfl⟩, _,
      ⟨⟨hr.actions, hnames, by simpa using hnew⟩, rfl⟩, trivial⟩

/-- Where a module is taken, the manifest has the name of the resource twice, or a resource before
it has another name. -/
theorem clash_breaks (hm : m.resources = before ++ r :: after)
    (hclash : r.module ∈ before.map Resource.module)
    (he : (if (m.resources.filter (·.name == r.name)).length = 1 then
      BrokenRule.moduleClash r.name r.module else .duplicateResource r.name) = e) :
    e.resource = r.name ∧ r.Breaks m before e := by
  have hcount : (m.resources.filter (·.name == r.name)).length =
      (m.resources.map Resource.name).count r.name := by
    rw [List.count, List.countP_map, List.countP_eq_length_filter]
    rfl
  rw [hcount] at he
  split at he
  · rename_i hone
    subst he
    obtain ⟨q, hq, hmodule⟩ := List.mem_map.1 hclash
    refine ⟨rfl, rfl, q, hq, ?_, hmodule⟩
    intro hname
    have : 2 ≤ (m.resources.map Resource.name).count r.name := by
      rw [hm, List.map_append, List.map_cons]
      exact two_le_count (hname ▸ List.mem_map_of_mem hq)
    omega
  · rename_i hmany
    subst he
    have hmem : r.name ∈ m.resources.map Resource.name :=
      List.mem_map_of_mem (by simp [hm])
    have := List.count_pos_iff.2 hmem
    refine ⟨rfl, ?_⟩
    show 2 ≤ _
    omega

/-- Checking the actions after the verbs fails for an action, or for a name that is used twice. -/
theorem checkActions_eq_error
    (h : r.actions.foldlM (checkAction r) (r.verbs.flatMap Verb.methods).reverse = .error e) :
    e.IsTrueOf m before r := by
  obtain ⟨front, a, back, hactions, ha⟩ := (collects_checkAction r).foldlM_eq_error h
  have hmem : a ∈ r.actions := by simp [hactions]
  rcases checkAction_eq_error ha with ⟨hresource, hbreaks⟩ | ⟨rfl, htaken⟩
  · exact ⟨hresource, .inr ⟨a, hmem, hbreaks⟩⟩
  · have hnames : r.methodNames = (r.verbs.flatMap Verb.methods ++ front.map Action.name) ++
        a.name :: back.map Action.name := by
      simp [Resource.methodNames, hactions]
    refine ⟨rfl, .inl ?_⟩
    show 2 ≤ r.methodNames.count a.name
    rw [hnames]
    refine two_le_count ?_
    simpa [or_comm] using htaken

/-- What the check says against a resource is true of it. -/
theorem checkResource_eq_error (hm : m.resources = before ++ r :: after)
    (h : checkResource m before r = .error e) : e.IsTrueOf m before r := by
  simp only [checkResource, bind_eq_error, require_eq_error, require_eq_ok, exists_const] at h
  rcases h with ⟨hname, rfl⟩ | ⟨-, ⟨hclash, he⟩ | ⟨-, h⟩⟩
  · refine ⟨rfl, .inl ?_⟩
    show ¬Name.IsCapitalised r.name ∨ r.module ∈ Name.keywords
    rw [← Name.isCapitalised_iff, ← Name.isKeyword_iff]
    cases hc : Name.isCapitalised r.name <;> simp_all
  · obtain ⟨hresource, hbreaks⟩ := clash_breaks hm (by simpa using hclash) he
    exact ⟨hresource, .inl hbreaks⟩
  rcases h with ⟨hmodel, rfl⟩ | ⟨-, ⟨hpath, rfl⟩ | ⟨-, h⟩⟩
  · obtain ⟨t, ht, hbad⟩ := all_isTypeText_eq_false.1 hmodel
    have htype : r.modelType = t := by rw [Resource.modelType, ht, Option.getD_some]
    exact ⟨rfl, .inl (by rw [htype]; exact ⟨ht, hbad⟩)⟩
  · refine ⟨rfl, .inl ⟨rfl, ?_⟩⟩
    rw [← Name.isCollectionPath_iff, hpath]
    decide
  rcases h with hverbs | ⟨taken, hverbs, hactions | ⟨-, -, ⟨⟩⟩⟩
  · obtain ⟨x, rfl, hcount⟩ := reserveAll_eq_error hverbs
    refine ⟨rfl, .inl ?_⟩
    show 2 ≤ r.methodNames.count x
    rw [Resource.methodNames, List.count_append]
    omega
  · obtain ⟨-, rfl⟩ := reserveAll_eq_ok.1 hverbs
    exact checkActions_eq_error hactions

/-! ### Whole manifests -/

theorem isValid_nil : (Manifest.mk []).IsValid := ⟨by simp, by simp⟩

theorem IsValid.left {rs rs' : List Resource} (h : (Manifest.mk (rs ++ rs')).IsValid) :
    (Manifest.mk rs).IsValid := by
  refine ⟨fun r hr => h.resources r (List.mem_append_left _ hr), ?_⟩
  have hmodules := h.modules
  rw [List.map_append] at hmodules
  exact (List.nodup_append.1 hmodules).1

/-- A manifest in order is in order up to each of its resources. -/
theorem not_isValid_of_isFirstOf (h : e.IsFirstOf m) : ¬m.IsValid := by
  obtain ⟨before, r, after, hm, -, hbroken, -⟩ := h
  obtain ⟨resources⟩ := m
  obtain rfl : resources = before ++ r :: after := hm
  intro hvalid
  rw [List.append_cons] at hvalid
  exact hbroken (isValid_append_singleton.1 hvalid.left).2

/-- What the outcome of a check says. -/
def Decides (m : Manifest) : Check Unit → Prop
  | .ok _ => m.IsValid
  | .error e => e.IsFirstOf m

/-- Resources are checked one after the other, those in front being valid. -/
theorem decides_checkFrom (rest before : List Resource) (hm : m.resources = before ++ rest)
    (hbefore : (Manifest.mk before).IsValid) : m.Decides (checkFrom m before rest) := by
  induction rest generalizing before with
  | nil =>
    obtain ⟨resources⟩ := m
    obtain rfl : resources = before ++ [] := hm
    rwa [checkFrom, Decides, List.append_nil]
  | cons r rest ih =>
    rw [checkFrom]
    cases hr : checkResource m before r with
    | ok =>
      have hnext := isValid_append_singleton.2 ⟨hbefore, checkResource_eq_ok.1 hr⟩
      exact ih (before ++ [r]) (by simp [hm]) hnext
    | error e =>
      refine ⟨before, r, rest, hm, hbefore, fun hkeeps => ?_, checkResource_eq_error hm hr⟩
      rw [checkResource_eq_ok.2 hkeeps] at hr
      cases hr

theorem decides_check (m : Manifest) : m.Decides m.check :=
  decides_checkFrom m.resources [] rfl isValid_nil

theorem isValid_of_check (h : m.check = .ok ()) : m.IsValid := by
  have := decides_check m
  rwa [h] at this

/-- A manifest passes exactly if it keeps the rules, and an error that is reported for it is true
and is about the first resource that breaks one. -/
theorem check_accepts_exactly_valid (m : Manifest) :
    (m.check = .ok () ↔ m.IsValid) ∧ ∀ e, m.check = .error e → e.IsFirstOf m := by
  refine ⟨⟨isValid_of_check, fun hvalid => ?_⟩, fun e he => ?_⟩
  · have hcheck := decides_check m
    cases h : m.check with
    | ok => rfl
    | error e =>
      rw [h] at hcheck
      exact absurd hvalid (not_isValid_of_isFirstOf hcheck)
  · have hcheck := decides_check m
    rwa [he] at hcheck

def clashing : Manifest :=
  ⟨[⟨"ABc", "/a", none, [.get], []⟩, ⟨"Abc", "/b", none, [.get], []⟩]⟩

/-- The second of two resources is the one that clashes. -/
theorem clashing_is_rejected :
    clashing.check = .error (.moduleClash "Abc" "abc") ∧
      BrokenRule.IsFirstOf clashing (.moduleClash "Abc" "abc") := by
  have hcheck : clashing.check = .error (.moduleClash "Abc" "abc") := by decide +kernel
  exact ⟨hcheck, (check_accepts_exactly_valid clashing).2 _ hcheck⟩

end Manifest

end ResourceApi
