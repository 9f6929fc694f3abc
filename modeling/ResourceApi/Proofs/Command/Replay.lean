import ResourceApi.Proofs.Command.Frame

/-!
The contexts as a replay of the commands that succeeded. A context is there if a command set it and
none behind that deleted it; its place is that of its creation, and each of its values is the last
one that it was given since then.
-/

namespace ResourceApi.Command

/-! ### Creations -/

/-- A history is cut where the context that has a name at its end was created: the rest starts with
a command that sets it and has none that deletes it, and in front of the cut each command that sets
it is undone. -/
structure Creation (history : List ContextCommand) (name : String)
    (before since : List ContextCommand) : Prop where
  cut : history = before ++ since
  set : ∃ x after, since = .set name x :: after
  kept : .delete name ∉ since
  anew : ∀ b x a, before = b ++ .set name x :: a → .delete name ∈ a

namespace Creation

variable {h before since before' since' : List ContextCommand} {name : String} {c : ContextCommand}

/-- Of two places where a context could be created, neither lies in front of the other. -/
theorem prefix_eq (hc : Creation h name before since) (hc' : Creation h name before' since')
    {t : List ContextCommand} (ht : before' = before ++ t) : t = [] := by
  obtain ⟨x, after, rfl⟩ := hc.set
  cases t with
  | nil => rfl
  | cons d t =>
    have hcut : .set name x :: after = d :: t ++ since' := by
      have heq := hc.cut.symm.trans hc'.cut
      rw [ht, List.append_assoc] at heq
      exact List.append_cancel_left heq
    obtain ⟨rfl, rfl⟩ := List.cons.inj hcut
    have hdeleted := hc'.anew before x t ht
    exact absurd (List.mem_cons_of_mem _ (List.mem_append_left since' hdeleted)) hc.kept

/-- There is only one place where a context was created. -/
theorem unique (hc : Creation h name before since) (hc' : Creation h name before' since') :
    before = before' ∧ since = since' := by
  have hbefore : before = before' := by
    rcases List.append_eq_append_iff.1 (hc.cut.symm.trans hc'.cut) with ⟨t, ht, -⟩ | ⟨t, ht, -⟩
    · rw [ht, hc.prefix_eq hc' ht, List.append_nil]
    · rw [ht, hc'.prefix_eq hc ht, List.append_nil]
  have hcut := hc.cut.symm.trans hc'.cut
  rw [hbefore] at hcut
  exact ⟨hbefore, List.append_cancel_left hcut⟩

/-- A context that was set and not deleted since then was created somewhere. -/
theorem exists_of_set {b a : List ContextCommand} {x : ContextChange}
    (hh : h = b ++ .set name x :: a) (ha : .delete name ∉ a) :
    ∃ before since, Creation h name before since := by
  by_cases hearlier : ∃ b' y a', b = b' ++ .set name y :: a' ∧ .delete name ∉ a'
  · obtain ⟨b', y, a', rfl, ha'⟩ := hearlier
    exact exists_of_set (b := b') (x := y) (a := a' ++ .set name x :: a) (by simp [hh])
      (by simp [ha, ha'])
  · refine ⟨b, .set name x :: a, hh, ⟨x, a, rfl⟩, by simp [ha], fun b' y a' hb' => ?_⟩
    by_cases ha' : .delete name ∈ a'
    · exact ha'
    · exact absurd ⟨b', y, a', hb', ha'⟩ hearlier
  termination_by b.length

/-- A context that is not deleted by a further command stays created where it was. -/
theorem append (hc : Creation h name before since) (hd : c ≠ .delete name) :
    Creation (h ++ [c]) name before (since ++ [c]) where
  cut := by rw [hc.cut, List.append_assoc]
  set := by
    obtain ⟨x, after, rfl⟩ := hc.set
    exact ⟨x, after ++ [c], rfl⟩
  kept := by simp [hc.kept, hd.symm]
  anew := hc.anew

/-- A context that was not there is created by the command that sets it. -/
theorem of_new (hnew : ∀ before since, ¬Creation h name before since) (x : ContextChange) :
    Creation (h ++ [.set name x]) name h [.set name x] where
  cut := rfl
  set := ⟨x, [], rfl⟩
  kept := by simp
  anew b y a hh := by
    by_cases ha : .delete name ∈ a
    · exact ha
    · obtain ⟨before, since, hc⟩ := exists_of_set hh ha
      exact absurd hc (hnew before since)

/-- What is created after a further command was created before, or by it. -/
theorem append_cases (hc : Creation (h ++ [c]) name before since) :
    (∃ since', c ≠ .delete name ∧ Creation h name before since') ∨
      (∃ x, c = .set name x) ∧ before = h := by
  obtain ⟨x, after, rfl⟩ := hc.set
  rcases List.eq_nil_or_concat after with rfl | ⟨after, d, rfl⟩
  · obtain ⟨rfl, hlast⟩ := List.append_inj' hc.cut rfl
    exact .inr ⟨⟨x, List.head_eq_of_cons_eq hlast⟩, rfl⟩
  · have hcut : h ++ [c] = (before ++ .set name x :: after) ++ [d] := by
      simpa using hc.cut
    obtain ⟨rfl, hlast⟩ := List.append_inj' hcut rfl
    obtain rfl := List.head_eq_of_cons_eq hlast
    have hkept := hc.kept
    simp only [List.concat_eq_append, List.mem_cons, List.mem_append, not_or] at hkept
    refine .inl ⟨.set name x :: after, fun heq => ?_, rfl, ⟨x, after, rfl⟩, ?_, hc.anew⟩
    · exact hkept.2.2.1 heq.symm
    · simp [hkept.2.1]

/-- A further command does not move the place where a context was created. -/
theorem before_eq (hc : Creation h name before since)
    (hc' : Creation (h ++ [c]) name before' since') : before' = before := by
  rcases append_cases hc' with ⟨_, -, hold⟩ | ⟨⟨x, rfl⟩, -⟩
  · exact (hold.unique hc).1
  · exact (hc'.unique (hc.append (by simp))).1

theorem length_lt (hc : Creation h name before since) : before.length < h.length := by
  obtain ⟨x, after, rfl⟩ := hc.set
  rw [hc.cut, List.length_append, List.length_cons]
  omega

end Creation

/-! ### Values -/

/-- What a command gives to a context. -/
def ContextCommand.change? (name : String) : ContextCommand → Option ContextChange
  | .set n x => if n = name then some x else none
  | _ => none

/-- The last value of one kind that commands gave to a context. -/
def lastGiven {α : Type} (value : ContextChange → Option α) (name : String)
    (h : List ContextCommand) : Option α :=
  (h.filterMap fun c => (c.change? name).bind value).getLast?

/-- The context that commands make of an empty one. -/
def replayed (name : String) (h : List ContextCommand) : Context where
  name := name
  server := ((lastGiven (·.server) name h).map Path.trimmed).getD ""
  token := (lastGiven (·.token) name h).getD ""
  timeoutSecs := lastGiven (·.timeoutSecs) name h

/-- A command behind a history counts before all that was given in it. -/
theorem lastGiven_append {α : Type} (value : ContextChange → Option α) (name : String)
    (h : List ContextCommand) (c : ContextCommand) :
    lastGiven value name (h ++ [c]) = ((c.change? name).bind value <|> lastGiven value name h) := by
  cases hc : (c.change? name).bind value with
  | none => simp [lastGiven, hc]
  | some x => simp [lastGiven, hc]

/-- A further change of a context is made last. -/
theorem replayed_append_set (name : String) (h : List ContextCommand) (x : ContextChange) :
    replayed name (h ++ [.set name x]) = (replayed name h).change x := by
  obtain ⟨server, token, timeout⟩ := x
  cases server <;> cases token <;>
    simp [replayed, lastGiven_append, ContextCommand.change?, Context.change]

/-- Commands about other contexts change nothing about this one. -/
theorem replayed_append_other {name : String} {c : ContextCommand}
    (hc : c.change? name = none) (h : List ContextCommand) :
    replayed name (h ++ [c]) = replayed name h := by
  simp [replayed, lastGiven_append, hc]

/-! ### Replay -/

/-- A store that holds what a history made. -/
structure ReplayOf (history : List ContextCommand) (s : ContextStore) : Prop where
  values : ∀ c ∈ s.contexts, ∃ before since, Creation history c.name before since ∧
    c = replayed c.name since
  stored : ∀ {name before since}, Creation history name before since → name ∈ s.names
  order : s.contexts.Pairwise fun c d => ∀ before since before' since',
    Creation history c.name before since → Creation history d.name before' since' →
      before.length < before'.length

theorem replayOf_nil : ReplayOf [] .empty where
  values := by simp [ContextStore.empty]
  stored hc := by
    have hlt := hc.length_lt
    simp at hlt
  order := .nil

namespace ReplayOf

variable {h : List ContextCommand} {s : ContextStore} {c : ContextCommand} {name : String}

/-- Contexts stay in the order in which they were created. -/
theorem order_append (hs : ReplayOf h s) (c : ContextCommand) :
    s.contexts.Pairwise fun a b => ∀ before since before' since',
      Creation (h ++ [c]) a.name before since → Creation (h ++ [c]) b.name before' since' →
        before.length < before'.length := by
  refine hs.order.imp_of_mem ?_
  intro a b ha hb hlt before since before' since' hbefore hbefore'
  obtain ⟨_, _, hcreated, -⟩ := hs.values a ha
  obtain ⟨_, _, hcreated', -⟩ := hs.values b hb
  rw [hcreated.before_eq hbefore, hcreated'.before_eq hbefore']
  exact hlt _ _ _ _ hcreated hcreated'

/-- The values of a context that a further command neither sets nor deletes. -/
theorem values_other (hs : ReplayOf h s) {k : Context} (hk : k ∈ s.contexts)
    (hd : c ≠ .delete k.name) (hc : c.change? k.name = none) :
    ∃ before since, Creation (h ++ [c]) k.name before since ∧ k = replayed k.name since := by
  obtain ⟨before, since, hcreated, hvalues⟩ := hs.values k hk
  refine ⟨before, since ++ [c], hcreated.append hd, ?_⟩
  rw [replayed_append_other hc]
  exact hvalues

/-- A context that is not set now was there before, and is not deleted now. -/
theorem stored_other (hs : ReplayOf h s) (hc : ∀ x, c ≠ .set name x)
    {before since : List ContextCommand} (hcreated : Creation (h ++ [c]) name before since) :
    c ≠ .delete name ∧ name ∈ s.names := by
  rcases hcreated.append_cases with ⟨_, hd, hold⟩ | ⟨⟨x, hx⟩, -⟩
  · exact ⟨hd, hs.stored hold⟩
  · exact absurd hx (hc x)

/-- Listing the contexts changes none. -/
theorem list (hs : ReplayOf h s) : ReplayOf (h ++ [.list]) s where
  values k hk := hs.values_other hk (by simp) rfl
  stored hc := (hs.stored_other (by simp) hc).2
  order := hs.order_append _

/-- Making a context the current one changes none of them. -/
theorem use (hs : ReplayOf h s) (name : String) :
    ReplayOf (h ++ [.use name]) { s with current := name } where
  values k hk := hs.values_other hk (by simp) rfl
  stored hc := (hs.stored_other (by simp) hc).2
  order := hs.order_append _

/-- What is left after a deletion is what the history makes of the other contexts. -/
theorem delete (hs : ReplayOf h s) (current name : String) :
    ReplayOf (h ++ [.delete name]) ⟨current, s.contexts.filter (·.name != name)⟩ where
  values k hk := by
    obtain ⟨hmem, hname⟩ := List.mem_filter.1 hk
    have hne : k.name ≠ name := by simpa using hname
    exact hs.values_other hmem (by simpa using hne.symm) rfl
  stored hc := by
    obtain ⟨hd, hmem⟩ := hs.stored_other (by simp) hc
    have hne := Ne.symm (mt (congrArg ContextCommand.delete) hd)
    rw [ContextStore.names, ContextStore.names_filter, List.mem_filter]
    exact ⟨hmem, by simpa using hne⟩
  order := (hs.order_append _).filter _

/-- The context that a command sets, if it was there. -/
theorem values_set (hs : ReplayOf h s) {k : Context} (hk : k ∈ s.contexts) (x : ContextChange) :
    ∃ before since, Creation (h ++ [.set k.name x]) k.name before since ∧
      k.change x = replayed k.name since := by
  obtain ⟨before, since, hcreated, hvalues⟩ := hs.values k hk
  refine ⟨before, since ++ [.set k.name x], hcreated.append (by simp), ?_⟩
  rw [replayed_append_set, ← hvalues]

/-- A context that a command does not set. -/
theorem values_not_set (hs : ReplayOf h s) {k : Context} (hk : k ∈ s.contexts)
    (hname : k.name ≠ name) (x : ContextChange) :
    ∃ before since, Creation (h ++ [.set name x]) k.name before since ∧
      k = replayed k.name since :=
  hs.values_other hk (by simp) (by simp [ContextCommand.change?, hname.symm])

/-- A context that has been created is in the store after another one is set. -/
theorem stored_set (hs : ReplayOf h s) {x : ContextChange} {n : String}
    {before since : List ContextCommand} (hc : Creation (h ++ [.set name x]) n before since) :
    n ∈ (s.set name x).names := by
  rw [ContextStore.names_set]
  rcases hc.append_cases with ⟨_, -, hold⟩ | ⟨⟨y, hy⟩, -⟩
  · have hmem := hs.stored hold
    split
    · exact hmem
    · exact List.mem_append_left _ hmem
  · obtain ⟨rfl, -⟩ := ContextCommand.set.inj hy
    split
    · assumption
    · simp

/-- Setting a context that is there changes it in its place. -/
theorem set_old (hs : ReplayOf h s) (hnames : s.names.Nodup) (hname : s.has name = true)
    (x : ContextChange) : ReplayOf (h ++ [.set name x]) (s.set name x) := by
  have hcontexts : (s.set name x).contexts =
      s.contexts.map fun k => if k.name = name then k.change x else k := by
    rw [ContextStore.set, if_pos hname]
    exact ContextStore.changeFirst_eq_map hnames
  have hkept : ∀ k : Context, (if k.name = name then k.change x else k).name = k.name := by
    intro k
    split <;> rfl
  constructor
  · intro k hk
    rw [hcontexts] at hk
    obtain ⟨d, hd, rfl⟩ := List.mem_map.1 hk
    by_cases hdname : d.name = name
    · subst hdname
      simpa using hs.values_set hd x
    · simpa [hdname] using hs.values_not_set hd hdname x
  · exact hs.stored_set
  · rw [hcontexts, List.pairwise_map]
    simpa only [hkept] using hs.order_append (.set name x)

/-- Setting a new context creates it behind all others. -/
theorem set_new (hs : ReplayOf h s) (hname : name ∉ s.names) (x : ContextChange) :
    ReplayOf (h ++ [.set name x]) (s.set name x) := by
  have hcontexts : (s.set name x).contexts = s.contexts ++ [(Context.new name).change x] := by
    rw [ContextStore.set, if_neg (mt ContextStore.has_iff.1 hname)]
  have hcreated : Creation (h ++ [.set name x]) name h [.set name x] :=
    .of_new (fun _ _ hc => hname (hs.stored hc)) x
  constructor
  · intro k hk
    rw [hcontexts] at hk
    rcases List.mem_append.1 hk with hold | hnew
    · have hne : k.name ≠ name := fun heq => hname (heq ▸ List.mem_map_of_mem hold)
      exact hs.values_not_set hold hne x
    · obtain rfl := List.mem_singleton.1 hnew
      refine ⟨h, [.set name x], hcreated, ?_⟩
      exact (replayed_append_set name [] x).symm
  · exact hs.stored_set
  · rw [hcontexts, List.pairwise_append]
    refine ⟨hs.order_append _, List.pairwise_singleton _ _, ?_⟩
    intro k hk d hd before since before' since' hbefore hbefore'
    obtain rfl := List.mem_singleton.1 hd
    obtain ⟨_, _, hold, -⟩ := hs.values k hk
    rw [hold.before_eq hbefore, (hbefore'.unique hcreated).1]
    exact hold.length_lt

/-- One command more: the store that it makes is that of the longer history. -/
theorem becomes {s' : ContextStore} (hs : ReplayOf h s) (hnames : s.names.Nodup)
    (hc : s.Becomes c s') : ReplayOf (h ++ [c]) s' := by
  cases hc with
  | list => exact hs.list
  | set name x =>
    by_cases hname : s.has name = true
    · exact hs.set_old hnames hname x
    · exact hs.set_new (mt ContextStore.has_iff.2 hname) x
  | use _ => exact hs.use _
  | delete _ => exact hs.delete _ _

end ReplayOf

/-! ### Runs -/

/-- No command takes the place of the file away. -/
theorem isFree_runContexts {file : Route} {w : World} (hw : w.files.holds file = false)
    (hway : w.files.isBlocked file = false) (cs : List ContextCommand) :
    (runContexts file cs w).world.files.IsFree file := by
  have hstart : (∃ s, w.files.Keeps file s) ∧ w.files.IsFree file :=
    ⟨⟨.empty, .missing hw⟩, (Bool.or_eq_false_iff.1 hw).2, hway⟩
  have hrun := List.foldlRecOn (b := ⟨[], w⟩) cs (Progress.next file)
    (motive := fun p => (∃ s, p.world.files.Keeps file s) ∧ p.world.files.IsFree file) hstart ?_
  · exact hrun.2
  · rintro ⟨done, w⟩ ⟨⟨s, hkeeps⟩, hfree⟩ c -
    rcases hr : (runContext file c).runIn w with ⟨r, w'⟩
    have hfree' := (runIn_runContext_of_isFree hkeeps hfree hr).1
    have hkeeps' : ∃ s', w'.files.Keeps file s' := by
      obtain ⟨-, s', -, -, hkeeps'⟩ | ⟨-, hkeeps', -⟩ := runIn_runContext_cases hkeeps hr
      · exact ⟨s', hkeeps'⟩
      · exact ⟨s, hkeeps'⟩
    cases r with
    | ok output => simpa only [Progress.next, hr] using And.intro hkeeps' hfree'
    | error e => simpa only [Progress.next, hr] using And.intro hkeeps' hfree'

/-- The file tells what the commands that succeeded made of no contexts. A further command changes
no context but its own, and no text at all if it fails; and where the way to the file is not
blocked, just those commands fail that are refused. -/
theorem runContexts_replays {file : Route} {w : World} (hw : w.files.holds file = false)
    (cs : List ContextCommand) :
    ∃ s, (loadContexts file).runIn (runContexts file cs w).world =
        (.ok s, (runContexts file cs w).world) ∧
      ReplayOf (runContexts file cs w).done s ∧
      ∀ c r w', (runContext file c).runIn (runContexts file cs w).world = (r, w') →
        (∃ s', (loadContexts file).runIn w' = (.ok s', w') ∧
          s'.contexts.filter (fun k => c.target? ≠ some k.name) =
            s.contexts.filter (fun k => c.target? ≠ some k.name)) ∧
        (∀ e, r = .error e → w'.files.texts = (runContexts file cs w).world.files.texts) ∧
        (∀ e, s.Refuses c e → ∃ e', r = .error e') ∧
        (w.files.isBlocked file = false → ∀ e, r = .error e ↔ s.Refuses c e) := by
  obtain ⟨s, hkeeps, -, hs⟩ := exists_keeps_runContexts
    (P := fun done s => s.IsConsistent ∧ ReplayOf done s)
    ⟨ContextStore.isConsistent_empty, replayOf_nil⟩
    (fun hs hc => ⟨hs.1.becomes hc, hs.2.becomes hs.1.names hc⟩) hw cs
  refine ⟨s, runIn_loadContexts hkeeps, hs, ?_⟩
  intro c r w' hr
  have hrefused : ∀ e, s.Refuses c e → ∃ e', r = .error e' :=
    fun e he => runIn_runContext_of_refuses hkeeps he hr
  have hfree : w.files.isBlocked file = false → ∀ e, r = .error e ↔ s.Refuses c e :=
    fun hway => (runIn_runContext_of_isFree hkeeps (isFree_runContexts hw hway cs) hr).2
  obtain ⟨output, s', rfl, hbecomes, hkeeps'⟩ | ⟨⟨e, rfl⟩, hkeeps', htexts⟩ :=
    runIn_runContext_cases hkeeps hr
  · exact ⟨⟨s', runIn_loadContexts hkeeps', hbecomes.filter_contexts⟩,
      fun e he => absurd he (by simp), hrefused, hfree⟩
  · exact ⟨⟨s, runIn_loadContexts hkeeps', rfl⟩, fun _ _ => htexts, hrefused, hfree⟩

/-- A context that is made anew behind another one, which is then given a time that is refused. -/
def renewed : List ContextCommand :=
  [.set "a" ⟨some "http://old", some "t", none⟩, .set "b" ⟨none, none, some 5⟩, .delete "a",
    .set "a" ⟨some "http://new//", none, none⟩,
    .set "b" ⟨some "http://b", none, some 0x8000000000000000⟩]

/-- The renewed context stands last, without what it was given before its deletion. -/
theorem renewed_replays :
    Files.empty.holds ["config.toml"] = false ∧
    ∃ s, (loadContexts ["config.toml"]).runIn
          (runContexts ["config.toml"] renewed ⟨.empty, .isolated⟩).world =
        (.ok s, (runContexts ["config.toml"] renewed ⟨.empty, .isolated⟩).world) ∧
      ReplayOf (runContexts ["config.toml"] renewed ⟨.empty, .isolated⟩).done s ∧
      (runContexts ["config.toml"] renewed ⟨.empty, .isolated⟩).done = renewed.take 4 ∧
      s.contexts = [⟨"b", "", "", some 5⟩, ⟨"a", "http://new", "", none⟩] := by
  have hfile : (⟨.empty, .isolated⟩ : World).files.holds ["config.toml"] = false := by decide
  obtain ⟨s, hload, hs, -⟩ := runContexts_replays hfile renewed
  have hrun : (runContexts ["config.toml"] renewed ⟨.empty, .isolated⟩).done = renewed.take 4 ∧
      ((loadContexts ["config.toml"]).runIn (runContexts ["config.toml"] renewed
        ⟨.empty, .isolated⟩).world).1.toOption.map (·.contexts) =
      some [⟨"b", "", "", some 5⟩, ⟨"a", "http://new", "", none⟩] := by decide +kernel
  rw [hload] at hrun
  exact ⟨hfile, s, hload, hs, hrun.1, Option.some.inj hrun.2⟩

end ResourceApi.Command
