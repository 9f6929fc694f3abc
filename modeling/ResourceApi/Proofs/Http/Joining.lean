import ResourceApi.Proofs.Http.Acceptance
import ResourceApi.Proofs.Url.Plain

/-!
The URLs of requests under an accepted base. The base keeps its own path, and the path of a request
goes on from there, if the text of the base with one more slash is read as the base with one more
slash. Nothing of this is checked when a base is accepted. A base that has a query or a fragment is
never of this kind: there the path of a request ends up in the query or in the fragment.
-/

namespace ResourceApi.Http.Endpoint

open Url

/-- An endpoint at a base whose path is open at its end. -/
def IsOpenAt (e : Endpoint) (base : Url) : Prop := Url.ofText (e.base ++ "/") = .ok base.opened

/-- The path of a request in front of its query, without slashes in front. -/
def requestPath (resource : String) (ss : List String) : List Char :=
  (Path.trimEnd resource.toList ++ Path.segments (ss.map String.toList)).dropWhile Path.isSlash

theorem dropWhile_toList_build (resource : String) (ss : List String) (query : String) :
    (Path.build resource ss query).toList.dropWhile Path.isSlash =
      Path.withQuery (requestPath resource ss) query.toList := by
  rw [Path.toList_build, Path.dropWhile_withQuery, requestPath]

/-- A path is joined to its base with one slash. -/
theorem toList_join_of_ne_nil (e : Endpoint) {path : String}
    (h : path.toList.dropWhile Path.isSlash ≠ []) :
    (e.join path).toList = e.base.toList ++ '/' :: path.toList.dropWhile Path.isSlash := by
  obtain ⟨c, rest, hpath⟩ := List.exists_cons_of_ne_nil h
  rw [join, hpath]
  simp

theorem join_of_nil (e : Endpoint) {path : String} (h : path.toList.dropWhile Path.isSlash = []) :
    e.join path = e.base := by
  rw [join, h]

/-- A base is open at its end just if a slash behind it changes nothing but the path. -/
theorem isOpenAt_iff {url : String} {base : Url} :
    IsOpenAt ⟨Path.trimmed url⟩ base ↔
      Url.ofChars (Path.trimEnd url.toList ++ ['/']) = .ok base.opened := by
  rw [IsOpenAt, Url.ofText, String.toList_append, Path.trimmed, String.toList_ofList]
  rfl

/-- A request that needs no mending keeps the path of an accepted base and its own, with one slash
between them, and its query, if and only if the base is open; then other requests are references
relative to the open base, so that dots in them are resolved and a hash makes a fragment. A base is
open if its text is plain, and then it is requested itself by a path of slashes. But under a base
with a question mark or a hash, which is accepted as well, nothing of a request is in the path. -/
theorem joined_url_keeps_both_iff {url : String} {e : Endpoint} (he : ofBaseUrl url = .ok e) :
    ∃ base, Url.ofText url = .ok base ∧
      (∀ resource ss query, IsPlainRequest resource.toList (ss.map String.toList) →
        IsQueryText query.toList → requestPath resource ss ≠ [] →
        (Url.ofText (e.join (Path.build resource ss query)) =
            .ok (base.ending (Path.trimEnd base.path ++ '/' :: requestPath resource ss)
              (queryText query.toList) none) ↔
          e.IsOpenAt base)) ∧
      (e.IsOpenAt base → ∀ path, path.toList.dropWhile Path.isSlash ≠ [] →
        Url.ofText (e.join path) =
          .ok (base.opened.follow (.ofChars (path.toList.dropWhile Path.isSlash)))) ∧
      (IsPlainBase url.toList → e.IsOpenAt base ∧
        ∀ path, path.toList.dropWhile Path.isSlash = [] →
          Url.ofText (e.join path) = .ok base.closed) ∧
      ((∃ c ∈ url.toList, Reference.isMark c = true) → ¬e.IsOpenAt base ∧
        ∀ path, ∃ query fragment, (query.isSome = true ∨ fragment.isSome = true) ∧
          Url.ofText (e.join path) = .ok (base.ending base.path query fragment)) := by
  obtain ⟨base, hbase, hhttp, rfl⟩ := ofBaseUrl_eq_ok he
  have htext : (Path.trimmed url).toList = Path.trimEnd url.toList := String.toList_ofList
  refine ⟨base, hbase, fun resource ss query hrequest hquery hne => ?_, fun hopen path hne => ?_,
    fun hplain => ⟨?_, fun path hnil => ?_⟩, fun hmark => ⟨fun hopen => ?_, fun path => ?_⟩⟩
  · have hpath : (Path.build resource ss query).toList.dropWhile Path.isSlash ≠ [] := by
      rw [dropWhile_toList_build, Path.withQuery]
      split
      · exact hne
      · simp
    rw [Url.ofText, toList_join_of_ne_nil _ hpath, dropWhile_toList_build, isOpenAt_iff, htext]
    exact hrequest.isPlain.ofChars_append_iff (List.dropWhile_idempotent ..) hne hquery hbase hhttp
  · rw [Url.ofText, toList_join_of_ne_nil _ hne, htext]
    exact Url.ofChars_of_opened hbase hhttp (isOpenAt_iff.1 hopen) _
  · exact isOpenAt_iff.2 (hplain.opened hbase hhttp)
  · rw [join_of_nil _ hnil, Url.ofText, htext]
    exact hplain.closed hbase hhttp
  · obtain ⟨c, hc, hmark⟩ := hmark
    rw [Url.notMark_of_opened hbase hhttp (isOpenAt_iff.1 hopen) c hc] at hmark
    cases hmark
  · obtain hjoin | ⟨rest, hjoin⟩ := toList_join ⟨Path.trimmed url⟩ path
    · have hread := Url.exists_ending_of_mem hbase hhttp hmark []
      rwa [List.append_nil, ← htext, ← hjoin] at hread
    · have hread := Url.exists_ending_of_mem hbase hhttp hmark ('/' :: rest)
      rwa [← htext, ← hjoin] at hread

/-- Slashes at the end of a base and around a resource, and segments that need escapes. -/
theorem slashes_meet_once :
    ofBaseUrl "http://h/api//" = .ok ⟨"http://h/api"⟩ ∧ IsPlainBase "http://h/api//".toList ∧
    IsPlainRequest "//items/".toList (["a b", "x/.."].map String.toList) ∧
    IsQueryText "q=1".toList ∧ requestPath "//items/" ["a b", "x/.."] ≠ [] ∧
    ∃ base, Url.ofText "http://h/api//" = .ok base ∧ base.path = "/api//".toList ∧
      Url.ofText (join ⟨"http://h/api"⟩ (Path.build "//items/" ["a b", "x/.."] "q=1")) =
        .ok (base.ending "/api/items/a%20b/x%2F..".toList (some "q=1".toList) none) := by
  have he : ofBaseUrl "http://h/api//" = .ok ⟨"http://h/api"⟩ :=
    ofBaseUrl_of_toOption (by decide +kernel)
  have hplain : IsPlainBase "http://h/api//".toList :=
    ⟨List.all_iff_forall_prop.1 (by decide +kernel), by unfold IsSettled; decide +kernel⟩
  have hrequest : IsPlainRequest "//items/".toList (["a b", "x/.."].map String.toList) :=
    ⟨⟨List.all_iff_forall_prop.1 (by decide +kernel), by unfold IsSettled; decide +kernel⟩,
      by decide +kernel⟩
  have hquery : IsQueryText "q=1".toList := List.all_iff_forall_prop.1 (by decide +kernel)
  have hne : requestPath "//items/" ["a b", "x/.."] ≠ [] := by decide +kernel
  obtain ⟨base, hbase, hkeeps, -, hopen, -⟩ := joined_url_keeps_both_iff he
  have hpath : base.path = "/api//".toList := by
    have hread : (Url.ofText "http://h/api//").toOption.map Url.path = some "/api//".toList := by
      decide +kernel
    rw [hbase] at hread
    exact Option.some.inj hread
  have hjoined := (hkeeps "//items/" ["a b", "x/.."] "q=1" hrequest hquery hne).2 (hopen hplain).1
  have hends : Path.trimEnd "/api//".toList ++ '/' :: requestPath "//items/" ["a b", "x/.."] =
      "/api/items/a%20b/x%2F..".toList := by decide +kernel
  have htext : queryText "q=1".toList = some "q=1".toList := by decide +kernel
  rw [hpath, hends, htext] at hjoined
  exact ⟨he, hplain, hrequest, hquery, hne, base, hbase, hpath, hjoined⟩

/-- A base with a query is accepted, and the path of a request is lost in it. -/
theorem path_goes_into_query :
    ofBaseUrl "http://h/api?x=1" = .ok ⟨"http://h/api?x=1"⟩ ∧
    (Url.ofText "http://h/api?x=1").toOption.map Url.path = some "/api".toList ∧
    (Url.ofText (join ⟨"http://h/api?x=1"⟩ (Path.build "/items" [] ""))).toOption.map
      (fun u => (u.path, u.query)) = some ("/api".toList, some "x=1/items".toList) := by
  have he : ofBaseUrl "http://h/api?x=1" = .ok ⟨"http://h/api?x=1"⟩ :=
    ofBaseUrl_of_toOption (by decide +kernel)
  exact ⟨he, by decide +kernel, by decide +kernel⟩

end ResourceApi.Http.Endpoint
