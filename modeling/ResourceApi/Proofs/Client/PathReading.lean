import ResourceApi.Proofs.Client.Path
import ResourceApi.Proofs.Text.Percent

/-!
Request paths can be read back. The query is what stands behind the first question mark, and in
front of it the path is that of the resource and, behind it, one piece for each segment, which a
slash divides from the others. So whatever characters segments hold, they stay the segments that
they were.
-/

namespace ResourceApi.Path

open Text

/-- What stands behind the first question mark of a path. -/
def queryPart (path : List Char) : List Char := (path.dropWhile (· != '?')).drop 1

/-- Reads segments that each have a slash in front. -/
def readSegments (s : List Char) : Option (List (List Char)) :=
  match s.splitOn '/' with
  | [] :: pieces => pieces.mapM Percent.decode
  | _ => none

/-! ### Segments -/

theorem segments_cons (s : List Char) (ss : List (List Char)) :
    segments (s :: ss) = '/' :: (Percent.encode s ++ segments ss) := by
  rw [segments, List.flatMap_cons, List.cons_append]
  rfl

/-- Segments come apart at their slashes behind any text without one. -/
theorem splitOn_append_segments {l : List Char} (hl : '/' ∉ l) (ss : List (List Char)) :
    (l ++ segments ss).splitOn '/' = l :: ss.map Percent.encode := by
  induction ss generalizing l with
  | nil =>
    rw [segments, List.flatMap_nil, List.append_nil]
    exact List.splitOn_eq_singleton hl
  | cons s ss ih =>
    have hsplit : (l ++ '/' :: (Percent.encode s ++ segments ss)).splitOn '/' =
        l.splitOn '/' ++ (Percent.encode s ++ segments ss).splitOn '/' :=
      List.splitOnP_append_cons _ _ (beq_self_eq_true '/')
    rw [segments_cons, hsplit, List.splitOn_eq_singleton hl,
      ih (Percent.not_mem_encode (by decide) s)]
    rfl

/-- What is read are the segments that were written. -/
theorem readSegments_segments (ss : List (List Char)) : readSegments (segments ss) = some ss := by
  have hsplit : (segments ss).splitOn '/' = [] :: ss.map Percent.encode :=
    splitOn_append_segments List.not_mem_nil ss
  rw [readSegments, hsplit]
  exact Percent.mapM_decode_map_encode ss

/-- No question mark is left in encoded segments. -/
theorem mark_notMem_segments (ss : List (List Char)) : '?' ∉ segments ss := by
  intro h
  obtain ⟨s, -, hs⟩ := List.mem_flatMap.1 h
  rcases List.mem_cons.1 hs with hslash | hs
  · exact absurd hslash (by decide)
  · exact Percent.not_mem_encode (by decide) s hs

/-! ### Queries -/

theorem mark_notMem_trimEnd {s : List Char} (h : '?' ∉ s) : '?' ∉ trimEnd s := by
  obtain ⟨t, ht, -⟩ := exists_trimEndBy_append isSlash s
  intro hmem
  exact h (ht ▸ List.mem_append_left t hmem)

/-- The one question mark of a path stands in front of its query. -/
theorem mark_mem_withQuery_iff {path : List Char} (h : '?' ∉ path) (query : List Char) :
    '?' ∈ withQuery path query ↔ query ≠ [] := by
  rw [withQuery]
  by_cases hq : query = []
  · simp [hq, h]
  · simp [hq]

/-- The query is found behind the question mark. -/
theorem queryPart_withQuery {path : List Char} (h : '?' ∉ path) (query : List Char) :
    queryPart (withQuery path query) = query := by
  rw [queryPart, withQuery]
  split
  · rename_i hempty
    rw [List.dropWhile_eq_nil_iff.2 (ne_mark_of_mem h), List.isEmpty_iff.1 hempty, List.drop_nil]
  · rw [List.dropWhile_append_of_pos (ne_mark_of_mem h), List.dropWhile_cons_of_neg (by simp)]
    rfl

/-! ### Paths -/

/-- A request path gives back its segments and its query, so it is that of no others. -/
theorem build_is_readable (resource : String) (hresource : '?' ∉ resource.toList)
    (ss : List String) (query : String) :
    ∃ rest, location (build resource ss query).toList = trimEnd resource.toList ++ rest ∧
      readSegments rest = some (ss.map String.toList) ∧
      queryPart (build resource ss query).toList = query.toList ∧
      ('?' ∈ (build resource ss query).toList ↔ query ≠ "") ∧
      ∀ ss' query', build resource ss' query' = build resource ss query ↔
        ss' = ss ∧ query' = query := by
  have hmark : ∀ ts, '?' ∉ trimEnd resource.toList ++ segments ts := by
    intro ts h
    rcases List.mem_append.1 h with h | h
    · exact mark_notMem_trimEnd hresource h
    · exact mark_notMem_segments ts h
  have hlocation : ∀ ts q, location (build resource ts q).toList =
      trimEnd resource.toList ++ segments (ts.map String.toList) := by
    intro ts q
    rw [toList_build, location_withQuery (hmark _)]
  have hquery : ∀ ts q, queryPart (build resource ts q).toList = q.toList := by
    intro ts q
    rw [toList_build, queryPart_withQuery (hmark _)]
  refine ⟨segments (ss.map String.toList), hlocation ss query, readSegments_segments _,
    hquery ss query, ?_, fun ss' query' => ⟨fun h => ?_, ?_⟩⟩
  · rw [toList_build, mark_mem_withQuery_iff (hmark _)]
    simp
  · have hsegments : segments (ss'.map String.toList) = segments (ss.map String.toList) := by
      have heq := hlocation ss' query'
      rw [h, hlocation ss query] at heq
      exact (List.append_cancel_left heq).symm
    have hread := readSegments_segments (ss'.map String.toList)
    rw [hsegments, readSegments_segments] at hread
    have htexts := hquery ss' query'
    rw [h, hquery ss query] at htexts
    refine ⟨?_, (String.toList_injective htexts).symm⟩
    have hinjective : Function.Injective String.toList := fun _ _ => String.toList_injective
    exact (List.map_injective_iff.2 hinjective (Option.some.inj hread)).symm
  · rintro ⟨rfl, rfl⟩
    rfl

/-- Segments that hold what divides paths, one of them empty, under a query with a mark of its own.
-/
theorem strange_segments_are_readable :
    '?' ∉ "/items//".toList ∧
    build "/items//" ["a/b?c", "", "50%", "é"] "q=1?" = "/items/a%2Fb%3Fc//50%25/%C3%A9?q=1?" ∧
    location (build "/items//" ["a/b?c", "", "50%", "é"] "q=1?").toList =
      "/items/a%2Fb%3Fc//50%25/%C3%A9".toList ∧
    readSegments "/a%2Fb%3Fc//50%25/%C3%A9".toList =
      some (["a/b?c", "", "50%", "é"].map String.toList) := by
  have hresource : '?' ∉ "/items//".toList := by decide
  obtain ⟨rest, hlocation, hread, -⟩ :=
    build_is_readable "/items//" hresource ["a/b?c", "", "50%", "é"] "q=1?"
  have hbuild : build "/items//" ["a/b?c", "", "50%", "é"] "q=1?" =
      "/items/a%2Fb%3Fc//50%25/%C3%A9?q=1?" := by decide +kernel
  have hfront : location (build "/items//" ["a/b?c", "", "50%", "é"] "q=1?").toList =
      "/items/a%2Fb%3Fc//50%25/%C3%A9".toList := by
    rw [hbuild]
    decide +kernel
  have hrest : rest = "/a%2Fb%3Fc//50%25/%C3%A9".toList := by
    rw [hfront] at hlocation
    have hsplit : "/items/a%2Fb%3Fc//50%25/%C3%A9".toList =
        trimEnd "/items//".toList ++ "/a%2Fb%3Fc//50%25/%C3%A9".toList := by decide +kernel
    rw [hsplit] at hlocation
    exact (List.append_cancel_left hlocation).symm
  exact ⟨hresource, hbuild, hfront, hrest ▸ hread⟩

end ResourceApi.Path
