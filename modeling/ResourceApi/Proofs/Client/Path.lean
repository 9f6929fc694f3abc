import Mathlib.Data.List.TakeWhile
import ResourceApi.Client.Path
import ResourceApi.Proofs.Text.Trim

/-!
Paths and their slashes. Slashes are taken off the ends of a path in either order, and once is
enough; so what is left of a path does not depend on how many stood around it. The location of a
path is what stands in front of its query.
-/

namespace ResourceApi

/-! ### Slashes -/

namespace Path

open Text

theorem trimEnd_trimEnd (s : List Char) : trimEnd (trimEnd s) = trimEnd s :=
  trimEndBy_trimEndBy isSlash s

/-- Only texts that do not end in a slash are unchanged. -/
theorem trimEnd_eq_self_iff {s : List Char} : trimEnd s = s ↔ s.getLast? ≠ some '/' := by
  rw [trimEnd, trimEndBy_eq_self_iff]
  cases s.getLast? <;> simp [isSlash]

theorem trimEnd_trim (s : List Char) : trimEnd (trim s) = trim s :=
  trimEndBy_trimEndBy isSlash (s.dropWhile isSlash)

theorem trim_trim (s : List Char) : trim (trim s) = trim s := trimBy_trimBy isSlash s

/-- A name behind a slash; nothing, if there is no name. -/
def behindSlash (name : List Char) : List Char := if name = [] then [] else '/' :: name

/-- A name that is joined with a slash keeps it, unless the name is empty. -/
theorem trimEnd_append_name (s name : List Char) :
    trimEnd (trimEnd s ++ '/' :: trim name) = trimEnd s ++ behindSlash (trim name) := by
  have hname : trimEnd ('/' :: trim name) = behindSlash (trim name) := by
    rw [trimEnd, trimEndBy_cons, ← trimEnd, trimEnd_trim, behindSlash]
    rfl
  rw [trimEnd, trimEndBy_append, ← trimEnd, ← trimEnd, hname, trimEnd_trimEnd]
  split
  · rename_i hempty
    rw [hempty, List.append_nil]
  · rfl

/-! ### Locations -/

/-- The part of a path in front of its query. -/
def location (path : List Char) : List Char := path.takeWhile (· != '?')

theorem ne_mark_of_mem {path : List Char} (h : '?' ∉ path) : ∀ c ∈ path, (c != '?') = true := by
  intro c hc
  simpa using ne_of_mem_of_not_mem hc h

/-- A query does not change the location that stands in front of it. -/
theorem location_withQuery {path : List Char} (h : '?' ∉ path) (query : List Char) :
    location (withQuery path query) = path := by
  rw [withQuery]
  split
  · exact List.takeWhile_eq_self_iff.2 (ne_mark_of_mem h)
  · rw [location, List.takeWhile_append_of_pos (ne_mark_of_mem h),
      List.takeWhile_cons_of_neg (by simp), List.append_nil]

/-- A built path: the collection without final slashes, the segments behind it, and the query. -/
theorem toList_build (resource : String) (ss : List String) (query : String) :
    (build resource ss query).toList =
      withQuery (trimEnd resource.toList ++ segments (ss.map String.toList)) query.toList := by
  simp [build]

/-- Slashes in front of a path are dropped without a change to its query. -/
theorem dropWhile_withQuery (path query : List Char) :
    (withQuery path query).dropWhile isSlash = withQuery (path.dropWhile isSlash) query := by
  rw [withQuery, withQuery]
  split
  · rfl
  · simp only [List.dropWhile_append, List.isEmpty_iff]
    split
    · rename_i hempty
      rw [hempty, List.dropWhile_cons_of_neg (by decide), List.nil_append]
    · rfl

/-- Without the slashes in front of it, the path of a collection is what stands between its
slashes. -/
theorem dropWhile_build (resource query : String) :
    (build resource [] query).toList.dropWhile isSlash =
      withQuery (trim resource.toList) query.toList := by
  have hdrop : (trimEnd resource.toList).dropWhile isSlash = trim resource.toList :=
    dropWhile_trimEndBy isSlash resource.toList
  rw [toList_build, List.map_nil, segments, List.flatMap_nil, List.append_nil, dropWhile_withQuery,
    hdrop]

end Path

end ResourceApi
