import HeaderReflect.Generator
import HeaderReflect.Proofs.Text

/-!
The meaningful segments of a path, from which all names of a header are derived. Separators cut the
segments of a path in two (`segments_append`), and a path that is put together from segments has
exactly these (`segments_joinSegments`). So a header below the include directory goes by its path
from there, whatever the directory is called and however both are written
(`planEntry_below_includeDir`).
-/

namespace HeaderReflect.Path

/-- A segment that a path can have: it means something and holds no separator. -/
structure IsSegment (s : Segment) : Prop where
  meaningful : isMeaningful s = true
  noSeparator : ∀ c ∈ s, isSeparator c = false

@[simp]
theorem segments_nil : segments [] = [] := rfl

theorem segments_append {c : Char} (hc : isSeparator c = true) (front rest : List Char) :
    segments (front ++ c :: rest) = segments front ++ segments rest := by
  simp only [segments, List.splitOnP_append_cons front rest hc, List.filter_append]

theorem segments_of_isSegment {s : Segment} (h : IsSegment s) : segments s = [s] := by
  simp [segments, List.splitOnP_eq_singleton h.noSeparator, h.meaningful]

theorem isSegment_of_mem {cs : List Char} {s : Segment} (h : s ∈ segments cs) : IsSegment s := by
  obtain ⟨hpiece, hmeaningful⟩ := List.mem_filter.mp h
  exact ⟨hmeaningful, Text.not_of_mem_splitOnP hpiece⟩

theorem joinSegments_cons_cons (s t : Segment) (rest : List Segment) :
    joinSegments (s :: t :: rest) = s ++ '/' :: joinSegments (t :: rest) := by
  simp [joinSegments, List.intercalate_cons_cons]

theorem joinSegments_append {front rest : List Segment} (hfront : front ≠ []) (hrest : rest ≠ []) :
    joinSegments (front ++ rest) = joinSegments front ++ '/' :: joinSegments rest := by
  induction front with
  | nil => exact absurd rfl hfront
  | cons s front ih =>
    cases front with
    | nil =>
      obtain ⟨t, rest, rfl⟩ := List.exists_cons_of_ne_nil hrest
      rw [List.singleton_append, joinSegments_cons_cons]
      simp [joinSegments]
    | cons t front =>
      rw [List.cons_append, List.cons_append, joinSegments_cons_cons, ← List.cons_append,
        ih (List.cons_ne_nil t front), joinSegments_cons_cons, List.append_assoc,
        List.cons_append]

/-- A path put together from segments has these segments. -/
theorem segments_joinSegments {parts : List Segment} (h : ∀ s ∈ parts, IsSegment s) :
    segments (joinSegments parts) = parts := by
  induction parts with
  | nil => rfl
  | cons s rest ih =>
    rw [List.forall_mem_cons] at h
    cases rest with
    | nil =>
      rw [joinSegments, List.intercalate_singleton]
      exact segments_of_isSegment h.1
    | cons t rest =>
      rw [joinSegments_cons_cons, segments_append (by decide), segments_of_isSegment h.1, ih h.2]
      rfl

theorem segments_normalize (path : String) :
    segments (normalize path).toList = segments path.toList := by
  rw [normalize, String.toList_ofList, segments_joinSegments fun _ => isSegment_of_mem]

/-- All names depend on the segments only, so writing a path in its normal form changes none. -/
theorem normalize_normalize (path : String) : normalize (normalize path) = normalize path := by
  rw [normalize, segments_normalize, normalize]

theorem identifier_normalize (path : String) : identifier (normalize path) = identifier path := by
  rw [identifier, segments_normalize, identifier]

/-- The key of a path has its segments: to change one separator for the other moves no cut. -/
theorem segments_key (path : String) : segments (key path).toList = segments path.toList := by
  have hsplit (cs : List Char) :
      (cs.map fun c => if c = '\\' then '/' else c).splitOnP isSeparator =
        cs.splitOnP isSeparator := by
    induction cs with
    | nil => rfl
    | cons c cs ih =>
      rw [List.map_cons, List.splitOnP_cons_eq_if_modifyHead, List.splitOnP_cons_eq_if_modifyHead,
        ih]
      by_cases hc : c = '\\'
      · subst hc
        rfl
      · rw [if_neg hc]
  rw [segments, key, String.toList_ofList, hsplit, segments]

/-- Below a directory stand the directory's segments and then those of the relative path. -/
theorem segments_join (dir : String) {path : String} (hrelative : isAbsolute path = false) :
    segments (join dir path).toList = segments dir.toList ++ segments path.toList := by
  rw [join, hrelative, if_neg Bool.false_ne_true]
  split
  · rename_i hdir
    rcases hdir with rfl | hlast
    · simp
    · -- The separator at the end of the directory is the cut, and nothing stands behind it.
      obtain ⟨front, hfront⟩ := List.getLast?_eq_some_iff.mp hlast
      rw [String.toList_append, hfront, List.append_assoc, List.singleton_append,
        segments_append (by decide), segments_append (by decide), segments_nil, List.append_nil]
  · rw [String.toList_append, String.toList_append, List.append_assoc]
    exact segments_append (by decide) ..

/-- The include path of a header whose segments start with those of the include directory. -/
theorem includePath_of_segments {dir header : String} {below : List Segment}
    (h : segments header.toList = segments dir.toList ++ below) (hbelow : below ≠ []) :
    includePath dir header = String.ofList (joinSegments below) := by
  unfold includePath
  rw [h]
  by_cases hdir : segments dir.toList = []
  · rw [hdir]
    rfl
  · have hjoin := joinSegments_append hdir hbelow
    have hroot : (joinSegments (segments dir.toList)).isEmpty = false := by
      rw [List.isEmpty_eq_false_iff]
      intro hempty
      have hparts : segments (joinSegments (segments dir.toList)) = segments dir.toList :=
        segments_joinSegments fun _ => isSegment_of_mem
      rw [hempty] at hparts
      exact hdir hparts.symm
    have hafter : Text.after? (joinSegments (segments dir.toList) ++ ['/'])
        (joinSegments (segments dir.toList ++ below)) = some (joinSegments below) := by
      rw [Text.after?_eq_some_iff, hjoin, List.append_assoc, List.singleton_append]
    simp only [hroot, hafter, if_neg Bool.false_ne_true]

/-- **What is generated for a header does not depend on where its tree lies**: below the include
directory, however that is written, a header is included by its relative path in normal form, and
its identifier and the path in its plan are those of the relative path. -/
theorem planEntry_below_includeDir (g : Generator) (path : String) (root : Decl)
    (hrelative : isAbsolute path = false) (hsegments : segments path.toList ≠ []) :
    includePath g.config.includeDir (key (join g.config.includeDir path)) = normalize path ∧
      (g.planEntry (key (join g.config.includeDir path)) root).identifier = identifier path ∧
      (g.planEntry (key (join g.config.includeDir path)) root).filePath = normalize path := by
  have hinclude : includePath g.config.includeDir (key (join g.config.includeDir path)) =
      normalize path := by
    apply includePath_of_segments _ hsegments
    rw [segments_key, segments_join _ hrelative]
  refine ⟨hinclude, ?_, ?_⟩
  · rw [Generator.planEntry, hinclude]
    exact identifier_normalize path
  · rw [Generator.planEntry, hinclude]
    exact normalize_normalize path

/-- A generator with an absolute include directory, written with dots, doubled separators and both
kinds of them. -/
def Sample.checkout : Generator where
  config := { (default : Config) with includeDir := "/home//dev\\..\\engine/./" }
  renderer := jsonRenderer
  cursors := fun path => .error path
  cachePlace := .inMemory

/-- The directory ends with a separator, the relative path goes up and down again. -/
theorem planEntry_below_includeDir_checkout :
    let header := key (join Sample.checkout.config.includeDir "../engine//core\\./v1.2.hpp")
    header = "/home//dev/../engine/./../engine//core/./v1.2.hpp" ∧
      includePath Sample.checkout.config.includeDir header =
        normalize "../engine//core\\./v1.2.hpp" ∧
      normalize "../engine//core\\./v1.2.hpp" = "engine/core/v1.2.hpp" ∧
      (Sample.checkout.planEntry header .emptyRoot).identifier = "engine_core_v1_2" := by
  obtain ⟨hinclude, hidentifier, -⟩ := planEntry_below_includeDir Sample.checkout
    "../engine//core\\./v1.2.hpp" .emptyRoot (by decide) (by decide)
  have hname : identifier "../engine//core\\./v1.2.hpp" = "engine_core_v1_2" := by decide
  exact ⟨by decide, hinclude, by decide, hidentifier.trans hname⟩

end HeaderReflect.Path
