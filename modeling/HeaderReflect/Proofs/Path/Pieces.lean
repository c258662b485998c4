import HeaderReflect.Proofs.FileSystem.Content
import HeaderReflect.Proofs.Text

/-!
Paths as lists of pieces. Pieces without a separator are found again in what is put together from
them (`pieces_joinWith`). Besides the root and a `.` in front, the components of a path are its
pieces (`components_eq`), so below a directory stand the directory's components and then those of
the relative path (`bare_join`).
-/

namespace HeaderReflect

theorem Text.toList_joinWith (separator : String) (texts : List String) :
    (joinWith separator texts).toList =
      List.intercalate separator.toList (texts.map (·.toList)) := by
  fun_induction joinWith separator texts with
  | case1 => rfl
  | case2 s => simp
  | case3 s t rest ih =>
    rw [String.toList_append, String.toList_append, ih]
    simp only [List.map_cons, List.intercalate_cons_cons]

namespace Path

theorem pieces_eq_splitOn (path : String) :
    pieces path = (path.toList.splitOn '/').map String.ofList := by
  rw [pieces, List.splitOn_eq_splitOnP]

theorem pieces_joinWith {names : List String} (hne : names ≠ [])
    (hsep : ∀ name ∈ names, '/' ∉ name.toList) : pieces (Text.joinWith "/" names) = names := by
  have hslash : "/".toList = ['/'] := rfl
  rw [pieces_eq_splitOn, Text.toList_joinWith, hslash, List.splitOn_intercalate '/' _ (by simpa)]
  · simp
  · simpa using hsep

theorem pieces_ne_nil (path : String) : pieces path ≠ [] := by
  simp [pieces, List.splitOnP_ne_nil]

theorem noSeparator_of_mem_pieces {path piece : String} (h : piece ∈ pieces path) :
    '/' ∉ piece.toList := by
  obtain ⟨cs, hcs, rfl⟩ := List.mem_map.mp h
  rw [String.toList_ofList]
  exact fun hc => absurd (Text.not_of_mem_splitOnP hcs '/' hc) (by decide)

/-- An absolute path begins with an empty piece, and among others only the empty path does. -/
theorem pieces_of_isAbsolute {path : String} (h : isAbsolute path = true) :
    pieces path = "" :: pieces (String.ofList path.toList.tail) := by
  cases hpath : path.toList with
  | nil => simp [isAbsolute, hpath] at h
  | cons c cs =>
    obtain rfl : c = '/' := by simpa [isAbsolute, hpath] using h
    have hwhole := pieces_append_separator [] cs
    rw [List.nil_append, ← hpath, String.ofList_toList] at hwhole
    exact hwhole

theorem not_isAbsolute_of_pieces {path piece : String} {rest : List String}
    (hpieces : pieces path = piece :: rest) (hne : piece ≠ "") : isAbsolute path = false := by
  rw [Bool.eq_false_iff]
  intro habsolute
  rw [pieces_of_isAbsolute habsolute] at hpieces
  exact hne (List.cons.inj hpieces).1.symm

/-- A directory has the pieces it has in front of a name, and an empty one behind a separator. -/
theorem pieces_eq_dirPieces {dir : String} (h : dir ≠ "") :
    pieces dir = dirPieces dir ∨ pieces dir = dirPieces dir ++ [""] := by
  rw [dirPieces, if_neg h]
  split_ifs with hsep
  · right
    obtain ⟨front, hfront⟩ := List.getLast?_eq_some_iff.mp hsep
    have hwhole := pieces_append_separator front []
    rw [← hfront, String.ofList_toList] at hwhole
    rw [hwhole, hfront, List.dropLast_concat]
    rfl
  · exact .inl rfl

theorem dirPieces_ne_nil {dir : String} (h : dir ≠ "") : dirPieces dir ≠ [] := by
  rw [dirPieces, if_neg h]
  split_ifs
  · exact pieces_ne_nil _
  · exact pieces_ne_nil _

/-! ## Components -/

/-- What stands in front of the components that come from pieces. -/
def lead (path : String) : List Component :=
  if isAbsolute path then [.root]
  else if (pieces path).head? = some "." then [.here]
  else []

theorem components_eq (path : String) :
    components path = lead path ++ (pieces path).filterMap Component.ofPiece? := by
  rw [components, lead]
  split_ifs with habsolute hhere
  · rfl
  · obtain ⟨rest, hpieces⟩ := List.head?_eq_some_iff.mp hhere
    rw [hpieces]
    rfl
  · split
    · rename_i rest hpieces
      rw [hpieces] at hhere
      exact absurd rfl hhere
    · rfl

theorem filterMap_dirPieces {dir : String} (h : dir ≠ "") :
    (dirPieces dir).filterMap Component.ofPiece? = (pieces dir).filterMap Component.ofPiece? := by
  have hempty : [""].filterMap Component.ofPiece? = [] := by decide
  rcases pieces_eq_dirPieces h with hpieces | hpieces
  · rw [hpieces]
  · rw [hpieces, List.filterMap_append, hempty, List.append_nil]

/-- Below a directory stand its components and then those of the relative path. -/
theorem components_join {dir : String} (hdir : dir ≠ "") {path : String}
    (h : isAbsolute path = false) :
    components (join dir path) = components dir ++ (pieces path).filterMap Component.ofPiece? := by
  have hhead : (pieces (join dir path)).head? = (pieces dir).head? := by
    obtain ⟨first, rest, hfirst⟩ := List.exists_cons_of_ne_nil (dirPieces_ne_nil hdir)
    rw [pieces_join dir h, hfirst]
    rcases pieces_eq_dirPieces hdir with hpieces | hpieces
    · rw [hpieces, hfirst]
      rfl
    · rw [hpieces, hfirst]
      rfl
  have hlead : lead (join dir path) = lead dir := by
    rw [lead, lead, isAbsolute_join dir h, hhead]
  rw [components_eq, components_eq, hlead, pieces_join dir h, List.filterMap_append,
    filterMap_dirPieces hdir, List.append_assoc]

/-- The components of a path but for a `.` in front. -/
def bare (path : String) : List Component := (components path).filter (· != .here)

/-- No piece by itself is a `.` in front. -/
theorem here_not_mem_pieces (names : List String) :
    .here ∉ names.filterMap Component.ofPiece? := by
  intro hmem
  obtain ⟨piece, -, hpiece⟩ := List.mem_filterMap.mp hmem
  unfold Component.ofPiece? at hpiece
  split_ifs at hpiece <;> cases hpiece

theorem filter_ofPiece? (names : List String) :
    (names.filterMap Component.ofPiece?).filter (· != .here) =
      names.filterMap Component.ofPiece? := by
  rw [List.filter_eq_self]
  intro c hc
  have hne : c ≠ .here := ne_of_mem_of_not_mem hc (here_not_mem_pieces names)
  simpa using hne

theorem bare_join {dir : String} (hdir : dir ≠ "") {path : String} (h : isAbsolute path = false) :
    bare (join dir path) = bare dir ++ (pieces path).filterMap Component.ofPiece? := by
  rw [bare, components_join hdir h, List.filter_append, filter_ofPiece?, bare]

theorem bare_of_relative {path : String} (h : isAbsolute path = false) :
    bare path = (pieces path).filterMap Component.ofPiece? := by
  have hlead : (lead path).filter (· != .here) = [] := by
    rw [lead, h, if_neg Bool.false_ne_true]
    split_ifs <;> decide
  rw [bare, components_eq, List.filter_append, hlead, List.nil_append, filter_ofPiece?]

/-- File names are components by themselves. -/
theorem filterMap_ofPiece?_of_names {names : List String} (h : ∀ name ∈ names, IsFileName name) :
    names.filterMap Component.ofPiece? = names.map .name := by
  induction names with
  | nil => rfl
  | cons name names ih =>
    rw [List.forall_mem_cons] at h
    have hname : Component.ofPiece? name = some (.name name) := by
      rw [Component.ofPiece?, if_neg (by simp [h.1.ne_empty, h.1.ne_here]), if_neg h.1.ne_up]
    rw [List.filterMap_cons_some hname, ih h.2, List.map_cons]

/-! ## The working directory -/

/-- A path is the working directory if it consists of dots and separators and starts with a dot. -/
theorem samePlace_here_iff {path : String} :
    samePlace path "." = true ↔ isAbsolute path = false ∧ (pieces path).head? = some "." ∧
      (pieces path).filterMap Component.ofPiece? = [] := by
  have hdot : components "." = [.here] := by decide
  rw [samePlace, beq_iff_eq, hdot, components_eq, lead]
  constructor
  · intro h
    split_ifs at h with habsolute hhere
    · cases h
    · exact ⟨Bool.eq_false_iff.mpr habsolute, hhere, by simpa using h⟩
    · rw [List.nil_append] at h
      exact absurd (h ▸ List.mem_singleton_self _) (here_not_mem_pieces (pieces path))
  · rintro ⟨habsolute, hhere, hnone⟩
    rw [habsolute, if_neg Bool.false_ne_true, if_pos hhere, hnone, List.append_nil]

theorem bare_of_here {path : String} (h : samePlace path "." = true) : bare path = [] := by
  obtain ⟨habsolute, -, hnone⟩ := samePlace_here_iff.mp h
  rw [bare_of_relative habsolute, hnone]

/-- Pieces that are no components lead nowhere else. -/
theorem walk_of_idle {names : List String} (h : names.filterMap Component.ofPiece? = [])
    (home : Location) : walk home names = home := by
  induction names with
  | nil => rfl
  | cons name names ih =>
    have hname : name = "" ∨ name = "." := by
      by_contra hne
      rw [List.filterMap_eq_nil_iff] at h
      have hnone := h name (List.mem_cons_self ..)
      unfold Component.ofPiece? at hnone
      rw [if_neg hne] at hnone
      split_ifs at hnone
    rw [walk, if_pos hname]
    apply ih
    rw [List.filterMap_eq_nil_iff] at h ⊢
    exact fun other hother => h other (List.mem_cons_of_mem _ hother)

theorem location_of_here {path : String} (h : samePlace path "." = true) (home : Location) :
    location home path = home := by
  obtain ⟨habsolute, -, hnone⟩ := samePlace_here_iff.mp h
  rw [location, startFrom, habsolute, if_neg Bool.false_ne_true, walk_of_idle hnone]

/-- What lies below another directory is not the working directory. -/
theorem samePlace_join {dir : String} (hdir : dir ≠ "") (h : samePlace dir "." = false)
    {path : String} (hpath : isAbsolute path = false) : samePlace (join dir path) "." = false := by
  rw [samePlace, beq_eq_false_iff_ne] at h ⊢
  rw [components_join hdir hpath]
  intro heq
  have hdot : components "." = [.here] := by decide
  rw [hdot] at h heq
  rcases List.append_eq_singleton_iff.mp heq with ⟨-, hlast⟩ | ⟨hsame, -⟩
  · exact absurd (hlast ▸ List.mem_singleton_self _) (here_not_mem_pieces (pieces path))
  · exact h hsame

end Path

end HeaderReflect
