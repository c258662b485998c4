import HeaderReflect.Glob.Walk
import HeaderReflect.Proofs.FileSystem.Tree
import HeaderReflect.Proofs.Glob.Escape
import HeaderReflect.Proofs.Path.Pieces

/-!
What a search for escaped pieces and an ending finds. Piece by piece it goes where a path goes that
is written with these pieces (`mem_search_map_exactly`), unless it comes to an empty one while it is
still in the working directory (`search_strays`). From there it finds the files below that have the
ending, each under its path (`mem_search_ending`).
-/

namespace HeaderReflect

/-! ## Paths that go on -/

namespace FileSystem

/-- A directory leads to the same place in front of what lies below it. -/
theorem follow_dirPieces {fs : FileSystem} {dir : String} {l : Location}
    (h : fs.locate dir = .ok l) :
    fs.follow (Path.startFrom fs.working dir) (Path.dirPieces dir) = .ok l := by
  have hne := ne_empty_of_locate h
  rw [locate_of_ne hne] at h
  rcases Path.pieces_eq_dirPieces hne with hpieces | hpieces
  · rwa [hpieces] at h
  · rw [hpieces, follow_append] at h
    cases hfront : fs.follow (Path.startFrom fs.working dir) (Path.dirPieces dir) with
    | error e => rw [hfront] at h; cases h
    | ok m =>
      rw [hfront] at h
      have hsame : l = m := follow_replicate_empty (n := 1) h
      rw [hsame]

/-- What lies below a directory is found by going on from there. -/
theorem locate_join {fs : FileSystem} {dir path : String} {l : Location}
    (h : fs.locate dir = .ok l) (hpath : Path.isAbsolute path = false) :
    fs.locate (Path.join dir path) = fs.follow l (Path.pieces path) := by
  have hdir := ne_empty_of_locate h
  have hpieces := Path.pieces_join dir hpath
  have hne : Path.join dir path ≠ "" := by
    intro hempty
    rw [hempty] at hpieces
    have hnone : Path.pieces "" = [""] := rfl
    have hlength := congrArg List.length (hnone.symm.trans hpieces)
    have hfront := List.length_pos_iff.mpr (Path.dirPieces_ne_nil hdir)
    have hback := List.length_pos_iff.mpr (Path.pieces_ne_nil path)
    rw [List.length_append, List.length_singleton] at hlength
    omega
  rw [locate_of_ne hne, Path.startFrom, Path.isAbsolute_join dir hpath, hpieces, follow_append,
    ← Path.startFrom, follow_dirPieces h]
  rfl

end FileSystem

namespace Glob

/-- A search cannot go on from the working directory with the empty text, since there is nothing at
the empty path. -/
def Passes (path text : String) : Prop := text = "" → Path.samePlace path "." = false

section Extend

variable {path text : String} (htext : Path.isAbsolute text = false)

include htext

/-- A search goes on like a path. -/
theorem locate_extend {fs : FileSystem} {l : Location} (h : fs.locate path = .ok l)
    (hpasses : Passes path text) :
    fs.locate (extend path text) = fs.follow l (Path.pieces text) := by
  unfold extend
  split_ifs with hhere
  · have hne : text ≠ "" := fun hempty => by simp [hpasses hempty] at hhere
    have hworking : fs.working = l :=
      (Path.location_of_here hhere _).symm.trans (FileSystem.location_of_locate h)
    rw [FileSystem.locate_of_ne hne, Path.startFrom, htext, if_neg Bool.false_ne_true, hworking]
  · exact FileSystem.locate_join h htext

theorem bare_extend (hne : path ≠ "") :
    Path.bare (extend path text) =
      Path.bare path ++ (Path.pieces text).filterMap Path.Component.ofPiece? := by
  unfold extend
  split_ifs with hhere
  · rw [Path.bare_of_here hhere, Path.bare_of_relative htext, List.nil_append]
  · exact Path.bare_join hne htext

end Extend

/-- A search stays in the working directory with a `.` only. -/
theorem samePlace_extend {path piece : String} (hne : path ≠ "") (hpiece : '/' ∉ piece.toList)
    (h : Path.samePlace (extend path piece) "." = true) :
    Path.samePlace path "." = true ∧ piece = "." := by
  unfold extend at h
  split_ifs at h with hhere
  · obtain ⟨-, hhead, -⟩ := Path.samePlace_here_iff.mp h
    rw [Path.pieces_of_noSeparator hpiece] at hhead
    exact ⟨hhere, Option.some.inj hhead⟩
  · rw [Path.samePlace_join hne (Bool.eq_false_iff.mpr hhere)
      (Path.not_isAbsolute_of_noSeparator hpiece)] at h
    cases h

/-! ## Step by step -/

/-- A single name is looked up, and what has it must be there. -/
theorem search_named {fs : FileSystem} {p : Pattern} {cs : List Char} {path : String}
    (hp : p.literal? = some cs) (rest : List Pattern) :
    search fs (p :: rest) path =
      if (if String.ofList cs = "." ∨ String.ofList cs = ".." then fs.isDirectory path
          else (fs.stat (extend path (String.ofList cs))).toOption.isSome)
      then search fs rest (extend path (String.ofList cs)) else [] := by
  rw [search.eq_def]
  simp only [hp]

theorem search_literal {fs : FileSystem} {p : Pattern} {cs : List Char} {path : String}
    (hp : p.literal? = some cs) (hhere : fs.isDirectory path = true)
    (hthere : (fs.stat (extend path (String.ofList cs))).toOption.isSome = true)
    (rest : List Pattern) :
    search fs (p :: rest) path = search fs rest (extend path (String.ofList cs)) := by
  simp only [search_named hp, hhere, hthere, ite_self, if_true]

/-- Where there is no single name to look for, the directory is read. -/
theorem search_children {fs : FileSystem} {p : Pattern} {path : String} (hp : p.literal? = none)
    (hrecursive : p.isRecursive = false) (hhere : fs.isDirectory path = true)
    (rest : List Pattern) :
    search fs (p :: rest) path =
      (matchingChildren fs p path ++ matchingDots p path).flatMap (search fs rest) := by
  rw [search.eq_def]
  simp [hp, hrecursive, hhere]

/-- At the end of the patterns, `**` in front of a name goes through all that lies below. -/
theorem search_below {fs : FileSystem} {path : String} (hhere : fs.isDirectory path = true)
    (q : Pattern) :
    search fs [[.anyPath], q] path =
      ((descendants fs path).filter fun found => q.matches found.2.1.toList).map (·.1) := by
  have hliteral : Pattern.literal? [.anyPath] = none := rfl
  have hrecursive : Pattern.isRecursive [.anyPath] = true := by decide
  rw [search.eq_3]
  simp only [hliteral, hhere, hrecursive, Bool.not_true, Bool.false_eq_true, if_false, if_true,
    search]
  exact List.map_eq_flatMap.symm

/-- The pattern of one escaped piece. -/
def exactly (piece : String) : Pattern := piece.toList.map Token.exactly

theorem matches_exactly_iff {piece name : String} :
    (exactly piece).matches name.toList = true ↔ name = piece := by
  rw [exactly, matches_exactly, String.toList_inj]

theorem matchingDots_exactly {name : String} (hname : Path.IsFileName name) (path : String) :
    matchingDots (exactly name) path = [] := by
  unfold matchingDots
  split
  · rw [List.map_eq_nil_iff, List.filter_eq_nil_iff]
    intro dots hdots hmatch
    rw [matches_exactly_iff] at hmatch
    subst hmatch
    simp only [List.mem_cons, List.not_mem_nil, or_false] at hdots
    exact hdots.elim hname.ne_here hname.ne_up
  · rfl

/-- A path that leads to a directory. -/
structure Leads (fs : FileSystem) (path : String) (l : Location) : Prop where
  locate : fs.locate path = .ok l
  directory : ∃ t, fs.lookup? l = some (.directory t)

namespace Leads

variable {fs : FileSystem} {path : String} {l : Location} (h : Leads fs path l)

include h

theorem isDirectory : fs.isDirectory path = true := by
  obtain ⟨t, ht⟩ := h.directory
  exact FileSystem.isDirectory_iff.mpr ⟨l, t, h.locate, ht⟩

theorem isSome_stat : (fs.stat path).toOption.isSome = true := by
  obtain ⟨t, ht⟩ := h.directory
  rw [FileSystem.stat, h.locate]
  simp [bind, Except.bind, ht, Except.toOption]

/-- A directory is no file, so a file lies further down. -/
theorem ne_nil_of_content {way : Location} {content : Bytes}
    (hcontent : fs.content? (l ++ way) = some content) : way ≠ [] := by
  rintro rfl
  obtain ⟨t, ht⟩ := h.directory
  rw [List.append_nil, FileSystem.content?, ht] at hcontent
  cases hcontent

end Leads

/-- The children with the name of an escaped piece: there is one, since something has the name. -/
theorem mem_matchingChildren {fs : FileSystem} {path : String} {l : Location}
    (h : Leads fs path l) {name : String} {e : FileEntry}
    (he : fs.lookup? (l ++ [name]) = some e) {found : String} :
    found ∈ matchingChildren fs (exactly name) path ↔ found = extend path name := by
  have hchild := FileSystem.mem_childrenOf.mpr (FileSystem.mem_of_lookup? he)
  unfold matchingChildren
  rw [h.locate]
  simp only [List.mem_map, List.mem_filter, matches_exactly_iff]
  constructor
  · rintro ⟨⟨child, f⟩, ⟨-, rfl⟩, rfl⟩
    rfl
  · rintro rfl
    exact ⟨(name, e), ⟨hchild, rfl⟩, rfl⟩

/-- **An escaped piece leads a search where it leads a path.** -/
theorem mem_search_exactly {fs : FileSystem} {path piece : String} {l m : Location}
    (h : Leads fs path l) (hpiece : '/' ∉ piece.toList) (hpasses : Passes path piece)
    (hnext : Leads fs (extend path piece) m) (rest : List Pattern) {found : String} :
    found ∈ search fs (exactly piece :: rest) path ↔
      found ∈ search fs rest (extend path piece) := by
  rcases literal?_exactly piece.toList with hliteral | ⟨hliteral, c, hc, hwild⟩
  · -- The piece is looked up by its name, which is there.
    have hthere := hnext.isSome_stat
    rw [← String.ofList_toList (s := piece)] at hthere
    rw [exactly, search_literal hliteral h.isDirectory hthere, String.ofList_toList]
  · -- The directory is read, and one of its entries matches.
    have hname : Path.IsFileName piece := by
      have hplain : ∀ text ∈ ["", ".", ".."], ∀ c ∈ text.toList, c ∉ wildcards := by
        simp [wildcards]
      have hother : piece ∉ ["", ".", ".."] := fun hmem => hplain piece hmem c hc hwild
      simp only [List.mem_cons, List.not_mem_nil, or_false, not_or] at hother
      exact ⟨hother.1, hother.2.1, hother.2.2, hpiece⟩
    obtain ⟨t, ht⟩ := h.directory
    obtain ⟨u, hu⟩ := hnext.directory
    obtain rfl : l ++ [piece] = m := by
      have hlocate := hnext.locate
      rw [locate_extend (Path.not_isAbsolute_of_noSeparator hpiece) h.locate hpasses,
        Path.pieces_of_noSeparator hpiece, FileSystem.follow_name ht hname,
        FileSystem.follow] at hlocate
      exact Except.ok.inj hlocate
    rw [exactly, search_children hliteral (isRecursive_exactly _) h.isDirectory, ← exactly,
      matchingDots_exactly hname, List.append_nil, List.mem_flatMap]
    simp only [mem_matchingChildren h hu, exists_eq_left]

/-! ## All pieces of a path -/

/-- An empty piece stands behind dots alone, or first. -/
def Strays (pieces : List String) : Prop := (pieces.dropWhile (· == ".")).head? = some ""

instance (pieces : List String) : Decidable (Strays pieces) := inferInstanceAs (Decidable (_ = _))

/-- From `path` the pieces lead to a directory, and a search passes all of them. -/
structure Goes (fs : FileSystem) (path : String) (pieces : List String) (d : Location) : Prop where
  leads : ∃ l, Leads fs path l ∧ fs.follow l pieces = .ok d
  directory : ∃ t, fs.lookup? d = some (.directory t)
  noSeparator : ∀ piece ∈ pieces, '/' ∉ piece.toList
  stays : Path.samePlace path "." = true → ¬ Strays pieces

namespace Goes

variable {fs : FileSystem} {path piece : String} {pieces : List String} {d : Location}

theorem ne_empty (h : Goes fs path pieces d) : path ≠ "" := by
  obtain ⟨l, hl, -⟩ := h.leads
  exact FileSystem.ne_empty_of_locate hl.locate

theorem passes (h : Goes fs path (piece :: pieces) d) : Passes path piece := by
  rintro rfl
  rw [Bool.eq_false_iff]
  exact fun hhere => h.stays hhere rfl

/-- One step on the way, which ends in a directory: it is the last one, or another follows. -/
theorem next (h : Goes fs path (piece :: pieces) d) : Goes fs (extend path piece) pieces d := by
  obtain ⟨l, hl, hfollow⟩ := h.leads
  have hpiece : '/' ∉ piece.toList := h.noSeparator piece (List.mem_cons_self ..)
  have hextend : fs.locate (extend path piece) = fs.follow l [piece] := by
    rw [locate_extend (Path.not_isAbsolute_of_noSeparator hpiece) hl.locate h.passes,
      Path.pieces_of_noSeparator hpiece]
  rw [← List.singleton_append, FileSystem.follow_append, ← hextend] at hfollow
  cases hm : fs.locate (extend path piece) with
  | error e => rw [hm] at hfollow; cases hfollow
  | ok m =>
    rw [hm] at hfollow
    obtain ⟨t, ht⟩ := h.directory
    refine ⟨⟨m, ⟨hm, FileSystem.directory_of_follow hfollow ht⟩, hfollow⟩, h.directory,
      fun other hother => h.noSeparator other (List.mem_cons_of_mem _ hother), fun hhere => ?_⟩
    obtain ⟨hbefore, rfl⟩ := samePlace_extend h.ne_empty hpiece hhere
    exact h.stays hbefore

/-- At the end of the pieces the directory is reached. -/
theorem foldl (h : Goes fs path pieces d) : Leads fs (pieces.foldl extend path) d := by
  induction pieces generalizing path with
  | nil =>
    obtain ⟨l, hl, hfollow⟩ := h.leads
    cases hfollow
    exact hl
  | cons piece pieces ih => exact ih h.next

/-- The path there has the components of the pieces. -/
theorem bare_foldl (h : Goes fs path pieces d) :
    Path.bare (pieces.foldl extend path) =
      Path.bare path ++ pieces.filterMap Path.Component.ofPiece? := by
  induction pieces generalizing path with
  | nil => rw [List.foldl_nil, List.filterMap_nil, List.append_nil]
  | cons piece pieces ih =>
    have hpiece : '/' ∉ piece.toList := h.noSeparator piece (List.mem_cons_self ..)
    have hone : (piece :: pieces).filterMap Path.Component.ofPiece? =
        [piece].filterMap Path.Component.ofPiece? ++
          pieces.filterMap Path.Component.ofPiece? := by
      rw [← List.filterMap_append, List.singleton_append]
    rw [List.foldl_cons, ih h.next, bare_extend (Path.not_isAbsolute_of_noSeparator hpiece)
      h.ne_empty, Path.pieces_of_noSeparator hpiece, hone, List.append_assoc]

end Goes

/-- **Escaped pieces lead a search where they lead a path.** -/
theorem mem_search_map_exactly {fs : FileSystem} {path : String} {pieces : List String}
    {d : Location} (h : Goes fs path pieces d) (rest : List Pattern) {found : String} :
    found ∈ search fs (pieces.map exactly ++ rest) path ↔
      found ∈ search fs rest (pieces.foldl extend path) := by
  induction pieces generalizing path with
  | nil => rfl
  | cons piece pieces ih =>
    obtain ⟨l, hl, -⟩ := h.leads
    obtain ⟨m, hm, -⟩ := h.next.leads
    have hpiece : '/' ∉ piece.toList := h.noSeparator piece (List.mem_cons_self ..)
    rw [List.map_cons, List.cons_append, mem_search_exactly hl hpiece h.passes hm, ih h.next,
      List.foldl_cons]

/-- **A search that strays finds nothing.** From the working directory the empty piece leads to the
empty path. -/
theorem search_strays {fs : FileSystem} {pieces : List String} (h : Strays pieces)
    (rest : List Pattern) : search fs (pieces.map exactly ++ rest) "." = [] := by
  induction pieces with
  | nil => cases h
  | cons piece pieces ih =>
    rw [Strays, List.dropWhile_cons] at h
    split_ifs at h with hdot
    · obtain rfl : piece = "." := by simpa using hdot
      have hhere : extend "." "." = "." := by decide
      have hstep := @search_named fs (exactly ".") ['.'] "." rfl (pieces.map exactly ++ rest)
      have hdots : String.ofList ['.'] = "." := rfl
      rw [hdots, hhere, ih h, ite_self] at hstep
      exact hstep
    · obtain rfl : piece = "" := Option.some.inj h
      rfl

/-! ## All that lies below -/

theorem mem_descendants {fs : FileSystem} {path : String} {d : Location} (h : Leads fs path d)
    {found name : String} {e : FileEntry} :
    (found, name, e) ∈ descendants fs path ↔
      ∃ way, way ≠ [] ∧ (d ++ way, e) ∈ fs.entries ∧
        found = extend path (Text.joinWith "/" way) ∧ name = way.getLastD "" := by
  unfold descendants
  rw [h.locate]
  simp only [List.mem_map, Prod.exists, Prod.mk.injEq, FileSystem.mem_below]
  constructor
  · rintro ⟨way, f, ⟨hway, hmem⟩, rfl, rfl, rfl⟩
    exact ⟨way, hway, hmem, rfl, rfl⟩
  · rintro ⟨way, hway, hmem, rfl, rfl⟩
    exact ⟨way, e, ⟨hway, hmem⟩, rfl, rfl, rfl⟩

/-- The way down to something is a relative path. -/
theorem way_below {fs : FileSystem} (htree : fs.IsTree) {d way : Location} (hway : way ≠ [])
    {e : FileEntry} (he : fs.lookup? (d ++ way) = some e) :
    Path.pieces (Text.joinWith "/" way) = way ∧
      Path.isAbsolute (Text.joinWith "/" way) = false ∧ Text.joinWith "/" way ≠ "" := by
  have hnames : ∀ name ∈ way, Path.IsFileName name :=
    fun name hname => htree.isFileName he (List.mem_append_right d hname)
  have hpieces := Path.pieces_joinWith hway fun name hname => (hnames name hname).noSeparator
  obtain ⟨first, rest, rfl⟩ := List.exists_cons_of_ne_nil hway
  have hfirst : first ≠ "" := (hnames first (List.mem_cons_self ..)).ne_empty
  refine ⟨hpieces, Path.not_isAbsolute_of_pieces hpieces hfirst, fun hempty => ?_⟩
  rw [hempty] at hpieces
  exact hfirst (List.cons.inj hpieces).1.symm

section Below

variable {fs : FileSystem} (htree : fs.IsTree) {path : String} {d : Location}
  (h : Leads fs path d)

include htree h

/-- What lies below is found under its path. -/
theorem locate_below {way : Location} (hway : way ≠ []) {e : FileEntry}
    (he : fs.lookup? (d ++ way) = some e) :
    fs.locate (extend path (Text.joinWith "/" way)) = .ok (d ++ way) := by
  obtain ⟨hpieces, hrelative, hne⟩ := way_below htree hway he
  rw [locate_extend hrelative h.locate fun hempty => absurd hempty hne, hpieces]
  exact htree.follow_down he

theorem isFile_below {way : Location} (hway : way ≠ []) {e : FileEntry}
    (he : fs.lookup? (d ++ way) = some e) :
    fs.isFile (extend path (Text.joinWith "/" way)) = !e.isDirectory := by
  rw [FileSystem.isFile, FileSystem.stat, locate_below htree h hway he]
  simp [bind, Except.bind, he]

/-- Its path is that of the directory, with the way down behind it. -/
theorem bare_below {way : Location} (hway : way ≠ []) {e : FileEntry}
    (he : fs.lookup? (d ++ way) = some e) :
    Path.bare (extend path (Text.joinWith "/" way)) =
      Path.bare path ++ way.map Path.Component.name := by
  obtain ⟨hpieces, hrelative, -⟩ := way_below htree hway he
  have hnames : ∀ name ∈ way, Path.IsFileName name :=
    fun name hname => htree.isFileName he (List.mem_append_right d hname)
  rw [bare_extend hrelative (FileSystem.ne_empty_of_locate h.locate), hpieces,
    Path.filterMap_ofPiece?_of_names hnames]

/-- **A search for an ending finds the files below that have it, at every depth.** -/
theorem mem_search_ending {text : List Char} (htext : ∀ c ∈ text, c ∉ wildcards)
    {found : String} :
    found ∈ (search fs [[.anyPath], .ending text] path).filter fs.isFile ↔
      ∃ way content, fs.content? (d ++ way) = some content ∧
        found = extend path (Text.joinWith "/" way) ∧ text <:+ (way.getLastD "").toList := by
  rw [search_below h.isDirectory, List.mem_filter, List.mem_map]
  simp only [List.mem_filter, Prod.exists, matches_ending htext, mem_descendants h]
  constructor
  · rintro ⟨⟨_, name, e, ⟨⟨way, hway, hmem, rfl, rfl⟩, hend⟩, rfl⟩, hfile⟩
    obtain ⟨f, hf⟩ := FileSystem.exists_lookup? hmem
    rw [isFile_below htree h hway hf] at hfile
    cases f with
    | directory t => cases hfile
    | file content t =>
      refine ⟨way, content, ?_, rfl, hend⟩
      rw [FileSystem.content?, hf]
      rfl
  · rintro ⟨way, content, hcontent, rfl, hend⟩
    obtain ⟨e, he, hfile⟩ := Option.bind_eq_some_iff.mp hcontent
    cases e with
    | directory t => cases hfile
    | file content t =>
      have hway := h.ne_nil_of_content hcontent
      have hmem := FileSystem.mem_of_lookup? he
      have hfound := isFile_below htree h hway he
      exact ⟨⟨_, way.getLastD "", .file content t, ⟨⟨way, hway, hmem, rfl, rfl⟩, hend⟩, rfl⟩,
        hfound⟩

end Below

end Glob

end HeaderReflect
