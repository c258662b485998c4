import HeaderReflect.Discovery
import HeaderReflect.Proofs.Glob.Search

/-!
The pattern for the headers below a root. The search starts in the root of the tree or in the
working directory, as the root of the headers does, and goes along its pieces (`files?_pattern`).
-/

namespace HeaderReflect

namespace Glob

/-! ## Escaped paths -/

theorem escape_append (front back : List Char) :
    escape (front ++ back) = escape front ++ escape back :=
  List.flatMap_append

theorem mem_escape_separator {text : List Char} : '/' ∈ escape text ↔ '/' ∈ text := by
  induction text with
  | nil => rfl
  | cons c text ih =>
    rw [escape_cons, List.mem_append, List.mem_cons, ih]
    by_cases hc : c ∈ wildcards
    · have hsep : c ≠ '/' := by
        rintro rfl
        exact absurd hc (by decide)
      simp [hc, hsep.symm]
    · rw [if_neg hc, List.mem_singleton]

theorem escape_intercalate (parts : List (List Char)) :
    escape (List.intercalate ['/'] parts) = List.intercalate ['/'] (parts.map escape) := by
  induction parts with
  | nil => rfl
  | cons part parts ih =>
    cases parts with
    | nil => simp
    | cons next parts =>
      rw [List.intercalate_cons_cons, escape_append, escape_append, ih]
      simp only [List.map_cons, List.intercalate_cons_cons]
      rfl

/-- Escaping goes piece by piece. -/
theorem splitOn_escape (text : List Char) :
    (escape text).splitOn '/' = (text.splitOn '/').map escape := by
  have hnone : ∀ piece ∈ text.splitOn '/', '/' ∉ piece := by
    intro piece hpiece hc
    rw [List.splitOn_eq_splitOnP] at hpiece
    exact absurd (Text.not_of_mem_splitOnP hpiece '/' hc) (by decide)
  calc (escape text).splitOn '/'
      = (escape (List.intercalate ['/'] (text.splitOn '/'))).splitOn '/' := by
        rw [List.intercalate_splitOn]
    _ = (text.splitOn '/').map escape := by
        rw [escape_intercalate, List.splitOn_intercalate]
        · simpa [mem_escape_separator] using hnone
        · simp [List.splitOn_ne_nil]

/-- A piece of a path as it stands in a pattern. -/
def escaped (piece : String) : String := String.ofList (escape piece.toList)

theorem isAbsolute_escape (c : Char) (text back : List Char) :
    Path.isAbsolute (String.ofList (escape (c :: text) ++ back)) = (c == '/') := by
  rw [Path.isAbsolute, String.toList_ofList, escape_cons]
  by_cases hc : c ∈ wildcards
  · have hsep : c ≠ '/' := by
      rintro rfl
      exact absurd hc (by decide)
    simp [hc, hsep]
  · simp [hc]

/-- Where there is something behind the last separator, it is a piece like any other. -/
theorem piecesOf_of_getLast {text last : List Char} (hlast : last ≠ [])
    (h : (text.splitOnP (· == '/')).getLast? = some last) :
    piecesOf text = text.splitOnP (· == '/') := by
  rw [piecesOf, if_neg]
  rw [h]
  exact fun hempty => hlast (Option.some.inj hempty)

/-! ## Names -/

theorem namePatterns?_append {front back : List (List Char)} {ps qs : List Pattern}
    (hfront : namePatterns? front = some ps) (hback : namePatterns? back = some qs) :
    namePatterns? (front ++ back) = some (ps ++ qs) := by
  induction front generalizing ps with
  | nil =>
    cases hfront
    exact hback
  | cons piece front ih =>
    rw [namePatterns?] at hfront
    obtain ⟨p, hp, hrest⟩ := Option.bind_eq_some_iff.mp hfront
    obtain ⟨rest, hnames, heq⟩ := Option.bind_eq_some_iff.mp hrest
    cases heq
    rw [List.cons_append, namePatterns?, hp, ih hnames]
    rfl

theorem namePatterns?_escaped (names : List String) :
    namePatterns? ((names.map escaped).map (·.toList)) = some (names.map exactly) := by
  induction names with
  | nil => rfl
  | cons name names ih =>
    rw [List.map_cons, List.map_cons, namePatterns?, ih, escaped, String.toList_ofList,
      parse?_escape]
    rfl

theorem mergeRecursive_cons {p : Pattern} (hp : p.isRecursive = false) (rest : List Pattern) :
    mergeRecursive (p :: rest) = p :: mergeRecursive rest := by
  cases rest with
  | nil => rfl
  | cons q rest => rw [mergeRecursive, hp, Bool.false_and, if_neg Bool.false_ne_true]

/-- There is one `**` only. -/
theorem mergeRecursive_pattern (names : List String) (text : List Char) :
    mergeRecursive (names.map exactly ++ [[.anyPath], Pattern.ending text]) =
      names.map exactly ++ [[.anyPath], Pattern.ending text] := by
  induction names with
  | nil => rfl
  | cons name names ih =>
    rw [List.map_cons, List.cons_append, mergeRecursive_cons (p := exactly name)
      (isRecursive_exactly name.toList), ih]

end Glob

namespace Discovery

/-! ## The pattern -/

/-- What the names for an extension end with. -/
def ending (extension : String) : List Char := '.' :: extension.toList.dropWhile (· == '.')

/-- An extension that is plain text and part of one name. -/
def IsPlain (extension : String) : Prop :=
  ∀ c ∈ extension.toList, c ∉ Glob.wildcards ∧ c ≠ '/'

instance (extension : String) : Decidable (IsPlain extension) :=
  List.decidableBAll (fun c => c ∉ Glob.wildcards ∧ c ≠ '/') extension.toList

theorem IsPlain.ending {extension : String} (h : IsPlain extension) :
    ∀ c ∈ Discovery.ending extension, c ∉ Glob.wildcards ∧ c ≠ '/' := by
  intro c hc
  rcases List.mem_cons.mp hc with rfl | hc
  · decide
  · exact h c ((List.dropWhile_suffix _).mem hc)

theorem IsPlain.noSeparator {extension : String} (h : IsPlain extension) :
    '/' ∉ '*' :: Discovery.ending extension := by
  intro hc
  rcases List.mem_cons.mp hc with hc | hc
  · exact absurd hc (by decide)
  · exact (h.ending '/' hc).2 rfl

/-- What stands behind the root in a pattern. -/
def tail (extension : String) : List Char := '/' :: (['*', '*'] ++ '/' :: '*' :: ending extension)

theorem pattern_eq (root extension : String) :
    pattern root extension = String.ofList (Glob.escape root.toList ++ tail extension) := by
  simp [pattern, tail, ending]

/-- The patterns of the single names, for a root without what its search starts with. -/
theorem namePatterns?_tail (text : List Char) {extension : String} (h : IsPlain extension) :
    Glob.namePatterns? (Glob.piecesOf (Glob.escape text ++ tail extension)) =
      some ((Path.pieces (String.ofList text)).map Glob.exactly ++
        [[.anyPath], Glob.Pattern.ending (ending extension)]) := by
  have hstars : ['*', '*'].splitOn '/' = [['*', '*']] := List.splitOn_eq_singleton (by decide)
  have hpieces : (Glob.escape text ++ tail extension).splitOn '/' =
      ((Path.pieces (String.ofList text)).map Glob.escaped).map (·.toList) ++
        [['*', '*'], '*' :: ending extension] := by
    rw [tail, List.splitOn_append_cons_self, List.splitOn_append_cons_self,
      List.splitOn_eq_singleton h.noSeparator, hstars, Glob.splitOn_escape, Path.pieces_eq_splitOn]
    simp [Glob.escaped, Function.comp_def]
  have hstar := Glob.parse?_ending fun c hc => (h.ending c hc).1
  rw [List.splitOn_eq_splitOnP] at hpieces
  rw [Glob.piecesOf_of_getLast (List.cons_ne_nil '*' (ending extension)) (by simp [hpieces]),
    hpieces]
  apply Glob.namePatterns?_append (Glob.namePatterns?_escaped _)
  simp only [Glob.namePatterns?, hstar]
  rfl

theorem parse?_pattern (root : String) {extension : String} (h : IsPlain extension) :
    ∃ p, Glob.Pattern.parse? (pattern root extension).toList = some p := by
  obtain ⟨next, hroot⟩ := Glob.tokens?_escape root.toList (tail extension) true
  have hname := Glob.parse?_ending fun c hc => (h.ending c hc).1
  have hstars : Glob.tokens? ('/' == '/') (['*', '*'] ++ '/' :: '*' :: ending extension) =
      some (.anyPath :: Glob.Pattern.ending (ending extension)) := by
    rw [List.cons_append, List.singleton_append, Glob.tokens?,
      if_pos (beq_self_eq_true '/'), ← Glob.Pattern.parse?, hname]
    rfl
  rw [Glob.Pattern.parse?, pattern_eq, String.toList_ofList, hroot, tail,
    Glob.tokens?_literal (by decide), hstars]
  exact ⟨_, rfl⟩

theorem endsWithSeparator_pattern (root : String) {extension : String} (h : IsPlain extension) :
    FileSystem.endsWithSeparator (pattern root extension) = false := by
  have hsplit : tail extension = ['/', '*', '*', '/', '*'] ++ ending extension := rfl
  obtain ⟨last, hlast⟩ : ∃ last, (ending extension).getLast? = some last :=
    ⟨_, List.getLast?_eq_some_getLast (List.cons_ne_nil _ _)⟩
  have hsep : last ≠ '/' := (h.ending last (List.mem_of_getLast? hlast)).2
  rw [FileSystem.endsWithSeparator, pattern_eq, String.toList_ofList, hsplit, ← List.append_assoc,
    List.getLast?_append, hlast]
  simpa using hsep

/-! ## Where a search starts -/

/-- Where the search below a root starts. -/
def scope (root : String) : String := if Path.isAbsolute root then "/" else "."

/-- The pieces of the root that the search goes along from there. -/
def route (root : String) : List String :=
  if Path.isAbsolute root then (Path.pieces root).tail else Path.pieces root

theorem scopeOf_pattern {root : String} (hroot : root ≠ "") (extension : String) :
    ∃ text, Glob.scopeOf (pattern root extension) =
        (scope root, Glob.escape text ++ tail extension) ∧
      Path.pieces (String.ofList text) = route root := by
  obtain ⟨c, text, hchars⟩ := List.exists_cons_of_ne_nil (by simpa using hroot : root.toList ≠ [])
  have hstart : Path.isAbsolute root = (c == '/') := by simp [Path.isAbsolute, hchars]
  have hpattern : Path.isAbsolute (pattern root extension) = (c == '/') := by
    rw [pattern_eq, hchars]
    exact Glob.isAbsolute_escape c text _
  rw [Glob.scopeOf, hpattern, scope, route, hstart, pattern_eq, String.toList_ofList]
  cases hc : c == '/' with
  | true =>
    refine ⟨text, ?_, ?_⟩
    · rw [hchars, eq_of_beq hc]
      rfl
    · rw [Path.pieces_of_isAbsolute (hstart.trans hc), hchars]
      rfl
  | false => exact ⟨root.toList, rfl, by rw [String.ofList_toList]; rfl⟩

/-- **The headers below a root are looked for along its pieces** and then at any depth. -/
theorem files?_pattern (fs : FileSystem) {root : String} (hroot : root ≠ "")
    {extension : String} (h : IsPlain extension) :
    Glob.files? fs (pattern root extension) =
      some ((Glob.search fs ((route root).map Glob.exactly ++
        [[.anyPath], Glob.Pattern.ending (ending extension)]) (scope root)).filter fs.isFile) := by
  obtain ⟨p, hp⟩ := parse?_pattern root h
  obtain ⟨text, hscope, hroute⟩ := scopeOf_pattern hroot extension
  have hnames := namePatterns?_tail text h
  rw [hroute] at hnames
  rw [Glob.files?, hp, hscope]
  simp only [bind, Option.bind, hnames, endsWithSeparator_pattern root h, Bool.false_eq_true,
    if_false, Glob.mergeRecursive_pattern]
  rfl

end Discovery

end HeaderReflect
