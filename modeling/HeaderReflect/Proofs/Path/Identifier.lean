import HeaderReflect.Proofs.Generator.Collisions
import HeaderReflect.Proofs.Path.Segments
import Mathlib.Logic.Relation

/-!
Identifiers of headers. A path can be spelled in many ways: a separator is exchanged for the other
one, or a segment that means nothing is put in. Two paths have the same normal form exactly if one
is a spelling of the other (`respelled_iff_segments_eq`), and all spellings give one identifier,
made of letters, digits and underscores (`identifier_respelled`).

An underscore in an identifier does not tell whether it stood in a segment or joins two. Where no
segment holds one, it can only join, so that the segments are read back
(`normalize_eq_of_identifier_eq`) and nothing that is generated for one header is also generated for
another one (`plain_headers_apart`).
-/

namespace HeaderReflect.Path

/-! ## Spellings of a path -/

/-- A place in a path where a segment starts: its front, or right behind a separator. -/
def IsCut (front : List Char) : Prop := ∀ c ∈ front.getLast?, isSeparator c = true

theorem isCut_nil : IsCut [] := by nofun

/-- One step from a spelling of a path to another one. -/
inductive Respelling : List Char → List Char → Prop
  | exchange (front rest : List Char) {c d : Char} (hc : isSeparator c = true)
      (hd : isSeparator d = true) : Respelling (front ++ c :: rest) (front ++ d :: rest)
  | insert {front : List Char} (hfront : IsCut front) (rest : List Char) {idle : Segment}
      (hidle : isMeaningful idle = false) {c : Char} (hc : isSeparator c = true) :
      Respelling (front ++ rest) (front ++ (idle ++ c :: rest))
  | append (path : List Char) {idle : Segment} (hidle : isMeaningful idle = false) {c : Char}
      (hc : isSeparator c = true) : Respelling path (path ++ c :: idle)

/-- Any number of steps, each of them in either direction. -/
def Respelled : List Char → List Char → Prop := Relation.EqvGen Respelling

theorem segments_of_idle {idle : Segment} (h : isMeaningful idle = false) : segments idle = [] := by
  simp only [isMeaningful, Bool.not_eq_false', Bool.or_eq_true, List.isEmpty_iff, beq_iff_eq] at h
  rcases h with (rfl | rfl) | rfl
  · rfl
  · rfl
  · rfl

theorem segments_cut {front : List Char} (h : IsCut front) (rest : List Char) :
    segments (front ++ rest) = segments front ++ segments rest := by
  rcases List.eq_nil_or_concat front with rfl | ⟨before, c, rfl⟩
  · rfl
  · have hc : isSeparator c = true := h c (by simp)
    rw [List.concat_eq_append, List.append_assoc, List.singleton_append, segments_append hc,
      segments_append hc, segments_nil, List.append_nil]

theorem Respelling.segments_eq {a b : List Char} (h : Respelling a b) :
    segments a = segments b := by
  cases h with
  | exchange front rest hc hd => rw [segments_append hc, segments_append hd]
  | insert hfront rest hidle hc =>
    rw [segments_cut hfront, segments_cut hfront, segments_append hc, segments_of_idle hidle,
      List.nil_append]
  | append path hidle hc => rw [segments_append hc, segments_of_idle hidle, List.append_nil]

theorem Respelled.segments_eq {a b : List Char} (h : Respelled a b) : segments a = segments b := by
  induction h with
  | rel a b h => exact h.segments_eq
  | refl a => rfl
  | symm a b _ ih => exact ih.symm
  | trans a b c _ _ ih more => exact ih.trans more

/-- A step can be taken behind any separator. -/
theorem Respelling.behind {a b : List Char} (h : Respelling a b) (front : List Char) {c : Char}
    (hc : isSeparator c = true) : Respelling (front ++ c :: a) (front ++ c :: b) := by
  cases h with
  | exchange before rest hd he =>
    have step := Respelling.exchange (front ++ c :: before) rest hd he
    simpa only [List.append_assoc, List.cons_append] using step
  | @insert before hbefore rest idle hidle d hd =>
    have hcut : IsCut (front ++ c :: before) := by
      intro e he
      rcases List.eq_nil_or_concat before with rfl | ⟨before, last, rfl⟩
      · obtain rfl : c = e := by simpa using he
        exact hc
      · have hlast : (front ++ c :: before.concat last).getLast? = some last := by
          rw [List.concat_eq_append, ← List.cons_append, ← List.append_assoc, List.getLast?_concat]
        obtain rfl : last = e := Option.some.inj (hlast.symm.trans he)
        exact hbefore last (by simp)
    have step := Respelling.insert hcut rest hidle hd
    simpa only [List.append_assoc, List.cons_append] using step
  | append path hidle hd =>
    have step := Respelling.append (front ++ c :: a) hidle hd
    simpa only [List.append_assoc, List.cons_append] using step

theorem Respelled.behind {a b : List Char} (h : Respelled a b) (front : List Char) {c : Char}
    (hc : isSeparator c = true) : Respelled (front ++ c :: a) (front ++ c :: b) := by
  induction h with
  | rel a b h => exact .rel _ _ (h.behind front hc)
  | refl a => exact .refl _
  | symm a b _ ih => exact .symm _ _ ih
  | trans a b d _ _ ih more => exact .trans _ _ _ ih more

theorem joinSegments_singleton (s : Segment) : joinSegments [s] = s :=
  List.intercalate_singleton

/-- A segment that means nothing can be left out, also if nothing else is there. -/
theorem respelled_of_idle {idle : Segment} (h : isMeaningful idle = false) :
    Respelled idle (joinSegments (segments idle)) := by
  have hslash : isSeparator '/' = true := by decide
  have hempty : isMeaningful [] = false := by decide
  have hlong : Respelling idle ('/' :: idle) := .insert isCut_nil idle hempty hslash
  have hshort : Respelling [] ('/' :: idle) := .append [] h hslash
  rw [segments_of_idle h]
  exact .trans _ _ _ (.rel _ _ hlong) (.symm _ _ (.rel _ _ hshort))

theorem respelled_of_noSeparator {piece : List Char} (h : ∀ c ∈ piece, isSeparator c = false) :
    Respelled piece (joinSegments (segments piece)) := by
  cases hpiece : isMeaningful piece with
  | false => exact respelled_of_idle hpiece
  | true =>
    rw [segments_of_isSegment ⟨hpiece, h⟩, joinSegments_singleton]
    exact .refl _

/-- Every path is a spelling of its normal form. -/
theorem respelled_joinSegments (path : List Char) :
    Respelled path (joinSegments (segments path)) := by
  -- The induction takes one piece off the front: it is a segment of the normal form or idle.
  induction hlength : path.length using Nat.strong_induction_on generalizing path with
  | _ n ih =>
    by_cases hsep : ∀ c ∈ path, isSeparator c = false
    · exact respelled_of_noSeparator hsep
    simp only [not_forall, Bool.not_eq_false] at hsep
    obtain ⟨c, hmem, hc⟩ := hsep
    obtain ⟨d, hd⟩ := Option.isSome_iff_exists.mp (List.find?_isSome.mpr ⟨c, hmem, hc⟩)
    obtain ⟨hdsep, piece, rest, rfl, hpiece⟩ := List.find?_eq_some_iff_append.mp hd
    replace hpiece : ∀ c ∈ piece, isSeparator c = false := fun c hc => by simpa using hpiece c hc
    have hrest : Respelled rest (joinSegments (segments rest)) := by
      refine ih rest.length ?_ rest rfl
      rw [← hlength, List.length_append, List.length_cons]
      omega
    refine .trans _ _ _ (hrest.behind piece hdsep) ?_
    rw [segments_append hdsep]
    by_cases hempty : segments rest = []
    · have hidle : isMeaningful [] = false := by decide
      have hend : Respelling piece (piece ++ [d]) := .append piece hidle hdsep
      rw [hempty, List.append_nil]
      exact .trans _ _ _ (.symm _ _ (.rel _ _ hend)) (respelled_of_noSeparator hpiece)
    · cases hmeaning : isMeaningful piece with
      | false =>
        rw [segments_of_idle hmeaning, List.nil_append]
        refine .symm _ _ (.rel _ _ ?_)
        exact .insert isCut_nil _ hmeaning hdsep
      | true =>
        have hone := segments_of_isSegment ⟨hmeaning, hpiece⟩
        rw [hone, joinSegments_append (List.cons_ne_nil _ _) hempty, joinSegments_singleton]
        exact .rel _ _ (.exchange piece _ hdsep (by decide))

/-- **Two paths are spellings of one another exactly if they have the same segments.** -/
theorem respelled_iff_segments_eq {a b : List Char} : Respelled a b ↔ segments a = segments b := by
  refine ⟨Respelled.segments_eq, fun h => ?_⟩
  have hb := respelled_joinSegments b
  rw [← h] at hb
  exact .trans _ _ _ (respelled_joinSegments a) (.symm _ _ hb)

theorem normalize_eq_iff {p q : String} :
    normalize p = normalize q ↔ segments p.toList = segments q.toList := by
  constructor
  · intro h
    rw [← segments_normalize p, h, segments_normalize]
  · intro h
    rw [normalize, h, normalize]

theorem isAsciiAlphanumeric_iff {c : Char} :
    isAsciiAlphanumeric c = true ↔ c.isAlphanum = true := by
  have halphanum : c.isAlphanum = (c.isUpper || c.isLower || c.isDigit) := rfl
  have hupper : c.isUpper = (decide ('A' ≤ c) && decide (c ≤ 'Z')) := Bool.decide_and ..
  have hlower : c.isLower = (decide ('a' ≤ c) && decide (c ≤ 'z')) := rfl
  have hdigit : c.isDigit = (decide ('0' ≤ c) && decide (c ≤ '9')) := rfl
  rw [isAsciiAlphanumeric, ← hupper, ← hlower, ← hdigit, halphanum, Bool.or_comm c.isUpper]

/-- **Identifiers are valid and depend on the meaningful segments alone.** The paths with the normal
form of `p` are exactly its spellings, and each of them has the identifier of `p`. -/
theorem identifier_respelled (p : String) :
    (∀ c ∈ (identifier p).toList, c.isAlphanum = true ∨ c = '_') ∧
      normalize (normalize p) = normalize p ∧ identifier (normalize p) = identifier p ∧
      ∀ q : String, (Respelled p.toList q.toList ↔ normalize q = normalize p) ∧
        (Respelled p.toList q.toList → identifier q = identifier p) := by
  refine ⟨fun c hc => ?_, normalize_normalize p, identifier_normalize p, fun q => ⟨?_, fun h => ?_⟩⟩
  · exact (mem_identifier hc).imp_left isAsciiAlphanumeric_iff.mp
  · rw [respelled_iff_segments_eq, normalize_eq_iff, eq_comm]
  · rw [identifier, ← h.segments_eq, identifier]

/-- A segment that goes up in front, and the other separator. -/
theorem identifier_respelled_upwards :
    Respelled "core/a-b.inl.hpp".toList "..\\core\\a-b.inl.hpp".toList ∧
      normalize "..\\core\\a-b.inl.hpp" = normalize "core/a-b.inl.hpp" ∧
      identifier "..\\core\\a-b.inl.hpp" = identifier "core/a-b.inl.hpp" ∧
      identifier "core/a-b.inl.hpp" = "core_a_b_inl" := by
  have hexchange : Respelling "core/a-b.inl.hpp".toList "core\\a-b.inl.hpp".toList :=
    .exchange "core".toList "a-b.inl.hpp".toList (by decide) (by decide)
  have hup : isMeaningful "..".toList = false := by decide
  have hinsert : Respelling "core\\a-b.inl.hpp".toList "..\\core\\a-b.inl.hpp".toList :=
    .insert isCut_nil "core\\a-b.inl.hpp".toList hup (by decide)
  have hrespelled : Respelled "core/a-b.inl.hpp".toList "..\\core\\a-b.inl.hpp".toList :=
    .trans _ _ _ (.rel _ _ hexchange) (.rel _ _ hinsert)
  obtain ⟨-, -, -, hspellings⟩ := identifier_respelled "core/a-b.inl.hpp"
  obtain ⟨hnormal, hidentifier⟩ := hspellings "..\\core\\a-b.inl.hpp"
  exact ⟨hrespelled, hnormal.mp hrespelled, hidentifier hrespelled, by decide⟩

/-! ## Reading segments back -/

/-- A segment of letters and digits. -/
def IsPlain (s : Segment) : Prop := ∀ c ∈ s, c.isAlphanum = true

instance (s : Segment) : Decidable (IsPlain s) :=
  List.decidableBAll (fun c : Char => c.isAlphanum = true) s

/-- A path of plain segments, the last one of which is a name in front of the extension. -/
def IsPlainHeader (extension : Segment) (path : String) : Prop :=
  ∃ dirs name, segments path.toList = dirs ++ [name ++ '.' :: extension] ∧
    (∀ s ∈ dirs, IsPlain s) ∧ IsPlain name ∧ name ≠ []

theorem stem_of_extension {name extension : Segment} (hname : name ≠ []) (hdot : '.' ∉ extension) :
    stem (name ++ '.' :: extension) = name := by
  have hcontains : (name ++ '.' :: extension).contains '.' = true := by simp
  have hdrop : (name ++ '.' :: extension).reverse.dropWhile (· != '.') = '.' :: name.reverse := by
    rw [List.reverse_append, List.reverse_cons, List.append_assoc, List.singleton_append,
      List.dropWhile_append_of_pos]
    · rfl
    · intro c hc
      simpa using ne_of_mem_of_not_mem (List.mem_reverse.mp hc) hdot
  have hfront : ('.' :: name.reverse).reverse.dropLast = name := by simp
  unfold stem
  simp only [hcontains, hdrop, hfront, if_true, List.isEmpty_iff, hname, if_false]

theorem mapLast_append_singleton (f : Segment → Segment) (parts : List Segment) (s : Segment) :
    mapLast f (parts ++ [s]) = parts ++ [f s] := by
  induction parts with
  | nil => rfl
  | cons t parts ih =>
    obtain ⟨u, rest, hrest⟩ := List.exists_cons_of_ne_nil (List.append_ne_nil_of_right_ne_nil parts
      (List.cons_ne_nil s []))
    rw [List.cons_append, hrest, mapLast, ← hrest, ih, List.cons_append]

theorem IsPlain.map_identifierChar {s : Segment} (h : IsPlain s) : s.map identifierChar = s := by
  have hkept : ∀ c ∈ s, identifierChar c = id c := by
    intro c hc
    have hplain : isAsciiAlphanumeric c = true := isAsciiAlphanumeric_iff.mpr (h c hc)
    simp [identifierChar, hplain]
  rw [List.map_congr_left hkept, List.map_id]

theorem IsPlain.noJoiner {s : Segment} (h : IsPlain s) : '_' ∉ s :=
  fun hc => absurd (h '_' hc) (by decide)

/-- The identifier of a plain header is its directories and its name, joined. -/
theorem identifier_of_plain {extension name : Segment} {dirs : List Segment} {path : String}
    (hdot : '.' ∉ extension) (hsegments : segments path.toList = dirs ++ [name ++ '.' :: extension])
    (hdirs : ∀ s ∈ dirs, IsPlain s) (hplain : IsPlain name) (hname : name ≠ []) :
    (identifier path).toList = List.intercalate ['_'] (dirs ++ [name]) := by
  have hkept : ∀ s ∈ dirs ++ [name], s.map identifierChar = id s := by
    intro s hs
    rcases List.mem_append.mp hs with hs | hs
    · exact (hdirs s hs).map_identifierChar
    · exact List.mem_singleton.mp hs ▸ hplain.map_identifierChar
  rw [identifier, String.toList_ofList, hsegments, mapLast_append_singleton,
    stem_of_extension hname hdot, List.map_congr_left hkept, List.map_id]

/-- **The segments of plain headers are read back from their identifiers.** Cutting an identifier at
its underscores gives the directories and the name. -/
theorem normalize_eq_of_identifier_eq {extension : Segment} (hdot : '.' ∉ extension)
    {p q : String} (hp : IsPlainHeader extension p) (hq : IsPlainHeader extension q)
    (h : identifier p = identifier q) : normalize p = normalize q := by
  have hsplit {dirs : List Segment} {name : Segment} (hdirs : ∀ s ∈ dirs, IsPlain s)
      (hplain : IsPlain name) :
      (List.intercalate ['_'] (dirs ++ [name])).splitOn '_' = dirs ++ [name] := by
    apply List.splitOn_intercalate
    · intro s hs
      rcases List.mem_append.mp hs with hs | hs
      · exact (hdirs s hs).noJoiner
      · exact List.mem_singleton.mp hs ▸ hplain.noJoiner
    · simp
  obtain ⟨dirs, name, hsegments, hdirs, hplain, hname⟩ := hp
  obtain ⟨dirs', name', hsegments', hdirs', hplain', hname'⟩ := hq
  have hparts : dirs ++ [name] = dirs' ++ [name'] := by
    rw [← hsplit hdirs hplain, ← hsplit hdirs' hplain',
      ← identifier_of_plain hdot hsegments hdirs hplain hname,
      ← identifier_of_plain hdot hsegments' hdirs' hplain' hname', h]
  obtain ⟨rfl, hlast⟩ := List.append_inj' hparts rfl
  obtain rfl := List.singleton_inj.mp hlast
  rw [normalize_eq_iff, hsegments, hsegments']

end Path

/-! ## What is generated for a header -/

/-- The registration functions of a header. -/
def FilePlan.functions (plan : FilePlan) : List String :=
  [reflFunctionName plan.identifier, bindingFunctionName plan.identifier]

theorem reflFunctionName_ne_bindingFunctionName (a b : String) :
    reflFunctionName a ≠ bindingFunctionName b := by
  intro h
  have hrefl : (reflFunctionName a).toList.getLast? = some 'o' := by
    rw [reflFunctionName, String.toList_append, List.getLast?_append]
    rfl
  have hbinding : (bindingFunctionName b).toList.getLast? = some 'g' := by
    rw [bindingFunctionName, String.toList_append, List.getLast?_append]
    rfl
  rw [h, hbinding] at hrefl
  exact absurd hrefl (by decide)

theorem FilePlan.functions_disjoint {a b : FilePlan} (h : a.identifier ≠ b.identifier) :
    a.functions.Disjoint b.functions := by
  have hrefl : reflFunctionName a.identifier ≠ reflFunctionName b.identifier := by
    intro heq
    rw [reflFunctionName, reflFunctionName, String.append_left_inj, String.append_right_inj] at heq
    exact h heq
  have hbinding : bindingFunctionName a.identifier ≠ bindingFunctionName b.identifier := by
    intro heq
    rw [bindingFunctionName, bindingFunctionName, String.append_left_inj,
      String.append_right_inj] at heq
    exact h heq
  simp [functions, hrefl.symm, hbinding.symm, reflFunctionName_ne_bindingFunctionName,
    (reflFunctionName_ne_bindingFunctionName _ _).symm]

/-- **Plain headers do not meet.** Those with the same extension and different normal forms have
different identifiers. So they share no registration function, and their generated files have
different names and lie in different places, whatever the output directories are. -/
theorem Path.plain_headers_apart {extension : Segment} (hdot : '.' ∉ extension) {p q : String}
    (hp : IsPlainHeader extension p) (hq : IsPlainHeader extension q) :
    (identifier p = identifier q → normalize p = normalize q) ∧
      (normalize p ≠ normalize q → ∀ (memberPrefix : String) (r s : Decl),
        (planFile memberPrefix p r).functions.Disjoint (planFile memberPrefix q s).functions ∧
        (planFile memberPrefix p r).artifactName ≠ (planFile memberPrefix q s).artifactName ∧
        ∀ (home : Location) (dir place : String),
          location home (join dir (planFile memberPrefix p r).artifactName) ≠
            location home (join place (planFile memberPrefix q s).artifactName)) := by
  have hinjective := normalize_eq_of_identifier_eq hdot hp hq
  refine ⟨hinjective, fun hne memberPrefix r s => ?_⟩
  have hidentifier :
      (planFile memberPrefix p r).identifier ≠ (planFile memberPrefix q s).identifier :=
    fun heq => hne (hinjective heq)
  have hname := Generator.artifactName_ne hidentifier
  refine ⟨FilePlan.functions_disjoint hidentifier, hname, ?_⟩
  exact location_join_ne (isOutputName_artifactName ..).toIsFileName
    (isOutputName_artifactName ..).toIsFileName hname

/-- Two headers that differ only in where a segment ends, and one output directory written in two
ways. -/
theorem Path.plain_headers_apart_cuts :
    IsPlainHeader "hpp".toList "./ab\\c//d.hpp" ∧ IsPlainHeader "hpp".toList "a/../bc/d.hpp" ∧
      (planFile "m_" "./ab\\c//d.hpp" .emptyRoot).artifactName = "ab_c_d.hpp" ∧
      (planFile "m_" "./ab\\c//d.hpp" .emptyRoot).functions.Disjoint
        (planFile "m_" "a/../bc/d.hpp" .emptyRoot).functions ∧
      location ["work"] (join "out/refl" (planFile "m_" "./ab\\c//d.hpp" .emptyRoot).artifactName) =
        ["work", "out", "refl", "ab_c_d.hpp"] ∧
      location ["work"]
          (join "/work/out/refl" (planFile "m_" "a/../bc/d.hpp" .emptyRoot).artifactName) ≠
        ["work", "out", "refl", "ab_c_d.hpp"] := by
  have hfirst : IsPlainHeader "hpp".toList "./ab\\c//d.hpp" :=
    ⟨["ab".toList, "c".toList], "d".toList, by decide, by decide, by decide, by decide⟩
  have hsecond : IsPlainHeader "hpp".toList "a/../bc/d.hpp" :=
    ⟨["a".toList, "bc".toList], "d".toList, by decide, by decide, by decide, by decide⟩
  obtain ⟨hfunctions, -, hplaces⟩ := (plain_headers_apart (by decide) hfirst hsecond).2 (by decide)
    "m_" .emptyRoot .emptyRoot
  have hplace :
      location ["work"] (join "out/refl" (planFile "m_" "./ab\\c//d.hpp" .emptyRoot).artifactName) =
        ["work", "out", "refl", "ab_c_d.hpp"] := by
    decide
  refine ⟨hfirst, hsecond, by decide, hfunctions, hplace, ?_⟩
  exact hplace ▸ (hplaces ["work"] "out/refl" "/work/out/refl").symm

end HeaderReflect
