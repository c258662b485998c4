import HeaderReflect.Proofs.Merge.Clashes
import HeaderReflect.Proofs.Visit.Documents
import HeaderReflect.Proofs.Visit.Shape

/-!
When the visit of a header fails. The enums of the growing tree are the wanted enums reached so far,
and a step fails only over two of them (`joins_visitCursors`); in a tree that was recorded no two
enums are at odds. So a visit fails exactly if two wanted enums of one scope and one name differ,
and the failure names such an enum (`visitSource_fails_iff_conflict`).
-/

namespace HeaderReflect

open Decl (factsInAll)

/-! ## Enums as they are written -/

/-- An enum cursor with the namespaces around it, outermost first. -/
structure ReachedEnum where
  scopes : List Cursor
  cursor : Cursor

mutual

/-- The enums that can be reached through a cursor: down through namespaces and transparent cursors
of the file to an enum definition of the file. Nothing is reached through a class or an enum. -/
def enumsBelow (file : String) (scopes : List Cursor) : Cursor → List ReachedEnum
  | .node i cs =>
    let c := Cursor.node i cs
    if c.isFrom file then
      if c.kind = .namespaceDecl then enumsBelowAll file (scopes ++ [c]) cs
      else if c.kind = .enumDecl && c.info.isDefinition then [⟨scopes, c⟩]
      else if c.isTransparent then enumsBelowAll file scopes cs
      else []
    else []

def enumsBelowAll (file : String) (scopes : List Cursor) : List Cursor → List ReachedEnum
  | [] => []
  | c :: rest => enumsBelow file scopes c ++ enumsBelowAll file scopes rest

end

section

variable {file : String} {scopes : List Cursor} {i : CursorInfo} {cs : List Cursor}

theorem enumsBelow_namespace (hfrom : (Cursor.node i cs).isFrom file = true)
    (hkind : i.kind = .namespaceDecl) :
    enumsBelow file scopes (.node i cs) = enumsBelowAll file (scopes ++ [.node i cs]) cs := by
  simp [enumsBelow, hfrom, Cursor.kind, Cursor.info, hkind]

theorem enumsBelow_class (hkind : i.kind = .classDecl ∨ i.kind = .structDecl) :
    enumsBelow file scopes (.node i cs) = [] := by
  rcases hkind with hkind | hkind <;>
    simp [enumsBelow, Cursor.isTransparent, Cursor.kind, Cursor.info, hkind]

theorem enumsBelow_enum (hfrom : (Cursor.node i cs).isFrom file = true)
    (hkind : i.kind = .enumDecl) :
    enumsBelow file scopes (.node i cs) =
      if i.isDefinition then [⟨scopes, .node i cs⟩] else [] := by
  simp [enumsBelow, hfrom, Cursor.isTransparent, Cursor.kind, Cursor.info, hkind]

theorem enumsBelow_transparent (hfrom : (Cursor.node i cs).isFrom file = true)
    (hns : i.kind ≠ .namespaceDecl) (hclass : i.kind ≠ .classDecl) (hstruct : i.kind ≠ .structDecl)
    (henum : i.kind ≠ .enumDecl) :
    enumsBelow file scopes (.node i cs) = enumsBelowAll file scopes cs := by
  simp [enumsBelow, hfrom, Cursor.isTransparent, Cursor.kind, Cursor.info, hns, hclass, hstruct,
    henum]

end

/-- The enums of a unit that can be reached in the given file. -/
def reachableEnums (file : String) (unit : Cursor) : List ReachedEnum :=
  enumsBelowAll file [] unit.children

namespace ReachedEnum

/-- The namespaces around the enum and the enum itself. -/
def chain (r : ReachedEnum) : List Cursor := r.scopes ++ [r.cursor]

def namespaces (r : ReachedEnum) : List String := r.scopes.map (·.spelling)

def name (r : ReachedEnum) : String := r.cursor.spelling

def items (r : ReachedEnum) : List String :=
  (r.cursor.children.filter (·.kind = .enumConstant)).map (·.spelling)

/-- The wishes and vetoes in force at the enum. -/
def attributes (r : ReachedEnum) : Attributes where
  wantsReflection := Stream.reflection.isAsked r.chain
  forceNoReflection := r.chain.any (·.hasTag Stream.reflection.veto)
  wantsScript := Stream.script.isAsked r.chain
  forceNoScript := r.chain.any (·.hasTag Stream.script.veto)

/-- Whether the enum is asked for in either stream. -/
def isWanted (r : ReachedEnum) : Bool :=
  Stream.reflection.isAsked r.chain || Stream.script.isAsked r.chain

/-- Two enums of the same namespaces and the same name that are not the same. -/
def Conflicts (r q : ReachedEnum) : Prop :=
  r.namespaces = q.namespaces ∧ r.name = q.name ∧
    (r.items ≠ q.items ∨ r.attributes ≠ q.attributes)

/-! ## Enums as they stand in the tree -/

/-- The enum as it is recorded. -/
def info (r : ReachedEnum) : EnumInfo where
  name := r.name
  attrs := r.attributes
  items := r.items

theorem wishes_chain (r : ReachedEnum) : wishes r.chain = r.attributes := by
  obtain ⟨hrefl, hnorefl⟩ := wishes_flags r.chain .reflection
  obtain ⟨hscript, hnoscript⟩ := wishes_flags r.chain .script
  unfold attributes
  rw [← hrefl, ← hnorefl, ← hscript, ← hnoscript]
  rfl

theorem enumInfo_eq (r : ReachedEnum) : r.cursor.enumInfo (wishes r.scopes) = r.info := by
  have hattrs : r.cursor.attributesIn (wishes r.scopes) = r.attributes := by
    rw [← wishes_append]
    exact r.wishes_chain
  unfold Cursor.enumInfo
  rw [hattrs]
  rfl

end ReachedEnum

/-- The keys of namespaces. -/
def scopePath (scopes : List Cursor) : ScopePath :=
  scopes.map fun c => (c.spelling, .namespaceScope)

theorem scopePath_append (scopes : List Cursor) (i : CursorInfo) (cs : List Cursor) :
    scopePath (scopes ++ [.node i cs]) = scopePath scopes ++ [(i.spelling, .namespaceScope)] := by
  simp [scopePath, Cursor.spelling, Cursor.info]

theorem scopePath_eq_iff {scopes others : List Cursor} :
    scopePath scopes = scopePath others ↔
      scopes.map (·.spelling) = others.map (·.spelling) := by
  have hpath (cs : List Cursor) :
      scopePath cs = (cs.map (·.spelling)).map fun name => (name, Kind.namespaceScope) := by
    simp [scopePath]
  have hinj : Function.Injective fun name : String => (name, Kind.namespaceScope) :=
    fun _ _ h => (Prod.mk.inj h).1
  rw [hpath, hpath]
  exact List.map_inj_right (@hinj)

/-- What the wanted ones among reached enums say in the tree. -/
def wantedFacts (rs : List ReachedEnum) : List Fact :=
  (rs.filter (·.isWanted)).map fun r => .enumeration (scopePath r.scopes) r.info

theorem wantedFacts_append (rs qs : List ReachedEnum) :
    wantedFacts (rs ++ qs) = wantedFacts rs ++ wantedFacts qs := by
  simp [wantedFacts]

theorem conflicts_iff {r q : ReachedEnum} :
    r.Conflicts q ↔
      scopePath r.scopes = scopePath q.scopes ∧ r.info.name = q.info.name ∧ r.info ≠ q.info := by
  rw [scopePath_eq_iff]
  refine and_congr_right fun _ => and_congr_right fun (hname : r.name = q.name) => ?_
  have heq : r.info = q.info ↔ r.attributes = q.attributes ∧ r.items = q.items := by
    simp [ReachedEnum.info, hname]
  simp only [ne_eq, heq, not_and_or, or_comm]

/-- A failure over wanted enums is a conflict of two of them. -/
theorem blames_wantedFacts_iff {error : MergeError} {rs : List ReachedEnum} :
    Blames error (wantedFacts rs) (wantedFacts rs) ↔
      ∃ r ∈ rs.filter (·.isWanted), ∃ q ∈ rs.filter (·.isWanted),
        r.Conflicts q ∧ error = .conflict r.name .enumeration := by
  constructor
  · rintro ⟨path, d, e, herror, hd, he, hname, hne⟩
    obtain ⟨r, hr, hrfact⟩ := List.mem_map.mp hd
    obtain ⟨q, hq, hqfact⟩ := List.mem_map.mp he
    cases hrfact
    obtain ⟨hpath, rfl⟩ := Fact.enumeration.inj hqfact
    exact ⟨r, hr, q, hq, conflicts_iff.mpr ⟨hpath.symm, hname, hne⟩, herror⟩
  · rintro ⟨r, hr, q, hq, hconflict, herror⟩
    obtain ⟨hpath, hname, hne⟩ := conflicts_iff.mp hconflict
    refine ⟨scopePath r.scopes, r.info, q.info, herror, List.mem_map_of_mem hr, ?_, hname, hne⟩
    rw [hpath]
    exact List.mem_map_of_mem hq

/-! ## Steps of the visit -/

/-- The outcome of a step among siblings: their enums and the further ones, or a failure over two
of these. -/
def Joins (scopes : ScopePath) (siblings : List Decl) (more : List Fact) :
    Except MergeError (List Decl) → Prop
  | .ok out => ∀ path e, .enumeration path e ∈ factsInAll scopes out ↔
      .enumeration path e ∈ factsInAll scopes siblings ++ more
  | .error error =>
    Blames error (factsInAll scopes siblings ++ more) (factsInAll scopes siblings ++ more)

namespace Joins

variable {scopes : ScopePath} {siblings : List Decl} {more rest : List Fact}
  {x : Except MergeError (List Decl)}

theorem nothing (scopes : ScopePath) (siblings : List Decl) :
    Joins scopes siblings [] (.ok siblings) := by
  intro path e
  rw [List.append_nil]

/-- Only the enums among the further facts matter. -/
theorem congr (h : Joins scopes siblings more x)
    (hmore : ∀ path e, .enumeration path e ∈ more ↔ .enumeration path e ∈ rest) :
    Joins scopes siblings rest x := by
  have hall (path : ScopePath) (e : EnumInfo) :
      .enumeration path e ∈ factsInAll scopes siblings ++ more ↔
        .enumeration path e ∈ factsInAll scopes siblings ++ rest := by
    simp only [List.mem_append, hmore]
  cases x with
  | ok out => exact fun path e => (h path e).trans (hall path e)
  | error error =>
    exact Blames.mono h (fun path e => (hall path e).mp) (fun path e => (hall path e).mp)

/-- One step after another. -/
theorem bind {f : List Decl → Except MergeError (List Decl)} (hx : Joins scopes siblings more x)
    (hf : ∀ next, x = .ok next → Joins scopes next rest (f next)) :
    Joins scopes siblings (more ++ rest) (x >>= f) := by
  cases x with
  | error error =>
    have hin (path : ScopePath) (e : EnumInfo)
        (h : .enumeration path e ∈ factsInAll scopes siblings ++ more) :
        .enumeration path e ∈ factsInAll scopes siblings ++ (more ++ rest) := by
      rw [← List.append_assoc]
      exact List.mem_append_left rest h
    exact Blames.mono hx hin hin
  | ok next =>
    have hall (path : ScopePath) (e : EnumInfo) :
        .enumeration path e ∈ factsInAll scopes next ++ rest ↔
          .enumeration path e ∈ factsInAll scopes siblings ++ (more ++ rest) := by
      rw [← List.append_assoc, List.mem_append, hx path e, ← List.mem_append]
    have hnext := hf next rfl
    show Joins scopes siblings (more ++ rest) (f next)
    cases hfn : f next with
    | error error =>
      rw [hfn] at hnext
      exact Blames.mono hnext (fun path e => (hall path e).mp) (fun path e => (hall path e).mp)
    | ok out =>
      rw [hfn] at hnext
      exact fun path e => (hnext path e).trans (hall path e)

end Joins

theorem joins_placeWith {siblings : List Decl} {d : Decl} (hs : Recorded siblings)
    (hd : d.Recordable) (scopes : ScopePath) :
    Joins scopes siblings (d.factsIn scopes) (Decl.placeWith Decl.merge siblings d) := by
  cases hp : Decl.placeWith Decl.merge siblings d with
  | ok out =>
    intro path e
    rw [List.mem_append]
    exact Decl.mem_factsInAll_placeWith (fun _ _ _ => Decl.joinsFacts_merge) hp scopes _
  | error error =>
    have hblames := Decl.blames_placeWith (fun s _ => Decl.failsByEnum s d) hs hd hp scopes
    exact hblames.mono (fun _ _ => List.mem_append_left _) (fun _ _ => List.mem_append_right _)

/-- Recording a class or an enum joins its enums, if it is needed. -/
theorem joins_recordIfNeeded {siblings : List Decl} {d : Decl} (hs : Recorded siblings)
    (hd : ∀ e ∈ d.parts, e.Tidy) (hchild : d.isScopeChild = true)
    (hkind : d.kind ≠ .namespaceScope) (scopes : ScopePath) :
    Joins scopes siblings (if d.needsRecording then d.factsIn scopes else [])
      (recordIfNeeded siblings d) := by
  unfold recordIfNeeded
  split
  · rename_i hneeded
    unfold record
    rw [if_neg fun hempty => hkind hempty.1]
    exact joins_placeWith hs ⟨hd, hchild, fun hns => absurd hns hkind, hneeded⟩ scopes
  · exact Joins.nothing scopes siblings

/-- Recording a namespace joins the enums that were found in it; a failure inside it is handed on. -/
theorem joins_recordNamespace {siblings : List Decl} {scopes : ScopePath} {name : String}
    {attrs : Attributes} {more : List Fact} {x : Except MergeError (List Decl)}
    (hs : Recorded siblings) (hx : Joins (scopes ++ [(name, .namespaceScope)]) [] more x)
    (hchildren : ∀ children, x = .ok children → Recorded children) :
    Joins scopes siblings more
      (x >>= fun children => record siblings (.namespaceDecl name attrs children)) := by
  cases x with
  | error error =>
    exact Blames.mono hx (fun _ _ => List.mem_append_right _) (fun _ _ => List.mem_append_right _)
  | ok children =>
    have hrecorded := hchildren children rfl
    show Joins scopes siblings more (record siblings (.namespaceDecl name attrs children))
    unfold record
    split
    · rename_i hempty
      obtain rfl : children = [] := List.isEmpty_iff.mp hempty.2
      exact (Joins.nothing scopes siblings).congr hx
    · rename_i hoccupied
      have hne : children ≠ [] := by
        rintro rfl
        exact hoccupied ⟨rfl, rfl⟩
      have hd := hrecorded.recordable_namespace hne name attrs
      refine (joins_placeWith hs hd scopes).congr fun path e => ?_
      rw [Decl.enumeration_mem_factsIn]
      simpa [factsInAll, Decl.children, Decl.key, Decl.name, Decl.kind] using hx path e

/-! ## Along the visit -/

-- No enum stands in the scope of a class, so nothing in a class can be at odds.
mutual

theorem joins_recordClass (file : String) : ∀ (c : Cursor) (scope : Attributes)
    (siblings : List Decl) (scopes : ScopePath), Recorded siblings →
      Joins scopes siblings [] (classDeclOf file scope c >>= recordIfNeeded siblings)
  | .node i cs, scope, siblings, scopes, hs => by
    have hnested := joins_visitNested file cs ((Cursor.node i cs).attributesIn scope) []
      (scopes ++ [(i.spelling, .classScope)]) Recorded.nil
    cases hv : visitNested file ((Cursor.node i cs).attributesIn scope) [] cs with
    | error error =>
      rw [hv] at hnested
      obtain ⟨path, d, e, -, hd, -⟩ := hnested
      cases hd
    | ok children =>
      rw [hv] at hnested
      obtain ⟨d, hd, hown⟩ : ∃ d, classDeclOf file scope (.node i cs) = .ok d ∧
          ∀ path e, .enumeration path e ∉ d.factsIn scopes := by
        refine ⟨_, by simp only [classDeclOf, hv]; rfl, fun path e he => ?_⟩
        rcases Decl.enumeration_mem_factsIn.mp he with ⟨hd, -⟩ | he
        · cases hd
        · cases (hnested path e).mp he
      obtain ⟨htidy, hkind⟩ := tidy_classDeclOf file (.node i cs) scope d hd
      rw [hd]
      refine (joins_recordIfNeeded hs htidy (by simp [Decl.isScopeChild, hkind])
        (by simp [hkind]) scopes).congr fun path e => ?_
      split <;> simp [hown]

theorem joins_visitNested (file : String) : ∀ (cs : List Cursor) (scope : Attributes)
    (siblings : List Decl) (scopes : ScopePath), Recorded siblings →
      Joins scopes siblings [] (visitNested file scope siblings cs)
  | [], _, siblings, scopes, _ => Joins.nothing scopes siblings
  | c :: rest, scope, siblings, scopes, hs => by
    simp only [visitNested]
    split
    · rw [← bind_assoc]
      exact (joins_recordClass file c scope siblings scopes hs).bind fun next hnext =>
        joins_visitNested file rest scope next scopes (hs.recordClass hnext)
    · exact joins_visitNested file rest scope siblings scopes hs

end

theorem joins_recordEnum {siblings : List Decl} (hs : Recorded siblings) (r : ReachedEnum) :
    Joins (scopePath r.scopes) siblings (wantedFacts [r])
      (recordIfNeeded siblings (.enumDecl (r.cursor.enumInfo (wishes r.scopes)))) := by
  rw [r.enumInfo_eq]
  have hneed : (Decl.enumDecl r.info).needsRecording = r.isWanted := rfl
  have hjoins := joins_recordIfNeeded hs (tidy_enumDecl r.info) rfl (fun hkind => by cases hkind)
    (scopePath r.scopes)
  rw [hneed] at hjoins
  cases hwanted : r.isWanted <;> simpa [wantedFacts, hwanted, Decl.factsIn] using hjoins

mutual

theorem joins_visitCursor (file : String) : ∀ (c : Cursor) (scopes : List Cursor)
    (siblings : List Decl), Recorded siblings →
      Joins (scopePath scopes) siblings (wantedFacts (enumsBelow file scopes c))
        (visitCursor file (wishes scopes) siblings c)
  | .node i cs, scopes, siblings, hs => by
    have hnone : Joins (scopePath scopes) siblings (wantedFacts []) (.ok siblings) :=
      Joins.nothing _ siblings
    have hclass : Joins (scopePath scopes) siblings (wantedFacts [])
        (if i.isDefinition then classDeclOf file (wishes scopes) (.node i cs) >>=
          recordIfNeeded siblings else .ok siblings) := by
      split
      · exact joins_recordClass file (.node i cs) (wishes scopes) siblings (scopePath scopes) hs
      · exact hnone
    by_cases hfrom : (Cursor.node i cs).isFrom file = true
    · simp only [visitCursor, hfrom, ↓reduceIte]
      split
      · rename_i hkind
        have hin := joins_visitCursors file cs (scopes ++ [.node i cs]) [] Recorded.nil
        rw [scopePath_append, wishes_append] at hin
        rw [enumsBelow_namespace hfrom hkind]
        exact joins_recordNamespace hs hin fun children hchildren =>
          recorded_visitCursors file cs _ [] children Recorded.nil hchildren
      · rename_i hkind
        rw [enumsBelow_class (.inl hkind)]
        exact hclass
      · rename_i hkind
        rw [enumsBelow_class (.inr hkind)]
        exact hclass
      · rename_i hkind
        rw [enumsBelow_enum hfrom hkind]
        split
        · exact joins_recordEnum hs ⟨scopes, .node i cs⟩
        · exact hnone
      · rename_i hns hcl hst hen
        rw [enumsBelow_transparent hfrom hns hcl hst hen]
        exact joins_visitCursors file cs scopes siblings hs
    · simpa only [visitCursor, enumsBelow, hfrom, Bool.false_eq_true, ↓reduceIte] using hnone

theorem joins_visitCursors (file : String) : ∀ (cs : List Cursor) (scopes : List Cursor)
    (siblings : List Decl), Recorded siblings →
      Joins (scopePath scopes) siblings (wantedFacts (enumsBelowAll file scopes cs))
        (visitCursors file (wishes scopes) siblings cs)
  | [], scopes, siblings, _ => Joins.nothing (scopePath scopes) siblings
  | c :: rest, scopes, siblings, hs => by
    simp only [visitCursors, enumsBelowAll, wantedFacts_append]
    exact (joins_visitCursor file c scopes siblings hs).bind fun next hnext =>
      joins_visitCursors file rest scopes next
        (recorded_visitCursor file c (wishes scopes) siblings next hs hnext)

end

/-! ## Failures of a visit -/

/-- The visit of a unit succeeds without a conflict among its wanted enums, or fails by one. -/
theorem visitUnit_cases (file : String) (unit : Cursor) :
    (∃ root, visitUnit file unit = .ok root ∧
        Unambiguous (wantedFacts (reachableEnums file unit))) ∨
      ∃ error, visitUnit file unit = .error error ∧
        Blames error (wantedFacts (reachableEnums file unit))
          (wantedFacts (reachableEnums file unit)) := by
  have hjoins := joins_visitCursors file unit.children [] [] Recorded.nil
  unfold visitUnit
  cases hv : visitCursors file Attributes.none [] unit.children with
  | error error =>
    rw [show wishes [] = Attributes.none from rfl, hv] at hjoins
    exact .inr ⟨error, rfl, hjoins⟩
  | ok out =>
    rw [show wishes [] = Attributes.none from rfl, hv] at hjoins
    have hout : Unambiguous (factsInAll (scopePath []) out) :=
      Decl.unambiguous_factsInAll out _ (recorded_visitCursors file _ _ _ _ Recorded.nil hv)
    refine .inl ⟨_, rfl, fun path d e hd he => ?_⟩
    exact hout path d e ((hjoins path d).mpr hd) ((hjoins path e).mpr he)

/-- **A visit fails exactly over conflicting enums.** If a header is parsed, its visit fails if and
only if two wanted enums can be reached in the same namespaces under the same name that differ in
their items or in their attributes. Every failure names such an enum; a visit fails in no other
way. -/
theorem visitSource_fails_iff_conflict {cursors : CursorSource} {marker path source : String}
    {unit : Cursor} (hmarker : hasMarker marker source = true) (hunit : cursors path = .ok unit) :
    let wanted := (reachableEnums path unit).filter (·.isWanted)
    ((∃ error, visitSource cursors marker path source = .error (.merge path error)) ↔
        ∃ r ∈ wanted, ∃ q ∈ wanted, r.Conflicts q) ∧
      ∀ failure, visitSource cursors marker path source = .error failure →
        ∃ r ∈ wanted, ∃ q ∈ wanted, r.Conflicts q ∧
          failure = .merge path (.conflict r.name .enumeration) := by
  intro wanted
  have hvisit : visitSource cursors marker path source =
      (visitUnit path unit).mapError (.merge path) := by
    simp only [visitSource, hmarker, hunit, ↓reduceIte]
  rw [hvisit]
  rcases visitUnit_cases path unit with ⟨root, hroot, hclear⟩ | ⟨error, herror, hblames⟩
  · rw [hroot]
    refine ⟨⟨?_, ?_⟩, ?_⟩
    · rintro ⟨error, h⟩
      cases h
    · rintro ⟨r, hr, q, hq, hconflict⟩
      have hblames := blames_wantedFacts_iff.mpr ⟨r, hr, q, hq, hconflict, rfl⟩
      exact (hblames.false_of_unambiguous hclear).elim
    · intro failure h
      cases h
  · rw [herror]
    obtain ⟨r, hr, q, hq, hconflict, rfl⟩ := blames_wantedFacts_iff.mp hblames
    refine ⟨⟨fun _ => ⟨r, hr, q, hq, hconflict⟩, fun _ => ⟨_, rfl⟩⟩, ?_⟩
    intro failure h
    cases h
    exact ⟨r, hr, q, hq, hconflict, rfl⟩

open Cursor in
/-- A header that says twice what `Mode` is in `game`, the second time below a cursor that is looked
through. The `Mode` outside of `game` is another enum. -/
def disputedUnit : Cursor :=
  let mode (items : List String) := (enumDecl "Mode" items).annotate "nickel(refl)"
  let again := (ofKind .namespaceDecl "game").append [mode ["easy"]]
  ((unit "a.hpp").append
    [(ofKind .namespaceDecl "game").append [mode ["easy", "hard"]], (ofKind .other "").append [again],
     mode ["easy", "fair"]]).located

/-- The visit of such a header fails over `Mode`, and two of the three enums are in conflict. -/
theorem visitSource_fails_iff_conflict_reopened :
    hasMarker "REFL" "enum REFL(refl)" = true ∧
      visitSource (fun _ => .ok disputedUnit) "REFL" "a.hpp" "enum REFL(refl)" =
        .error (.merge "a.hpp" (.conflict "Mode" .enumeration)) ∧
      let wanted := (reachableEnums "a.hpp" disputedUnit).filter (·.isWanted)
      wanted.map (·.namespaces) = [["game"], ["game"], []] ∧
        ∃ r ∈ wanted, ∃ q ∈ wanted, r.Conflicts q ∧ r.name = "Mode" := by
  have hmarker : hasMarker "REFL" "enum REFL(refl)" = true := by decide
  have hfails : visitSource (fun _ => .ok disputedUnit) "REFL" "a.hpp" "enum REFL(refl)" =
      .error (.merge "a.hpp" (.conflict "Mode" .enumeration)) := rfl
  refine ⟨hmarker, hfails, by decide, ?_⟩
  obtain ⟨-, hfailures⟩ := @visitSource_fails_iff_conflict (fun _ => .ok disputedUnit) "REFL" "a.hpp"
    "enum REFL(refl)" disputedUnit hmarker rfl
  obtain ⟨r, hr, q, hq, hconflict, heq⟩ := hfailures _ hfails
  obtain ⟨hname, -⟩ := MergeError.conflict.inj (VisitError.merge.inj heq).2
  exact ⟨r, hr, q, hq, hconflict, hname.symm⟩

end HeaderReflect
