import HeaderReflect.Proofs.Merge.Idempotence
import HeaderReflect.Proofs.Merge.Recording
import HeaderReflect.Proofs.Visit.Pruning
import HeaderReflect.Proofs.Visit.Shape

/-!
Opening a namespace again. What cursors add to a scope can be visited in an empty scope first and
placed in the scope afterwards (`visitCursors_eq_place`), so two namespaces of one name, visited one
after the other, come to one namespace that holds what both hold (`record_twice`). Wherever a
namespace stands among the cursors of a header, writing it as two changes neither whether the visit
succeeds nor the tree (`visitSource_reopening`).
-/

namespace HeaderReflect

open Decl

namespace Cursor

/-! ## A namespace written as two -/

/-- What a cursor holds besides its annotations. -/
def declarations (c : Cursor) : List Cursor := c.children.filter (·.kind ≠ .annotationAttr)

/-- Nothing stands below the annotations of the cursor. -/
def LeafAnnotations (c : Cursor) : Prop :=
  ∀ a ∈ c.children, a.kind = .annotationAttr → a.children = []

/-- A namespace cursor with the name, the place and the annotation of another one. -/
structure Resembles (c n : Cursor) : Prop where
  kind : c.kind = .namespaceDecl
  spelling : c.spelling = n.spelling
  file : c.info.file = n.info.file
  inSystemHeader : c.info.inSystemHeader = n.info.inSystemHeader
  annotation : c.annotationText? = n.annotationText?
  leaves : c.LeafAnnotations

/-- Two namespaces that share what one holds, in its order. -/
structure SplitsInto (n first second : Cursor) : Prop where
  whole : n.Resembles n
  opens : first.Resembles n
  reopens : second.Resembles n
  shares : n.declarations = first.declarations ++ second.declarations

/-- Cursors among which, at some depth, one namespace was written as two. -/
inductive Reopening : List Cursor → List Cursor → Prop
  | here {n first second : Cursor} (h : n.SplitsInto first second) (rest : List Cursor) :
      Reopening (n :: rest) (first :: second :: rest)
  | inside (i : CursorInfo) {cs ds : List Cursor} (h : Reopening cs ds) (rest : List Cursor) :
      Reopening (.node i cs :: rest) (.node i ds :: rest)
  | later (c : Cursor) {cs ds : List Cursor} (h : Reopening cs ds) :
      Reopening (c :: cs) (c :: ds)

namespace Resembles

variable {c n : Cursor}

theorem isFrom (h : c.Resembles n) (file : String) : c.isFrom file = n.isFrom file := by
  simp only [Cursor.isFrom, h.file, h.inSystemHeader]

theorem attributesIn (h : c.Resembles n) (scope : Attributes) :
    c.attributesIn scope = n.attributesIn scope := by
  simp only [Cursor.attributesIn, ownAttributes, h.annotation]

theorem not_isClassDefinition (h : c.Resembles n) : c.isClassDefinition = false := by
  simp [isClassDefinition, h.kind]

theorem addMember (h : c.Resembles n) (scope : Attributes) (m : Members) :
    Cursor.addMember scope m c = m :=
  addMember_of_not_isMember scope m (by simp [isMember, h.kind])

end Resembles

/-! ## What does not see the difference -/

section Declared

variable {c d : Cursor}

theorem attributesIn_eq_of_infos (scope : Attributes)
    (h : infos .annotationAttr c.children = infos .annotationAttr d.children) :
    c.attributesIn scope = d.attributesIn scope := by
  simp only [attributesIn, ownAttributes, annotationText?_eq, h]

theorem enumInfo_eq_of_infos (scope : Attributes) (hinfo : c.info = d.info)
    (h : ∀ kind, kind ≠ .namespaceDecl → infos kind c.children = infos kind d.children) :
    c.enumInfo scope = d.enumInfo scope := by
  have hitems : (c.enumInfo scope).items = (d.enumInfo scope).items := by
    rw [items_enumInfo, items_enumInfo, h .enumConstant (by simp)]
  simp only [enumInfo] at hitems ⊢
  rw [hitems, attributesIn_eq_of_infos scope (h .annotationAttr (by simp)), spelling, hinfo,
    spelling]

/-- A member is declared alike by cursors that differ in namespaces below them only. -/
theorem addMember_eq_of_infos (scope : Attributes) (m : Members) (hinfo : c.info = d.info)
    (h : ∀ kind, kind ≠ .namespaceDecl → infos kind c.children = infos kind d.children) :
    addMember scope m c = addMember scope m d := by
  have hparams : c.parameterTypes = d.parameterTypes := by
    rw [parameterTypes_eq, parameterTypes_eq, h .parameter (by simp)]
  simp only [addMember, Cursor.kind, hinfo, enumInfo_eq_of_infos scope hinfo h, ctorInfo, fieldInfo,
    methodInfo, spelling, attributesIn_eq_of_infos scope (h .annotationAttr (by simp)), hparams]

end Declared

namespace Reopening

variable {cs ds : List Cursor}

theorem infos (h : Reopening cs ds) (kind : CursorKind) (hkind : kind ≠ .namespaceDecl) :
    Cursor.infos kind cs = Cursor.infos kind ds := by
  induction h with
  | here h rest =>
    simp [Cursor.infos, h.whole.kind, h.opens.kind, h.reopens.kind, hkind.symm]
  | inside i h rest =>
    by_cases hi : i.kind = kind <;> simp [Cursor.infos, Cursor.kind, Cursor.info, hi]
  | later c h ih =>
    unfold Cursor.infos at ih ⊢
    by_cases hc : c.kind = kind <;> simp [hc, ih]

theorem foldl_addMember (h : Reopening cs ds) (scope : Attributes) (m : Members) :
    cs.foldl (addMember scope) m = ds.foldl (addMember scope) m := by
  induction h generalizing m with
  | here h rest =>
    simp only [List.foldl_cons, h.whole.addMember, h.opens.addMember, h.reopens.addMember]
  | @inside i cs ds h rest =>
    have hsame := addMember_eq_of_infos (c := .node i cs) (d := .node i ds) scope m rfl h.infos
    rw [List.foldl_cons, List.foldl_cons, hsame]
  | later c h ih => exact ih _

theorem classDeclOf (h : Reopening cs ds) {file : String}
    (hnested : ∀ scope, visitNested file scope [] cs = visitNested file scope [] ds)
    (scope : Attributes) (i : CursorInfo) :
    HeaderReflect.classDeclOf file scope (.node i cs) =
      HeaderReflect.classDeclOf file scope (.node i ds) := by
  have hattrs := attributesIn_eq_of_infos (c := .node i cs) (d := .node i ds) scope
    (h.infos .annotationAttr (by simp))
  simp only [HeaderReflect.classDeclOf, hattrs, membersOf, h.foldl_addMember, hnested]

/-- A class takes no namespaces in, so it does not matter how those below it are written. -/
theorem visitNested (h : Reopening cs ds) (file : String) (scope : Attributes)
    (siblings : List Decl) :
    HeaderReflect.visitNested file scope siblings cs =
      HeaderReflect.visitNested file scope siblings ds := by
  induction h generalizing scope siblings with
  | here h rest =>
    simp [HeaderReflect.visitNested, h.whole.not_isClassDefinition, h.opens.not_isClassDefinition,
      h.reopens.not_isClassDefinition]
  | inside i h rest ih =>
    have hclass := h.classDeclOf (fun scope => ih scope []) scope i
    simp only [HeaderReflect.visitNested, hclass]
    rfl
  | later c h ih => simp only [HeaderReflect.visitNested, ih]

end Reopening

end Cursor

/-! ## Visiting apart -/

/-- What is recorded in a scope can be recorded in an empty one and placed from there. -/
theorem record_eq_place (siblings : List Decl) (d : Decl) :
    record siblings d = record [] d >>= fun placed => placeAllWith merge siblings placed := by
  cases hempty : d.isChildlessNamespace with
  | true =>
    rw [record_of_childless hempty, record_of_childless hempty]
    rfl
  | false =>
    rw [record_of_not_childless hempty, record_of_not_childless hempty]
    cases hchild : d.isScopeChild with
    | false =>
      rw [placeWith_of_not_scopeChild _ _ hchild, placeWith_of_not_scopeChild _ _ hchild]
      rfl
    | true =>
      rw [placeWith_nil _ hchild]
      exact (placeAllWith_singleton merge siblings d).symm

theorem recordIfNeeded_eq_place (siblings : List Decl) (d : Decl) :
    recordIfNeeded siblings d =
      recordIfNeeded [] d >>= fun placed => placeAllWith merge siblings placed := by
  unfold recordIfNeeded
  split
  · exact record_eq_place siblings d
  · rfl

/-- What is recorded last is the only part of a visit that looks at the siblings. -/
theorem bind_eq_place {α : Type} {siblings : List Decl}
    {here apart : α → Except MergeError (List Decl)}
    (h : ∀ a, here a = apart a >>= fun placed => placeAllWith merge siblings placed)
    (x : Except MergeError α) :
    (x >>= here).toOption = (x >>= apart).toOption.bind fun placed =>
      (placeAllWith merge siblings placed).toOption := by
  simp only [toOption_bind, Option.bind_assoc, h]

theorem visitCursors_cons (file : String) (scope : Attributes) (siblings : List Decl) (c : Cursor)
    (cs : List Cursor) :
    visitCursors file scope siblings (c :: cs) =
      visitCursor file scope siblings c >>= fun next => visitCursors file scope next cs := rfl

theorem visitCursors_append (file : String) (scope : Attributes) (siblings : List Decl)
    (cs ds : List Cursor) :
    visitCursors file scope siblings (cs ++ ds) =
      visitCursors file scope siblings cs >>= fun next => visitCursors file scope next ds := by
  induction cs generalizing siblings with
  | nil => rfl
  | cons c cs ih =>
    simp only [List.cons_append, visitCursors_cons]
    cases visitCursor file scope siblings c with
    | error e => rfl
    | ok next => exact ih next

mutual

theorem visitCursor_eq_place (file : String) : ∀ (c : Cursor) (scope : Attributes)
    (siblings : List Decl), (visitCursor file scope siblings c).toOption =
      (visitCursor file scope [] c).toOption.bind fun placed =>
        (placeAllWith merge siblings placed).toOption
  | .node i cs, scope, siblings => by
    simp only [visitCursor]
    split
    · split
      · exact bind_eq_place (fun _ => record_eq_place ..) _
      · split
        · exact bind_eq_place (recordIfNeeded_eq_place siblings) _
        · rfl
      · split
        · exact bind_eq_place (recordIfNeeded_eq_place siblings) _
        · rfl
      · split
        · rw [recordIfNeeded_eq_place siblings, toOption_bind]
        · rfl
      · exact visitCursors_eq_place file cs scope siblings
    · rfl

/-- **Cursors can be visited apart.** What they add to a scope is what they leave in an empty one,
placed in the scope. -/
theorem visitCursors_eq_place (file : String) : ∀ (cs : List Cursor) (scope : Attributes)
    (siblings : List Decl), (visitCursors file scope siblings cs).toOption =
      (visitCursors file scope [] cs).toOption.bind fun placed =>
        (placeAllWith merge siblings placed).toOption
  | [], _, _ => rfl
  | c :: rest, scope, siblings => by
    have hone := visitCursor_eq_place file c scope siblings
    have hrest := visitCursors_eq_place file rest scope
    calc (visitCursors file scope siblings (c :: rest)).toOption
        = ((visitCursor file scope [] c).toOption.bind fun placed =>
            (placeAllWith merge siblings placed).toOption).bind fun next =>
              (visitCursors file scope [] rest).toOption.bind fun more =>
                (placeAllWith merge next more).toOption := by
          rw [visitCursors_cons, toOption_bind, hone]
          exact Option.bind_congr fun next _ => hrest next
      _ = (visitCursor file scope [] c).toOption.bind fun placed =>
            (visitCursors file scope [] rest).toOption.bind fun more =>
              (placeAllWith merge siblings placed).toOption.bind fun next =>
                (placeAllWith merge next more).toOption := by
          rw [Option.bind_assoc]
          exact Option.bind_congr fun placed _ => Option.bind_comm _ _
      _ = (visitCursor file scope [] c).toOption.bind fun placed =>
            (visitCursors file scope [] rest).toOption.bind fun more =>
              (placeAllWith merge placed more).toOption.bind fun all =>
                (placeAllWith merge siblings all).toOption := by
          refine Option.bind_congr fun placed hplaced => Option.bind_congr fun more _ => ?_
          have hrecorded := recorded_visitCursor file c scope [] placed Recorded.nil
            (toOption_eq_some_iff.mp hplaced)
          exact placeAllWith_regroup keepsKey_merge associative_merge siblings placed more
            hrecorded.distinct
      _ = (visitCursors file scope [] (c :: rest)).toOption.bind fun all =>
            (placeAllWith merge siblings all).toOption := by
          rw [visitCursors_cons, toOption_bind, Option.bind_assoc]
          refine Option.bind_congr fun placed _ => ?_
          rw [hrest placed, Option.bind_assoc]

end

/-! ## Two namespaces of one name -/

theorem Recorded.coalesceWith_eq {unite : Unite} {ds : List Decl} (h : Recorded ds) :
    coalesceWith unite ds = .ok ds :=
  coalesceWith_of_nodup h.distinct fun d hd => (h.recordable d hd).scopeChild

theorem not_isChildlessNamespace {name : String} {attrs : Attributes} {ds : List Decl}
    (h : ds ≠ []) : (Decl.namespaceDecl name attrs ds).isChildlessNamespace = false := by
  simpa [isChildlessNamespace, kind, isEmpty, children] using h

/-- Recording a namespace and then one of the same name comes to recording one that holds what both
hold. -/
theorem record_twice (siblings : List Decl) (name : String) (attrs : Attributes)
    {first second : List Decl} (hfirst : Recorded first) (hsecond : Recorded second) :
    ((record siblings (.namespaceDecl name attrs first)).toOption.bind fun next =>
        (record next (.namespaceDecl name attrs second)).toOption) =
      (placeAllWith merge first second).toOption.bind fun all =>
        (record siblings (.namespaceDecl name attrs all)).toOption := by
  have hgroup : coalesceWith merge (first ++ second) = placeAllWith merge first second := by
    rw [coalesceWith, placeAllWith_append, ← coalesceWith, hfirst.coalesceWith_eq]
    rfl
  by_cases hnone : first = []
  · subst hnone
    have hall : placeAllWith merge [] second = .ok second := hsecond.coalesceWith_eq
    rw [record_of_childless rfl, hall]
    rfl
  by_cases hmore : second = []
  · subst hmore
    have hsame (next : List Decl) : record next (.namespaceDecl name attrs []) = .ok next :=
      record_of_childless rfl next
    simp [placeAllWith, hsame]
  calc ((record siblings (.namespaceDecl name attrs first)).toOption.bind fun next =>
          (record next (.namespaceDecl name attrs second)).toOption)
      = (merge (.namespaceDecl name attrs first)
          (.namespaceDecl name attrs second)).toOption.bind fun r =>
            (placeWith merge siblings r).toOption := by
        simp only [record_of_not_childless (not_isChildlessNamespace hnone),
          record_of_not_childless (not_isChildlessNamespace hmore)]
        exact placeWith_unite keepsKey_merge associative_merge siblings rfl
    _ = (placeAllWith merge first second).toOption.bind fun all =>
          (placeWith merge siblings (.namespaceDecl name attrs all)).toOption := by
        rw [merge_namespaceDecl, coalesce_eq, hgroup, toOption_map, Option.bind_map]
        rfl
    _ = (placeAllWith merge first second).toOption.bind fun all =>
          (record siblings (.namespaceDecl name attrs all)).toOption := by
        refine Option.bind_congr fun all hall => ?_
        have hne : all ≠ [] := ne_nil_of_coalesceWith keepsKey_merge
          (hgroup.trans (toOption_eq_some_iff.mp hall)) hnone
        rw [record_of_not_childless (not_isChildlessNamespace hne)]

/-! ## Along the visit -/

namespace Cursor

theorem visitCursors_declarations {c : Cursor} (h : c.LeafAnnotations) (file : String)
    (scope : Attributes) (siblings : List Decl) :
    visitCursors file scope siblings c.children =
      visitCursors file scope siblings c.declarations := by
  have hleaf (a : Cursor) (hkind : a.kind = .annotationAttr) (hchildren : a.children = [])
      (s : List Decl) : visitCursor file scope s a = .ok s := by
    obtain ⟨i, cs⟩ := a
    obtain rfl : cs = [] := hchildren
    have hi : i.kind = .annotationAttr := hkind
    simp [visitCursor, hi, visitCursors]
  unfold declarations
  unfold LeafAnnotations at h
  generalize c.children = cs at h ⊢
  induction cs generalizing siblings with
  | nil => rfl
  | cons a cs ih =>
    obtain ⟨ha, hrest⟩ := List.forall_mem_cons.mp h
    by_cases hkind : a.kind = .annotationAttr
    · rw [List.filter_cons_of_neg (by simpa using hkind), visitCursors_cons,
        hleaf a hkind (ha hkind)]
      exact ih siblings hrest
    · rw [List.filter_cons_of_pos (by simpa using hkind), visitCursors_cons, visitCursors_cons]
      cases visitCursor file scope siblings a with
      | error e => rfl
      | ok next => exact ih next hrest

/-- The visit of a namespace of the file. -/
theorem Resembles.visitCursor {c n : Cursor} (h : c.Resembles n) {file : String}
    (hfrom : n.isFrom file = true) (scope : Attributes) (siblings : List Decl) :
    HeaderReflect.visitCursor file scope siblings c =
      visitCursors file (n.attributesIn scope) [] c.declarations >>= fun children =>
        record siblings (.namespaceDecl n.spelling (n.attributesIn scope) children) := by
  rw [← visitCursors_declarations h.leaves, ← h.attributesIn, ← h.spelling]
  rw [← h.isFrom] at hfrom
  obtain ⟨i, cs⟩ := c
  have hkind : i.kind = .namespaceDecl := h.kind
  simp only [HeaderReflect.visitCursor, hfrom, ↓reduceIte, hkind]
  rfl

/-- A namespace and the two it is written as leave the same. -/
theorem SplitsInto.visitCursor {n first second : Cursor} (h : n.SplitsInto first second)
    (file : String) (scope : Attributes) (siblings : List Decl) :
    (HeaderReflect.visitCursor file scope siblings n).toOption =
      (HeaderReflect.visitCursor file scope siblings first).toOption.bind fun next =>
        (HeaderReflect.visitCursor file scope next second).toOption := by
  cases hfrom : n.isFrom file with
  | false =>
    have hskip (c : Cursor) (hc : c.Resembles n) (s : List Decl) :
        HeaderReflect.visitCursor file scope s c = .ok s := by
      rw [← hc.isFrom] at hfrom
      obtain ⟨i, cs⟩ := c
      simp [HeaderReflect.visitCursor, hfrom]
    rw [hskip n h.whole, hskip first h.opens]
    exact (congrArg Except.toOption (hskip second h.reopens siblings)).symm
  | true =>
    let inside := visitCursors file (n.attributesIn scope)
    let opened (s children : List Decl) :=
      record s (.namespaceDecl n.spelling (n.attributesIn scope) children)
    calc (HeaderReflect.visitCursor file scope siblings n).toOption
        = (inside [] first.declarations).toOption.bind fun one =>
            (inside [] second.declarations).toOption.bind fun two =>
              (placeAllWith merge one two).toOption.bind fun all =>
                (opened siblings all).toOption := by
          rw [h.whole.visitCursor hfrom, h.shares, visitCursors_append, toOption_bind,
            toOption_bind, Option.bind_assoc]
          refine Option.bind_congr fun one _ => ?_
          rw [visitCursors_eq_place file second.declarations, Option.bind_assoc]
      _ = (inside [] first.declarations).toOption.bind fun one =>
            (inside [] second.declarations).toOption.bind fun two =>
              (opened siblings one).toOption.bind fun next => (opened next two).toOption := by
          refine Option.bind_congr fun one hone => Option.bind_congr fun two htwo => ?_
          refine (record_twice siblings n.spelling (n.attributesIn scope) ?_ ?_).symm
          · exact recorded_visitCursors file _ _ [] one Recorded.nil (toOption_eq_some_iff.mp hone)
          · exact recorded_visitCursors file _ _ [] two Recorded.nil (toOption_eq_some_iff.mp htwo)
      _ = (HeaderReflect.visitCursor file scope siblings first).toOption.bind fun next =>
            (HeaderReflect.visitCursor file scope next second).toOption := by
          simp only [h.opens.visitCursor hfrom, h.reopens.visitCursor hfrom, toOption_bind,
            Option.bind_assoc, inside, opened]
          exact Option.bind_congr fun one _ => Option.bind_comm _ _

end Cursor

open Cursor

theorem Cursor.Reopening.visitCursors {cs ds : List Cursor} (h : Reopening cs ds) (file : String)
    (scope : Attributes) (siblings : List Decl) :
    (HeaderReflect.visitCursors file scope siblings cs).toOption =
      (HeaderReflect.visitCursors file scope siblings ds).toOption := by
  induction h generalizing scope siblings with
  | here h rest =>
    simp only [visitCursors_cons, toOption_bind, h.visitCursor, Option.bind_assoc]
  | @inside i cs ds h rest ih =>
    have hinfos := h.infos
    have hattrs := attributesIn_eq_of_infos (c := .node i cs) (d := .node i ds) scope
      (hinfos .annotationAttr (by simp))
    have henum := enumInfo_eq_of_infos (c := .node i cs) (d := .node i ds) scope rfl hinfos
    have hclass := h.classDeclOf (fun scope => h.visitNested file scope []) scope i
    have hfrom : (Cursor.node i cs).isFrom file = (Cursor.node i ds).isFrom file := rfl
    have hone : (visitCursor file scope siblings (.node i cs)).toOption =
        (visitCursor file scope siblings (.node i ds)).toOption := by
      simp only [visitCursor, hfrom, hattrs, henum, hclass]
      split
      · split
        · rw [toOption_bind, toOption_bind, ih]
        · rfl
        · rfl
        · rfl
        · exact ih scope siblings
      · rfl
    rw [visitCursors_cons, visitCursors_cons, toOption_bind, toOption_bind, hone]
  | later c h ih =>
    rw [visitCursors_cons, visitCursors_cons, toOption_bind, toOption_bind]
    exact Option.bind_congr fun next _ => ih scope next

/-- The tree of a header, given its unit. -/
theorem toOption_visitSource {cursors : CursorSource} {path : String} {unit : Cursor}
    (h : cursors path = .ok unit) (marker source : String) :
    (visitSource cursors marker path source).toOption =
      if hasMarker marker source then
        (visitCursors path Attributes.none [] unit.children).toOption.map
          (.namespaceDecl "" Attributes.none ·)
      else some emptyRoot := by
  unfold visitSource
  split
  · rw [h]
    change ((visitUnit path unit).mapError _).toOption = _
    rw [visitUnit]
    cases visitCursors path Attributes.none [] unit.children <;> rfl
  · rfl

/-- **A namespace may be opened again.** Wherever among the cursors of a header a namespace stands,
writing it as two that follow each other, with its name, place and annotation, and that share what
it holds in its order, changes neither whether the visit succeeds nor the tree. -/
theorem visitSource_reopening {cursors other : CursorSource} {path : String} {i : CursorInfo}
    {cs ds : List Cursor} (hcursors : cursors path = .ok (.node i cs))
    (hother : other path = .ok (.node i ds)) (h : Reopening cs ds) (marker source : String)
    (root : Decl) :
    visitSource cursors marker path source = .ok root ↔
      visitSource other marker path source = .ok root := by
  have hvisit := h.visitCursors path Attributes.none []
  rw [← toOption_eq_some_iff, ← toOption_eq_some_iff, toOption_visitSource hcursors,
    toOption_visitSource hother, Cursor.children, Cursor.children, hvisit]

namespace Cursor.Sample

/-- A header in which the given cursors stand below one that is looked through. -/
def linkedUnit (games : List Cursor) : Cursor :=
  ((unit "a.hpp").append [ofKind .structDecl "Plain", (ofKind .other "").append games]).located

def game (held : List Cursor) : Cursor :=
  ((ofKind .namespaceDecl "game").annotate "nickel(refl)").append held

/-- A nested namespace with one class in it. -/
def ui (name : String) : Cursor :=
  (ofKind .namespaceDecl "ui").append [(ofKind .classDecl name).append [field "m_size" "int"]]

def mode : Cursor := enumDecl "Mode" ["easy", "hard"]

end Cursor.Sample

open Cursor.Sample in
/-- The namespace `game` holds an enum and a namespace, and both once more. Written as two, of which
the second starts with what comes once more, it leaves the same tree. -/
theorem visitSource_reopening_game :
    let once := linkedUnit [game [mode, ui "Panel", mode, ui "Button"]]
    let twice := linkedUnit [game [mode, ui "Panel"], game [mode, ui "Button"]]
    Reopening once.children twice.children ∧
      ∃ root, visitSource (fun _ => .ok once) "REFL" "a.hpp" "REFL(refl)" = .ok root ∧
        visitSource (fun _ => .ok twice) "REFL" "a.hpp" "REFL(refl)" = .ok root ∧
        root.parts.map (·.name) = ["", "game", "Mode", "ui", "Panel", "Button"] := by
  intro once twice
  have hreopening : Reopening once.children twice.children := by
    refine .later _ (.inside _ (.here ⟨?_, ?_, ?_, rfl⟩ []) [])
    · exact ⟨rfl, rfl, rfl, rfl, rfl, by unfold LeafAnnotations; decide⟩
    · exact ⟨rfl, rfl, rfl, rfl, rfl, by unfold LeafAnnotations; decide⟩
    · exact ⟨rfl, rfl, rfl, rfl, rfl, by unfold LeafAnnotations; decide⟩
  obtain ⟨root, hroot, hnames⟩ : ∃ root,
      visitSource (fun _ => .ok once) "REFL" "a.hpp" "REFL(refl)" = .ok root ∧
        root.parts.map (·.name) = ["", "game", "Mode", "ui", "Panel", "Button"] := ⟨_, rfl, rfl⟩
  have htwice : visitSource (fun _ => .ok twice) "REFL" "a.hpp" "REFL(refl)" = .ok root :=
    (visitSource_reopening rfl rfl hreopening "REFL" "REFL(refl)" root).mp hroot
  exact ⟨hreopening, root, hroot, htwice, hnames⟩

end HeaderReflect
