import HeaderReflect.Proofs.Merge.View

/-!
Visiting a tree of cursors from which some were taken away. Where all that goes is foreign to the
file, or a member that a view hides, or a nested class that would not be recorded, the visit shows
the same tree through that view, or stops at the same failure (`Shows.visitUnit`).
-/

namespace HeaderReflect

def CursorKind.isClass (kind : CursorKind) : Bool := kind = .classDecl || kind = .structDecl

namespace Cursor

/-! ## Taking cursors away -/

/-- Whether a child stays, given the wishes inside the cursor above it and the kind of that one. -/
abbrev Keep := Attributes → CursorKind → Cursor → Bool

/-- The wishes inside a cursor. Scopes add their own, other cursors pass on what they were given. -/
def inside (scope : Attributes) (c : Cursor) : Attributes :=
  if c.kind = .namespaceDecl || c.kind.isClass then c.attributesIn scope else scope

mutual

/-- The tree without the cursors that do not stay, each with all that is below it. -/
def prune (keep : Keep) (scope : Attributes) : Cursor → Cursor
  | .node i cs => .node i (pruneAll keep ((Cursor.node i cs).inside scope) i.kind cs)

def pruneAll (keep : Keep) (scope : Attributes) (above : CursorKind) : List Cursor → List Cursor
  | [] => []
  | c :: rest =>
    if keep scope above c then c.prune keep scope :: pruneAll keep scope above rest
    else pruneAll keep scope above rest

end

/-- A pruned unit. The unit itself stays and counts as one, whatever kind it is of. -/
def pruneUnit (keep : Keep) (unit : Cursor) : Cursor :=
  .node unit.info (pruneAll keep Attributes.none .unit unit.children)

@[simp] theorem info_prune (keep : Keep) (scope : Attributes) (c : Cursor) :
    (c.prune keep scope).info = c.info := by
  cases c
  rfl

@[simp] theorem kind_prune (keep : Keep) (scope : Attributes) (c : Cursor) :
    (c.prune keep scope).kind = c.kind := by
  simp [kind]

@[simp] theorem isFrom_prune (file : String) (keep : Keep) (scope : Attributes) (c : Cursor) :
    (c.prune keep scope).isFrom file = c.isFrom file := by
  simp [isFrom]

@[simp] theorem isClassDefinition_prune (keep : Keep) (scope : Attributes) (c : Cursor) :
    (c.prune keep scope).isClassDefinition = c.isClassDefinition := by
  simp [isClassDefinition]

theorem isClass_of_isClassDefinition {c : Cursor} (h : c.isClassDefinition = true) :
    c.kind.isClass = true :=
  (Bool.and_eq_true_iff.mp h).1

/-! ## What a declaration says -/

/-- What the cursors of a kind say about themselves. -/
def infos (kind : CursorKind) (cs : List Cursor) : List CursorInfo :=
  (cs.filter (·.kind = kind)).map info

theorem annotationText?_eq (c : Cursor) :
    c.annotationText? = (infos .annotationAttr c.children).getLast?.map (·.spelling) := by
  rw [annotationText?, infos, List.getLast?_map, List.getLast?_eq_head?_reverse,
    ← List.filter_reverse, List.head?_filter, Option.map_map]
  rfl

theorem parameterTypes_eq (c : Cursor) :
    c.parameterTypes = (infos .parameter c.children).map (·.type) := by
  simp [parameterTypes, infos]

theorem items_enumInfo (scope : Attributes) (c : Cursor) :
    (c.enumInfo scope).items = (infos .enumConstant c.children).map (·.spelling) := by
  simp [enumInfo, infos, spelling]

/-- Whether the cursor, as a child of a class, declares a member of it. -/
def isMember (c : Cursor) : Bool :=
  match c.kind with
  | .constructor | .fieldDecl | .method => c.info.access.isSome
  | .enumDecl => c.info.access.isSome && c.info.isDefinition
  | _ => false

theorem addMember_of_not_isMember (scope : Attributes) (m : Members) {c : Cursor}
    (h : c.isMember = false) : addMember scope m c = m := by
  unfold isMember at h
  unfold addMember
  cases hk : c.kind <;> cases ha : c.info.access <;> simp_all

/-- The parts of a declaration that are cursors of their own. -/
def isPart (c : Cursor) : Bool :=
  c.kind = .annotationAttr || c.kind = .parameter || c.kind = .enumConstant

def KeepsParts (keep : Keep) : Prop :=
  ∀ scope above c, c.isPart = true → keep scope above c = true

theorem infos_pruneAll {keep : Keep} {kind : CursorKind} (scope : Attributes) (above : CursorKind)
    (hkeep : ∀ c : Cursor, c.kind = kind → keep scope above c = true) (cs : List Cursor) :
    infos kind (pruneAll keep scope above cs) = infos kind cs := by
  induction cs with
  | nil => rfl
  | cons c cs ih =>
    unfold infos at ih ⊢
    by_cases hc : c.kind = kind
    · simp [pruneAll, hkeep c hc, hc, ih]
    · cases hk : keep scope above c <;> simp [pruneAll, hk, hc, ih]

section Parts

variable {keep : Keep} (hparts : KeepsParts keep)

include hparts

theorem infos_children_prune {kind : CursorKind} (scope : Attributes) (c : Cursor)
    (hkind : kind = .annotationAttr ∨ kind = .parameter ∨ kind = .enumConstant) :
    infos kind (c.prune keep scope).children = infos kind c.children := by
  obtain ⟨i, cs⟩ := c
  refine infos_pruneAll _ _ (fun c hc => hparts _ _ c ?_) cs
  simpa [isPart, hc, or_assoc] using hkind

theorem attributesIn_prune (scope handed : Attributes) (c : Cursor) :
    (c.prune keep handed).attributesIn scope = c.attributesIn scope := by
  rw [attributesIn, ownAttributes, annotationText?_eq,
    infos_children_prune hparts handed c (by simp), ← annotationText?_eq]
  rfl

theorem parameterTypes_prune (handed : Attributes) (c : Cursor) :
    (c.prune keep handed).parameterTypes = c.parameterTypes := by
  rw [parameterTypes_eq, infos_children_prune hparts handed c (by simp), ← parameterTypes_eq]

theorem enumInfo_prune (scope handed : Attributes) (c : Cursor) :
    (c.prune keep handed).enumInfo scope = c.enumInfo scope := by
  have hitems : ((c.prune keep handed).enumInfo scope).items = (c.enumInfo scope).items := by
    rw [items_enumInfo, infos_children_prune hparts handed c (by simp), ← items_enumInfo]
  simp only [enumInfo] at hitems ⊢
  rw [hitems, attributesIn_prune hparts, spelling, info_prune, spelling]

/-- A cursor declares the same member after pruning. -/
theorem addMember_prune (scope handed : Attributes) (m : Members) (c : Cursor) :
    addMember scope m (c.prune keep handed) = addMember scope m c := by
  simp only [addMember, kind_prune, info_prune, enumInfo_prune hparts, ctorInfo, fieldInfo,
    methodInfo, spelling, attributesIn_prune hparts, parameterTypes_prune hparts]

end Parts

end Cursor

/-! ## Visiting what is left -/

open Cursor Decl

/-- A nested class that nothing needs is passed over, whether it is visited or not. -/
theorem visitNested_cons_of_unneeded {file : String} {scope : Attributes} {c : Cursor} {d : Decl}
    (hd : classDeclOf file scope c = .ok d) (hneed : d.needsRecording = false)
    (siblings : List Decl) (rest : List Cursor) :
    visitNested file scope siblings (c :: rest) = visitNested file scope siblings rest := by
  have hsame : recordIfNeeded siblings d = .ok siblings := by simp [recordIfNeeded, hneed]
  rw [visitNested]
  split
  · rw [hd]
    change (recordIfNeeded siblings d >>= _) = _
    rw [hsame]
    rfl
  · rfl

/-- Pruning takes away nothing that the file shows through the view. -/
structure Shows (file : String) (keep : Keep) (view : Members → Members) : Prop where
  isView : MemberView view
  parts : KeepsParts keep
  /-- Outside of classes, all that the file declares stays. -/
  declared : ∀ scope above c, above.isClass = false → c.isFrom file = true →
    keep scope above c = true
  /-- What stays in a class is declared there as it is seen. -/
  kept : ∀ scope above m c, above.isClass = true → keep scope above c = true →
    view (addMember scope m c) = addMember scope (view m) c
  /-- What goes from a class is no member that is seen. -/
  gone : ∀ scope above m c, above.isClass = true → keep scope above c = false →
    view (addMember scope m c) = view m
  /-- Nor is it a nested class that would be recorded. -/
  unneeded : ∀ scope above c, above.isClass = true → keep scope above c = false →
    c.isClassDefinition = true → c.isFrom file = true →
      ∃ d, classDeclOf file scope c = .ok d ∧ d.needsRecording = false

namespace Shows

variable {file : String} {keep : Keep} {view : Members → Members}

theorem membersOf_pruneAll (h : Shows file keep view) {scope : Attributes} {above : CursorKind}
    (habove : above.isClass = true) (cs : List Cursor) :
    membersOf scope (pruneAll keep scope above cs) = view (membersOf scope cs) := by
  have hfold : ∀ m, (pruneAll keep scope above cs).foldl (addMember scope) (view m) =
      view (cs.foldl (addMember scope) m) := by
    induction cs with
    | nil => exact fun m => rfl
    | cons c cs ih =>
      intro m
      rw [List.foldl_cons, ← ih (addMember scope m c)]
      cases hkeep : keep scope above c with
      | true =>
        simp only [pruneAll, hkeep, ↓reduceIte, List.foldl_cons, addMember_prune h.parts]
        rw [h.kept scope above m c habove hkeep]
      | false =>
        simp only [pruneAll, hkeep, Bool.false_eq_true, ↓reduceIte]
        rw [h.gone scope above m c habove hkeep]
  have hempty := hfold {}
  rwa [h.isView.empty] at hempty

mutual

theorem classDeclOf_prune (h : Shows file keep view) : ∀ (c : Cursor) (scope : Attributes),
    c.kind.isClass = true → classDeclOf file scope (c.prune keep scope) =
      (classDeclOf file scope c).map (mapMembers view)
  | .node i cs, scope, hkind => by
    have hclass : i.kind.isClass = true := hkind
    have hinside : (Cursor.node i cs).inside scope = (Cursor.node i cs).attributesIn scope := by
      simp [inside, hkind]
    have hattrs := attributesIn_prune h.parts scope scope (.node i cs)
    rw [prune, hinside] at hattrs ⊢
    have hnested :=
      visitNested_pruneAll h cs ((Cursor.node i cs).attributesIn scope) i.kind hclass []
    rw [List.map_nil] at hnested
    simp only [classDeclOf, hattrs, h.membersOf_pruneAll hclass, hnested]
    cases visitNested file ((Cursor.node i cs).attributesIn scope) [] cs with
    | error => rfl
    | ok children => exact congrArg Except.ok (mapMembers_classDecl view ..).symm

theorem visitNested_pruneAll (h : Shows file keep view) : ∀ (cs : List Cursor) (scope : Attributes)
    (above : CursorKind), above.isClass = true → ∀ siblings : List Decl,
      visitNested file scope (siblings.map (mapMembers view)) (pruneAll keep scope above cs) =
        (visitNested file scope siblings cs).map (List.map (mapMembers view))
  | [], _, _, _, _ => rfl
  | c :: rest, scope, above, habove, siblings => by
    have hrest := visitNested_pruneAll h rest scope above habove
    cases hkeep : keep scope above c with
    | true =>
      simp only [pruneAll, hkeep, ↓reduceIte, visitNested, isClassDefinition_prune, isFrom_prune]
      split
      · rename_i hc
        obtain ⟨hdef, -⟩ := Bool.and_eq_true_iff.mp hc
        rw [classDeclOf_prune h c scope (isClass_of_isClassDefinition hdef)]
        refine map_bind_eq (fun d => ?_) _
        rw [recordIfNeeded_mapMembers h.isView]
        exact map_bind_eq hrest _
      · exact hrest siblings
    | false =>
      simp only [pruneAll, hkeep, Bool.false_eq_true, ↓reduceIte]
      rw [hrest siblings]
      cases hc : c.isClassDefinition && c.isFrom file with
      | true =>
        obtain ⟨hdef, hfrom⟩ := Bool.and_eq_true_iff.mp hc
        obtain ⟨d, hd, hneed⟩ := h.unneeded scope above c habove hkeep hdef hfrom
        rw [visitNested_cons_of_unneeded hd hneed]
      | false => simp only [visitNested, hc, Bool.false_eq_true, ↓reduceIte]

end

mutual

theorem visitCursor_prune (h : Shows file keep view) : ∀ (c : Cursor) (scope : Attributes)
    (siblings : List Decl),
      visitCursor file scope (siblings.map (mapMembers view)) (c.prune keep scope) =
        (visitCursor file scope siblings c).map (List.map (mapMembers view))
  | .node i cs, scope, siblings => by
    have hdecl := classDeclOf_prune h (.node i cs) scope
    have hattrs := attributesIn_prune h.parts scope scope (.node i cs)
    have henum := enumInfo_prune h.parts scope scope (.node i cs)
    have hfrom := isFrom_prune file keep scope (.node i cs)
    have hcs := visitCursors_pruneAll h cs ((Cursor.node i cs).inside scope) i.kind
    simp only [prune] at hdecl hattrs henum hfrom ⊢
    have hclass (hkind : i.kind.isClass = true) :
        (classDeclOf file scope
              (.node i (pruneAll keep ((Cursor.node i cs).inside scope) i.kind cs))
            >>= recordIfNeeded (siblings.map (mapMembers view))) =
          (classDeclOf file scope (.node i cs) >>= recordIfNeeded siblings).map
            (List.map (mapMembers view)) := by
      rw [hdecl hkind]
      exact map_bind_eq (recordIfNeeded_mapMembers h.isView siblings) _
    simp only [visitCursor, hfrom]
    split
    · split
      · rename_i hkind
        have hinside : (Cursor.node i cs).inside scope = (Cursor.node i cs).attributesIn scope := by
          simp [inside, Cursor.kind, Cursor.info, hkind]
        have hnested := hcs (by rw [hkind]; rfl) []
        rw [hinside] at hattrs hnested
        rw [List.map_nil] at hnested
        rw [hinside, hattrs, hnested]
        refine map_bind_eq (fun children => ?_) _
        rw [← mapMembers_namespaceDecl, record_mapMembers h.isView]
      · rename_i hkind
        split
        · exact hclass (by rw [hkind]; rfl)
        · rfl
      · rename_i hkind
        split
        · exact hclass (by rw [hkind]; rfl)
        · rfl
      · split
        · rw [henum]
          exact recordIfNeeded_mapMembers h.isView siblings (.enumDecl _)
        · rfl
      · rename_i hns hcl hst hen
        have hkind : i.kind.isClass = false := by
          simp [CursorKind.isClass, show i.kind ≠ .classDecl from hcl,
            show i.kind ≠ .structDecl from hst]
        have hinside : (Cursor.node i cs).inside scope = scope := by
          simp [inside, Cursor.kind, Cursor.info, hkind, show i.kind ≠ .namespaceDecl from hns]
        rw [hinside] at hcs
        rw [hinside]
        exact hcs hkind siblings
    · rfl

theorem visitCursors_pruneAll (h : Shows file keep view) : ∀ (cs : List Cursor)
    (scope : Attributes) (above : CursorKind), above.isClass = false → ∀ siblings : List Decl,
      visitCursors file scope (siblings.map (mapMembers view)) (pruneAll keep scope above cs) =
        (visitCursors file scope siblings cs).map (List.map (mapMembers view))
  | [], _, _, _, _ => rfl
  | c :: rest, scope, above, habove, siblings => by
    have hrest := visitCursors_pruneAll h rest scope above habove
    cases hkeep : keep scope above c with
    | true =>
      simp only [pruneAll, hkeep, ↓reduceIte, visitCursors]
      rw [visitCursor_prune h c scope siblings]
      exact map_bind_eq hrest _
    | false =>
      have hfrom : c.isFrom file = false := by
        cases hc : c.isFrom file with
        | false => rfl
        | true =>
          rw [h.declared scope above c habove hc] at hkeep
          cases hkeep
      have hsame : visitCursor file scope siblings c = .ok siblings := by
        obtain ⟨i, cs⟩ := c
        simp [visitCursor, hfrom]
      simp only [pruneAll, hkeep, Bool.false_eq_true, ↓reduceIte, visitCursors]
      rw [hsame]
      exact hrest siblings

end

/-- **The visit of what is left shows what the visit of all would.** -/
theorem visitUnit_pruneUnit (h : Shows file keep view) (unit : Cursor) :
    visitUnit file (unit.pruneUnit keep) = (visitUnit file unit).map (mapMembers view) := by
  unfold visitUnit
  have hall := h.visitCursors_pruneAll unit.children Attributes.none .unit rfl []
  rw [List.map_nil] at hall
  rw [pruneUnit, Cursor.children, hall]
  refine map_bind_eq (fun children => ?_) _
  exact congrArg Except.ok (mapMembers_namespaceDecl view ..).symm

theorem visitSource_pruneUnit (h : Shows file keep view) (cursors : CursorSource)
    (marker source : String) :
    visitSource (fun path => (cursors path).map (pruneUnit keep)) marker file source =
      (visitSource cursors marker file source).map (mapMembers view) := by
  unfold visitSource
  split
  · simp only
    cases cursors file with
    | error reason => rfl
    | ok unit =>
      change (visitUnit file (unit.pruneUnit keep)).mapError (VisitError.merge file) =
        ((visitUnit file unit).mapError (VisitError.merge file)).map _
      rw [h.visitUnit_pruneUnit]
      cases visitUnit file unit <;> rfl
  · rfl

end Shows

end HeaderReflect
