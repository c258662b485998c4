import HeaderReflect.Cursor.Builder
import HeaderReflect.Proofs.Visit.Documents
import HeaderReflect.Proofs.Visit.Pruning

/-!
What is generated from protected and private declarations. Members of a class that are not public
leave no trace in a header's documents, and neither do such nested classes in which nothing asks for
a document (`fragments_exposedPart`). A nested class that asks is treated alike whatever its access,
so a private class inside a reflected one has its documents.
-/

namespace HeaderReflect

/-! ## Public members -/

def ByAccess.publicOnly {α : Type} (lists : ByAccess α) : ByAccess α := { pub := lists.pub }

def Members.publicOnly (m : Members) : Members where
  fields := m.fields.publicOnly
  methods := m.methods.publicOnly
  enums := m.enums.publicOnly
  ctors := m.ctors.publicOnly

theorem memberView_publicOnly : MemberView Members.publicOnly where
  empty := rfl
  absorb := fun _ _ => rfl
  enums := fun _ => rfl

namespace Plan

open Decl

theorem enumsOf_mapMembersAll (view : Members → Members) (ds : List Decl) :
    enumsOf (mapMembersAll view ds) = enumsOf ds := by
  induction ds with
  | nil => rfl
  | cons d ds ih =>
    unfold enumsOf at ih ⊢
    cases d <;> simp [mapMembersAll, mapMembers, ih]

mutual

theorem walk_publicOnly (memberPrefix : String) : ∀ (d : Decl) (scope : String),
    walk memberPrefix scope (d.mapMembers Members.publicOnly) = walk memberPrefix scope d
  | .namespaceDecl name attrs ds, scope => by
    simp only [mapMembers, walk, enumsOf_mapMembersAll, walkNested_publicOnly memberPrefix ds]
  | .classDecl name attrs m ds, scope => by
    simp only [mapMembers, walk, enumsOf_mapMembersAll, walkNested_publicOnly memberPrefix ds]
    rfl
  | .enumDecl _, _ | .fieldDecl _, _ | .methodDecl _, _ | .ctorDecl _, _ => rfl

theorem walkNested_publicOnly (memberPrefix : String) : ∀ (ds : List Decl) (scope : String),
    walkNested memberPrefix scope (mapMembersAll Members.publicOnly ds) =
      walkNested memberPrefix scope ds
  | [], _ => rfl
  | d :: ds, scope => by
    have hd := walk_publicOnly memberPrefix d scope
    have hds := walkNested_publicOnly memberPrefix ds scope
    cases d with
    | enumDecl e => exact hds
    | _ => exact congrArg₂ (· ++ ·) hd hds

end

end Plan

namespace Cursor

/-! ## Asking for documents -/

/-- Whether an enum of a class with the given wishes is public and wants something. -/
def isWantedEnum (scope : Attributes) (c : Cursor) : Bool :=
  c.info.isDefinition && c.declares .enumDecl .isPublic && (c.attributesIn scope).anyNeed

mutual

/-- Whether a class in a scope asks for anything: by its own wishes, by a public enum in it, or by
a class nested in it. -/
def asks (file : String) (scope : Attributes) : Cursor → Bool
  | .node i cs =>
    let attrs := (Cursor.node i cs).attributesIn scope
    attrs.anyNeed || cs.any (isWantedEnum attrs) || nestedAsks file attrs cs

def nestedAsks (file : String) (scope : Attributes) : List Cursor → Bool
  | [] => false
  | c :: rest =>
    c.isClassDefinition && c.isFrom file && asks file scope c || nestedAsks file scope rest

end

theorem any_enums_membersOf (scope : Attributes) (cs : List Cursor) :
    (membersOf scope cs).enums.pub.any (·.attrs.anyNeed) = cs.any (isWantedEnum scope) := by
  have henums := (get_membersOf scope cs .isPublic).2.2.1
  simp only [ByAccess.get] at henums
  rw [henums, List.filter_filter, List.any_map, List.any_filter]
  rfl

mutual

/-- A class that asks for nothing is built without a failure, and is not recorded. -/
theorem classDeclOf_of_not_asks (file : String) : ∀ (c : Cursor) (scope : Attributes),
    c.asks file scope = false →
      ∃ d, classDeclOf file scope c = .ok d ∧ d.needsRecording = false
  | .node i cs, scope, h => by
    simp only [asks, Bool.or_eq_false_iff] at h
    obtain ⟨⟨hown, henums⟩, hnested⟩ := h
    rw [classDeclOf, visitNested_of_not_asks file cs _ [] hnested]
    refine ⟨_, rfl, ?_⟩
    rw [Decl.needsRecording, any_enums_membersOf, hown, henums]
    rfl

theorem visitNested_of_not_asks (file : String) : ∀ (cs : List Cursor) (scope : Attributes)
    (siblings : List Decl), nestedAsks file scope cs = false →
      visitNested file scope siblings cs = .ok siblings
  | [], _, _, _ => rfl
  | c :: rest, scope, siblings, h => by
    obtain ⟨hc, hrest⟩ := Bool.or_eq_false_iff.mp h
    have hlater := visitNested_of_not_asks file rest scope siblings hrest
    cases hvisited : c.isClassDefinition && c.isFrom file with
    | true =>
      rw [hvisited, Bool.true_and] at hc
      obtain ⟨d, hd, hneed⟩ := classDeclOf_of_not_asks file c scope hc
      rw [visitNested_cons_of_unneeded hd hneed, hlater]
    | false =>
      simp only [visitNested, hvisited, Bool.false_eq_true, ↓reduceIte]
      exact hlater

end

/-! ## Hidden declarations -/

/-- Whether the cursor is declared protected or private. -/
def isHidden (c : Cursor) : Bool :=
  c.info.access = some .isProtected || c.info.access = some .isPrivate

/-- Of what a cursor adds to a class the public part is seen, and nothing if it is hidden. -/
theorem publicOnly_addMember (scope : Attributes) (m : Members) (c : Cursor) :
    (addMember scope m c).publicOnly =
      if c.isHidden then m.publicOnly else addMember scope m.publicOnly c := by
  unfold addMember
  split
  · rename_i access _ haccess
    cases access <;> simp [isHidden, haccess] <;> rfl
  · rename_i access _ haccess
    cases access <;> simp [isHidden, haccess] <;> rfl
  · rename_i access _ haccess
    cases access <;> simp [isHidden, haccess] <;> rfl
  · rename_i access _ haccess
    split
    · cases access <;> simp [isHidden, haccess] <;> rfl
    · simp
  · simp

/-- Whether the cursor declares a field, a method, a constructor, an enum or a class. -/
def isDeclaration (c : Cursor) : Bool :=
  c.kind = .fieldDecl || c.kind = .method || c.kind = .constructor || c.kind = .enumDecl ||
    c.kind.isClass

theorem isDeclaration_of_isMember {c : Cursor} (h : c.isMember = true) :
    c.isDeclaration = true ∧ c.isClassDefinition = false := by
  unfold isMember at h
  cases hk : c.kind <;> simp_all [isDeclaration, isClassDefinition]

/-- The unit without the protected and private declarations in its classes. -/
def publicPart : Cursor → Cursor :=
  pruneUnit fun _ above c => !(above.isClass && c.isHidden && c.isDeclaration)

/-- Whether a nested class is visited and asks for something. -/
def isAskingClass (file : String) (scope : Attributes) (c : Cursor) : Bool :=
  c.isClassDefinition && c.isFrom file && c.asks file scope

/-- All stays but the protected and private declarations in classes, of which the classes that ask
for something stay as well. -/
def publicOrAsking (file : String) : Keep := fun scope above c =>
  !(above.isClass && c.isHidden && c.isDeclaration && !c.isAskingClass file scope)

/-- The unit without the protected and private declarations in its classes, except for the classes
among them that ask for something. -/
def exposedPart (file : String) : Cursor → Cursor := pruneUnit (publicOrAsking file)

end Cursor

open Cursor Decl

theorem shows_publicOrAsking (file : String) :
    Shows file (publicOrAsking file) Members.publicOnly where
  isView := memberView_publicOnly
  parts := by
    intro scope above c hpart
    have hdecl : c.isDeclaration = false := by
      unfold isPart at hpart
      cases hk : c.kind <;> simp [hk] at hpart <;> simp [isDeclaration, hk, CursorKind.isClass]
    simp [publicOrAsking, hdecl]
  declared := by
    intro scope above c habove _
    simp [publicOrAsking, habove]
  kept := by
    intro scope above m c habove hkeep
    rw [publicOnly_addMember]
    split
    · rename_i hhidden
      -- A hidden member would not have been kept.
      have hmember : c.isMember = false := by
        cases hm : c.isMember with
        | false => rfl
        | true =>
          obtain ⟨hdecl, hclass⟩ := isDeclaration_of_isMember hm
          simp [publicOrAsking, habove, hhidden, hdecl, isAskingClass, hclass] at hkeep
      rw [addMember_of_not_isMember scope _ hmember]
    · rfl
  gone := by
    intro scope above m c habove hgone
    have hhidden : c.isHidden = true := by
      simp only [publicOrAsking, Bool.not_eq_false', Bool.and_eq_true] at hgone
      exact hgone.1.1.2
    rw [publicOnly_addMember, if_pos hhidden]
  unneeded := by
    intro scope above c _ hgone hdef hfrom
    have hasks : c.asks file scope = false := by
      cases hasks : c.asks file scope with
      | false => rfl
      | true => simp [publicOrAsking, isAskingClass, hdef, hfrom, hasks] at hgone
    exact classDeclOf_of_not_asks file c scope hasks

/-- **Only what is public is exposed, nested classes that ask apart.** Without the protected and
private fields, methods, constructors and enums of its classes, and without such nested classes that
ask for nothing, a header has the same documents, or fails alike. -/
theorem fragments_exposedPart (cursors : CursorSource) (marker path source memberPrefix : String) :
    (visitSource (fun p => (cursors p).map (exposedPart path)) marker path source).map
        (fun root => (planFile memberPrefix path root).fragments) =
      (visitSource cursors marker path source).map
        (fun root => (planFile memberPrefix path root).fragments) := by
  unfold exposedPart
  rw [(shows_publicOrAsking path).visitSource_pruneUnit cursors marker source]
  cases visitSource cursors marker path source with
  | error e => rfl
  | ok root => exact congrArg Except.ok (Plan.walk_publicOnly memberPrefix root "")

/-- A private field makes no difference, and neither does a private class that a veto keeps from
asking. -/
theorem fragments_exposedPart_hidden :
    let outer := (ofKind .classDecl "Outer").annotate "nickel(refl)"
    let hidden := (field "m_x" "int").withAccess .isPrivate
    let silent := ((ofKind .classDecl "Silent").annotate "nickel(norefl)").withAccess .isPrivate
    let header (c : Cursor) := ((unit "a.hpp").append [c]).located
    let whole := header (outer.append [hidden, silent])
    let fragments (c : Cursor) := (visitSource (fun _ => .ok c) "REFL" "a.hpp" "REFL").map
      fun root => (planFile "m_" "a.hpp" root).fragments
    exposedPart "a.hpp" whole = header outer ∧ fragments (header outer) = fragments whole := by
  intro outer hidden silent header whole fragments
  have hpart : exposedPart "a.hpp" whole = header outer := rfl
  refine ⟨hpart, ?_⟩
  rw [← hpart]
  exact fragments_exposedPart (fun _ => .ok whole) "REFL" "a.hpp" "REFL" "m_"

/-- A private class inside a reflected one is exposed: the header has a document for it, and does
not if the private class is taken away. -/
theorem private_class_is_exposed :
    let secret := ((ofKind .classDecl "Secret").withAccess .isPrivate).append [field "m_key" "int"]
    let outer := ((ofKind .classDecl "Outer").annotate "nickel(refl)").append [secret]
    let header := ((unit "a.hpp").append [outer]).located
    let docs (c : Cursor) := (visitSource (fun _ => .ok c) "REFL" "a.hpp" "REFL").map fun root =>
      (planFile "m_" "a.hpp" root).fragments.reflClasses
    docs header = .ok
        [⟨"::Outer::Secret", "Secret", [⟨"key", "::Outer::Secret::m_key", none⟩]⟩,
         ⟨"::Outer", "Outer", []⟩] ∧
      docs (publicPart header) = .ok [⟨"::Outer", "Outer", []⟩] ∧
      docs (publicPart header) ≠ docs header := by
  refine ⟨rfl, rfl, fun h => ?_⟩
  have hsizes := congrArg (Except.map List.length) h
  cases hsizes

end HeaderReflect
