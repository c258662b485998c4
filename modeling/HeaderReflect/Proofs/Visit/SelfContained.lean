import HeaderReflect.Cursor.Builder
import HeaderReflect.Proofs.Visit.Pruning

/-!
What other files have to say in a header. Their declarations make no difference, with one exception:
the members of a class count whatever file they are from. Two headers that agree on everything else
give the same tree or the same failure (`visitSource_eq_of_ownPart`).
-/

namespace HeaderReflect

namespace Cursor

/-- Whether the cursor is from the file or part of the declaration that it stands on. -/
def isOwn (file : String) (c : Cursor) : Bool := c.isFrom file || c.isPart

/-- The unit without the cursors of other files. -/
def ownPart (file : String) : Cursor → Cursor :=
  pruneUnit fun _ _ c => c.isOwn file

/-- What is the file's own stays, and so does every member of a class. -/
def ownOrMember (file : String) : Keep := fun _ above c =>
  c.isOwn file || above.isClass && c.isMember

/-- The unit without the cursors of other files, but with all members of its classes. -/
def ownPartWithMembers (file : String) : Cursor → Cursor := pruneUnit (ownOrMember file)

end Cursor

open Cursor Decl

theorem shows_ownOrMember (file : String) : Shows file (ownOrMember file) id where
  isView := .id
  parts := by
    intro scope above c hpart
    simp [ownOrMember, isOwn, hpart]
  declared := by
    intro scope above c _ hfrom
    simp [ownOrMember, isOwn, hfrom]
  kept := fun _ _ _ _ _ _ => rfl
  gone := by
    intro scope above m c habove hgone
    rw [ownOrMember, habove, Bool.true_and] at hgone
    exact addMember_of_not_isMember scope m (Bool.or_eq_false_iff.mp hgone).2
  unneeded := by
    intro scope above c _ hgone _ hfrom
    simp [ownOrMember, isOwn, hfrom] at hgone

/-- **A header's own part decides.** Where two sources give units for a path that agree once the
cursors of other files are gone, members of classes excepted, or fail for the same reason, the visit
gives the same tree or the same failure. -/
theorem visitSource_eq_of_ownPart {cursors other : CursorSource} {path : String}
    (h : (cursors path).map (ownPartWithMembers path) = (other path).map (ownPartWithMembers path))
    (marker source : String) :
    visitSource cursors marker path source = visitSource other marker path source := by
  have hone (given : CursorSource) :
      visitSource (fun path' => (given path').map (ownPartWithMembers path)) marker path source =
        visitSource given marker path source := by
    have hpruned := (shows_ownOrMember path).visitSource_pruneUnit given marker source
    rw [show mapMembers id = id from funext mapMembers_id] at hpruned
    exact hpruned.trans (by cases visitSource given marker path source <;> rfl)
  rw [← hone cursors, ← hone other]
  simp only [visitSource, h]

namespace Cursor.Sample

/-- A header with the class `Local`, in which the given cursors of another file stand next to a
member from there; they also stand in the unit itself and in the namespace around the class. -/
def includingUnit (foreign : List Cursor) : Cursor :=
  let included := foreign.map (inFile "dep.hpp")
  let own := ((ofKind .classDecl "Local").annotate "nickel(refl)").append
    ((field "m_x" "int").inFile "dep.hpp" :: included)
  ((unit "main.hpp").append
    (included ++ [(ofKind .namespaceDecl "game").append (included ++ [own])])).located

def annotatedClass : Cursor :=
  ((ofKind .classDecl "Included").annotate "nickel(refl)").append [field "m_y" "int"]

end Cursor.Sample

/-- An annotated class of another file makes no difference in the unit, nor in a namespace or a
class of the header. -/
theorem visitSource_eq_of_ownPart_included :
    let without := Cursor.Sample.includingUnit []
    let including := Cursor.Sample.includingUnit [Cursor.Sample.annotatedClass]
    including.children.length ≠ without.children.length ∧
      ownPartWithMembers "main.hpp" including = ownPartWithMembers "main.hpp" without ∧
      ∃ root, visitSource (fun _ => .ok without) "REFL" "main.hpp" "REFL" = .ok root ∧
        visitSource (fun _ => .ok including) "REFL" "main.hpp" "REFL" = .ok root := by
  intro without including
  have hown : ownPartWithMembers "main.hpp" including = ownPartWithMembers "main.hpp" without := rfl
  obtain ⟨root, hroot⟩ :
      ∃ root, visitSource (fun _ => .ok without) "REFL" "main.hpp" "REFL" = .ok root := ⟨_, rfl⟩
  have hsame : visitSource (fun _ => .ok including) "REFL" "main.hpp" "REFL" =
      visitSource (fun _ => .ok without) "REFL" "main.hpp" "REFL" :=
    visitSource_eq_of_ownPart (by exact congrArg Except.ok hown) ..
  exact ⟨by decide, hown, root, hroot, hsame.trans hroot⟩

/-- A member from another file counts: the two units agree on what is the header's own, and only
the first has a class with a field. -/
theorem foreign_field_is_recorded :
    let plain := (ofKind .classDecl "Local").annotate "nickel(refl)"
    let extended := plain.append [(field "m_x" "int").inFile "dep.hpp"]
    let header (c : Cursor) := ((unit "main.hpp").append [c]).located
    let visit (c : Cursor) := visitSource (fun _ => .ok (header c)) "REFL" "main.hpp" "REFL"
    let refl : Attributes := { wantsReflection := true }
    ownPart "main.hpp" (header extended) = ownPart "main.hpp" (header plain) ∧
      visit extended = .ok (.namespaceDecl "" .none
        [.classDecl "Local" refl { fields := { pub := [⟨"m_x", refl, "int", false, true⟩] } } []]) ∧
      visit plain = .ok (.namespaceDecl "" .none [.classDecl "Local" refl {} []]) ∧
      visit extended ≠ visit plain := by
  intro plain extended header visit refl
  have hextended : visit extended = .ok (.namespaceDecl "" .none
      [.classDecl "Local" refl { fields := { pub := [⟨"m_x", refl, "int", false, true⟩] } } []]) :=
    rfl
  have hplain : visit plain = .ok (.namespaceDecl "" .none [.classDecl "Local" refl {} []]) := rfl
  refine ⟨rfl, hextended, hplain, ?_⟩
  rw [hextended, hplain]
  intro h
  cases h

end HeaderReflect
