import HeaderReflect.Cursor.Builder
import HeaderReflect.Proofs.Merge.Shape
import HeaderReflect.Visit

/-!
The shape of a visited tree. Each step of the visit records something tidy among tidy siblings, so
the tree of a header is tidy all the way down, whatever its cursors are (`visitSource_tidy`).
-/

namespace HeaderReflect

open Decl

namespace Recorded

theorem recordIfNeeded {siblings out : List Decl} {d : Decl} (h : Recorded siblings)
    (hd : ∀ e ∈ d.parts, e.Tidy) (hchild : d.isScopeChild = true)
    (hkind : d.kind ≠ .namespaceScope) (hrecord : recordIfNeeded siblings d = .ok out) :
    Recorded out := by
  unfold HeaderReflect.recordIfNeeded at hrecord
  split at hrecord
  · rename_i hneeded
    exact h.recordNeeded hd hchild hkind hneeded hrecord
  · cases hrecord
    exact h

end Recorded

/-- Recording keeps siblings of one kind, if what is recorded is of that kind. -/
theorem kind_of_recordIfNeeded {k : Kind} {siblings out : List Decl} {d : Decl}
    (hs : ∀ c ∈ siblings, c.kind = k) (hd : d.kind = k)
    (h : recordIfNeeded siblings d = .ok out) : ∀ c ∈ out, c.kind = k := by
  unfold recordIfNeeded record at h
  split at h
  · split at h
    · cases h
      exact hs
    · rw [← placeAllWith_singleton] at h
      refine forall_placeAllWith (P := fun c => c.kind = k) ?_ hs (by simpa using hd) h
      intro a b r ha _ hr
      exact (congrArg Prod.snd (keepsKey_merge a b r hr)).trans ha
  · cases h
    exact hs

theorem tidy_enumDecl (info : EnumInfo) : ∀ d ∈ (Decl.enumDecl info).parts, d.Tidy :=
  Recorded.tidy (.enumDecl info) Recorded.nil fun hkind => by cases hkind

/-! ## Along the visit -/

mutual

theorem tidy_classDeclOf (file : String) : ∀ (c : Cursor) (scope : Attributes) (d : Decl),
    classDeclOf file scope c = .ok d → (∀ e ∈ d.parts, e.Tidy) ∧ d.kind = .classScope
  | .node i cs, scope, d, h => by
    obtain ⟨children, hchildren, hd⟩ := ok_of_bind h
    cases hd
    obtain ⟨hrecorded, hclasses⟩ :=
      recorded_visitNested file cs _ [] children Recorded.nil (by simp) hchildren
    exact ⟨Recorded.tidy _ hrecorded (fun _ => hclasses), rfl⟩

theorem recorded_visitNested (file : String) : ∀ (cs : List Cursor) (scope : Attributes)
    (siblings out : List Decl), Recorded siblings → (∀ c ∈ siblings, c.kind = .classScope) →
      visitNested file scope siblings cs = .ok out →
        Recorded out ∧ ∀ c ∈ out, c.kind = .classScope
  | [], _, _, _, hs, hclasses, h => by
    cases h
    exact ⟨hs, hclasses⟩
  | c :: rest, scope, siblings, out, hs, hclasses, h => by
    simp only [visitNested] at h
    split at h
    · obtain ⟨d, hd, h⟩ := ok_of_bind h
      obtain ⟨next, hnext, hrest⟩ := ok_of_bind h
      obtain ⟨htidy, hkind⟩ := tidy_classDeclOf file c scope d hd
      have hchild : d.isScopeChild = true := by simp [isScopeChild, hkind]
      exact recorded_visitNested file rest scope next out
        (hs.recordIfNeeded htidy hchild (by simp [hkind]) hnext)
        (kind_of_recordIfNeeded hclasses hkind hnext) hrest
    · exact recorded_visitNested file rest scope siblings out hs hclasses h

end

/-- Recording the class of a cursor. -/
theorem Recorded.recordClass {file : String} {scope : Attributes} {siblings out : List Decl}
    {c : Cursor} (h : Recorded siblings)
    (hrecord : (classDeclOf file scope c >>= HeaderReflect.recordIfNeeded siblings) = .ok out) :
    Recorded out := by
  obtain ⟨d, hd, hrecord⟩ := ok_of_bind hrecord
  obtain ⟨htidy, hkind⟩ := tidy_classDeclOf file c scope d hd
  exact h.recordIfNeeded htidy (by simp [isScopeChild, hkind]) (by simp [hkind]) hrecord

mutual

theorem recorded_visitCursor (file : String) : ∀ (c : Cursor) (scope : Attributes)
    (siblings out : List Decl), Recorded siblings → visitCursor file scope siblings c = .ok out →
      Recorded out
  | .node i cs, scope, siblings, out, hs, h => by
    simp only [visitCursor] at h
    split at h
    · split at h
      · obtain ⟨children, hchildren, hrecord⟩ := ok_of_bind h
        exact hs.recordNamespace
          (recorded_visitCursors file cs _ [] children Recorded.nil hchildren) hrecord
      · split at h
        · exact hs.recordClass h
        · cases h
          exact hs
      · split at h
        · exact hs.recordClass h
        · cases h
          exact hs
      · split at h
        · exact hs.recordIfNeeded (tidy_enumDecl _) rfl (fun hkind => by cases hkind) h
        · cases h
          exact hs
      · exact recorded_visitCursors file cs scope siblings out hs h
    · cases h
      exact hs

theorem recorded_visitCursors (file : String) : ∀ (cs : List Cursor) (scope : Attributes)
    (siblings out : List Decl), Recorded siblings → visitCursors file scope siblings cs = .ok out →
      Recorded out
  | [], _, _, _, hs, h => by
    cases h
    exact hs
  | c :: rest, scope, siblings, out, hs, h => by
    obtain ⟨next, hnext, hrest⟩ := ok_of_bind h
    exact recorded_visitCursors file rest scope next out
      (recorded_visitCursor file c scope siblings next hs hnext) hrest

end

/-- **Visited trees are tidy.** Whatever a header's cursors are, if the visit succeeds its tree is
an unnamed namespace without wishes, and every scope in it is tidy. -/
theorem visitSource_tidy {cursors : CursorSource} {marker path source : String} {root : Decl}
    (h : visitSource cursors marker path source = .ok root) :
    root.kind = .namespaceScope ∧ root.name = "" ∧ root.attrs = Attributes.none ∧
      ∀ d ∈ root.parts, d.Tidy := by
  have hroot {children : List Decl} (hchildren : Recorded children) :
      ∀ d ∈ (Decl.namespaceDecl "" Attributes.none children).parts, d.Tidy :=
    Recorded.tidy _ hchildren fun hkind => by cases hkind
  unfold visitSource at h
  split at h
  · split at h
    · cases h
    · rename_i unit _
      unfold visitUnit at h
      cases hv : visitCursors path Attributes.none [] unit.children with
      | error e =>
        rw [hv] at h
        cases h
      | ok children =>
        rw [hv] at h
        cases h
        exact ⟨rfl, rfl, rfl, hroot (recorded_visitCursors path _ _ _ _ Recorded.nil hv)⟩
  · cases h
    exact ⟨rfl, rfl, rfl, hroot Recorded.nil⟩

open Cursor in
/-- A header with a namespace that is opened twice and one in which nothing is needed. `Player` is
defined twice: first without a wish of its own, around a class that is needed. -/
def redefinedUnit : Cursor :=
  let key := (ofKind .classDecl "Key").annotate "nickel(refl)"
  let player := (ofKind .classDecl "Player").append [key]
  let again := ((ofKind .structDecl "Player").annotate "nickel(script)").append [field "m_hp" "int"]
  let mode := (enumDecl "Mode" ["easy", "hard"]).annotate "nickel(refl)"
  ((unit "a.hpp").append
    [(ofKind .namespaceDecl "game").append [player],
     (ofKind .namespaceDecl "empty").append [ofKind .structDecl "Plain"],
     (ofKind .namespaceDecl "game").append [again, mode]]).located

/-- The tree of such a header is tidy: the root, `game`, `Player`, `Key` and `Mode`. -/
theorem visitSource_tidy_redefined :
    ∃ root, visitSource (fun _ => .ok redefinedUnit) "REFL" "a.hpp" "struct REFL(refl)" = .ok root ∧
      root.parts.map (·.name) = ["", "game", "Player", "Key", "Mode"] ∧
      root.kind = .namespaceScope ∧ root.name = "" ∧ root.attrs = Attributes.none ∧
      ∀ d ∈ root.parts, d.Tidy := by
  obtain ⟨root, hroot, hnames⟩ : ∃ root, visitSource (fun _ => .ok redefinedUnit) "REFL" "a.hpp"
      "struct REFL(refl)" = .ok root ∧
        root.parts.map (·.name) = ["", "game", "Player", "Key", "Mode"] := ⟨_, rfl, rfl⟩
  exact ⟨root, hroot, hnames, visitSource_tidy hroot⟩

end HeaderReflect
