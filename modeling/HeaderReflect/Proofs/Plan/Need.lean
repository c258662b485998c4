import HeaderReflect.Proofs.Merge.Shape
import HeaderReflect.Proofs.Plan.Enums

/-!
What has to be recorded and what is generated. A declaration needs recording exactly if a walk over
it gives a document (`walk_eq_empty_iff`), so nothing is lost with declarations that need no
recording, and nothing is kept for which nothing is generated.
-/

namespace HeaderReflect

namespace Decl

/-- Only namespaces, classes and enums stand in the tree. -/
def Scoped (d : Decl) : Prop := ∀ e ∈ d.parts, e.isScopeChild = true

instance (d : Decl) : Decidable d.Scoped :=
  inferInstanceAs (Decidable (∀ e ∈ d.parts, e.isScopeChild = true))

theorem Scoped.children {d : Decl} (h : d.Scoped) : ∀ c ∈ d.children, c.Scoped :=
  (forall_parts_iff.mp h).2

theorem Scoped.isScopeChild {d : Decl} (h : d.Scoped) : d.isScopeChild = true :=
  (forall_parts_iff.mp h).1

mutual

/-- The tree without the declarations below its root that `keep` rules out. -/
def filterParts (keep : Decl → Bool) : Decl → Decl
  | .namespaceDecl name attrs children =>
    .namespaceDecl name attrs (filterPartsAll keep children)
  | .classDecl name attrs members children =>
    .classDecl name attrs members (filterPartsAll keep children)
  | d => d

def filterPartsAll (keep : Decl → Bool) : List Decl → List Decl
  | [] => []
  | d :: rest =>
    if keep d then d.filterParts keep :: filterPartsAll keep rest else filterPartsAll keep rest

end

end Decl

namespace Plan

open Decl

/-! ## Empty fragments -/

theorem empty_append (f : Fragments) : {} ++ f = f := rfl

theorem append_eq_empty_iff {f g : Fragments} : f ++ g = {} ↔ f = {} ∧ g = {} := by
  obtain ⟨a, b, c, d⟩ := f
  obtain ⟨a', b', c', d'⟩ := g
  show Fragments.mk (a ++ a') (b ++ b') (c ++ c') (d ++ d') = {} ↔ _
  simp only [Fragments.mk.injEq, List.append_eq_nil_iff]
  constructor
  · rintro ⟨⟨ha, ha'⟩, ⟨hb, hb'⟩, ⟨hc, hc'⟩, hd, hd'⟩
    exact ⟨⟨ha, hb, hc, hd⟩, ha', hb', hc', hd'⟩
  · rintro ⟨⟨ha, hb, hc, hd⟩, ha', hb', hc', hd'⟩
    exact ⟨⟨ha, ha'⟩, ⟨hb, hb'⟩, ⟨hc, hc'⟩, hd, hd'⟩

theorem concat_cons (f : Fragments) (fs : List Fragments) : concat (f :: fs) = f ++ concat fs := rfl

theorem concat_eq_empty_iff {fs : List Fragments} : concat fs = {} ↔ ∀ f ∈ fs, f = {} := by
  induction fs with
  | nil => simp [concat]
  | cons f fs ih => rw [concat_cons, append_eq_empty_iff, ih, List.forall_mem_cons]

theorem ne_empty_iff {f : Fragments} :
    f ≠ {} ↔ f.reflEnums ≠ [] ∨ f.reflClasses ≠ [] ∨ f.bindingEnums ≠ [] ∨
      f.bindingClasses ≠ [] := by
  obtain ⟨a, b, c, d⟩ := f
  simp only [ne_eq, Fragments.mk.injEq]
  grind

/-! ## What a declaration gives -/

theorem scopeEnum_eq_empty_iff {scope : String} {e : EnumInfo} :
    scopeEnum scope e = {} ↔ e.attrs.anyNeed = false := by
  simp [scopeEnum, Attributes.anyNeed]

/-- An enum of a class that wants nothing gives something if it wants something. -/
theorem classEnum_eq_empty_iff {owner : Attributes} (howner : owner.anyNeed = false)
    {qualified : String} {e : EnumInfo} :
    classEnum owner qualified e = {} ↔ e.attrs.anyNeed = false := by
  simp only [Attributes.anyNeed, Bool.or_eq_false_iff] at howner
  simp [classEnum, Attributes.anyNeed, howner.2]

theorem classOwn_eq_empty_iff {memberPrefix qualified name : String} {attrs : Attributes}
    {m : Members} :
    classOwn memberPrefix qualified name attrs m = {} ↔ attrs.anyNeed = false := by
  simp [classOwn, Attributes.anyNeed]

/-- Neither a class nor its public enums give anything exactly if none of them wants anything. A
scripted enum of a scripted class gives nothing by itself, but then the class does. -/
theorem classDocs_eq_empty_iff (memberPrefix qualified name : String) (attrs : Attributes)
    (m : Members) :
    concat (m.enums.pub.map (classEnum attrs qualified)) = {} ∧
        classOwn memberPrefix qualified name attrs m = {} ↔
      attrs.anyNeed = false ∧ m.enums.pub.any (·.attrs.anyNeed) = false := by
  rw [classOwn_eq_empty_iff, and_comm]
  refine and_congr_right fun howner => ?_
  rw [concat_eq_empty_iff, List.forall_mem_map, List.any_eq_false]
  refine forall₂_congr fun e _ => ?_
  rw [classEnum_eq_empty_iff howner, Bool.not_eq_true]

mutual

/-- **Exactly what needs no recording gives no documents.** -/
theorem walk_eq_empty_iff (memberPrefix : String) : ∀ (d : Decl) (scope : String), d.Scoped →
    (walk memberPrefix scope d = {} ↔ d.needsRecording = false)
  | .namespaceDecl name _ cs, scope, h =>
    walkScope_eq_empty_iff memberPrefix cs (qualify scope name) h.children
  | .classDecl name attrs members cs, scope, h => by
    have hin := walkScope_eq_empty_iff memberPrefix cs (qualify scope name) h.children
    have hown := classDocs_eq_empty_iff memberPrefix (qualify scope name) name attrs members
    simp only [walk, needsRecording, Bool.or_eq_false_iff]
    rw [append_eq_empty_iff, append_eq_empty_iff, hin]
    constructor
    · rintro ⟨⟨henums, hnested⟩, hclass⟩
      obtain ⟨hattrs, hany⟩ := hown.mp ⟨henums, hclass⟩
      exact ⟨⟨hattrs, hnested⟩, hany⟩
    · rintro ⟨⟨hattrs, hnested⟩, hany⟩
      obtain ⟨henums, hclass⟩ := hown.mpr ⟨hattrs, hany⟩
      exact ⟨⟨henums, hnested⟩, hclass⟩
  | .enumDecl _, _, _ => scopeEnum_eq_empty_iff
  | .fieldDecl _, _, h | .methodDecl _, _, h | .ctorDecl _, _, h => by cases h.isScopeChild

theorem walkScope_eq_empty_iff (memberPrefix : String) : ∀ (ds : List Decl) (scope : String),
    (∀ d ∈ ds, d.Scoped) →
      (concat ((enumsOf ds).map (scopeEnum scope)) ++ walkNested memberPrefix scope ds = {} ↔
        anyNeedsRecording ds = false)
  | [], _, _ => iff_of_true rfl rfl
  | d :: ds, scope, h => by
    obtain ⟨hscoped, hrest⟩ := List.forall_mem_cons.mp h
    have hd := walk_eq_empty_iff memberPrefix d scope hscoped
    have hds := walkScope_eq_empty_iff memberPrefix ds scope hrest
    rw [anyNeedsRecording, Bool.or_eq_false_iff, ← hd, ← hds, append_eq_empty_iff,
      append_eq_empty_iff]
    cases d with
    | enumDecl e =>
      show (scopeEnum scope e ++ concat ((enumsOf ds).map (scopeEnum scope)) = {} ∧ _) ↔ _
      rw [append_eq_empty_iff, and_assoc]
      rfl
    | _ =>
      show (_ ∧ walk memberPrefix scope _ ++ walkNested memberPrefix scope ds = {}) ↔ _
      rw [append_eq_empty_iff, and_left_comm]
      rfl

end

/-! ## Dropping declarations -/

section Dropping

variable {keep : Decl → Bool} (hkeep : ∀ d : Decl, d.needsRecording = true → keep d = true)
include hkeep

theorem needsRecording_of_dropped {d : Decl} (h : keep d = false) : d.needsRecording = false := by
  cases hneed : d.needsRecording with
  | false => rfl
  | true => rw [hkeep d hneed] at h; cases h

theorem concat_scopeEnum_filterPartsAll (scope : String) (ds : List Decl) :
    concat ((enumsOf (filterPartsAll keep ds)).map (scopeEnum scope)) =
      concat ((enumsOf ds).map (scopeEnum scope)) := by
  induction ds with
  | nil => rfl
  | cons d ds ih =>
    rw [filterPartsAll]
    cases hd : keep d with
    | true =>
      cases d with
      | enumDecl e => exact congrArg (scopeEnum scope e ++ ·) ih
      | _ => exact ih
    | false =>
      have hneed := needsRecording_of_dropped hkeep hd
      cases d with
      | enumDecl e =>
        show _ = scopeEnum scope e ++ concat ((enumsOf ds).map (scopeEnum scope))
        rw [scopeEnum_eq_empty_iff.mpr hneed, empty_append]
        exact ih
      | _ => exact ih

mutual

/-- Nothing is lost with declarations that need no recording. -/
theorem walk_filterParts (memberPrefix : String) : ∀ (d : Decl) (scope : String), d.Scoped →
    walk memberPrefix scope (d.filterParts keep) = walk memberPrefix scope d
  | .namespaceDecl name _ cs, scope, h => by
    simp only [filterParts, walk, concat_scopeEnum_filterPartsAll hkeep,
      walkNested_filterPartsAll memberPrefix cs (qualify scope name) h.children]
  | .classDecl name _ _ cs, scope, h => by
    simp only [filterParts, walk, concat_scopeEnum_filterPartsAll hkeep,
      walkNested_filterPartsAll memberPrefix cs (qualify scope name) h.children]
  | .enumDecl _, _, _ | .fieldDecl _, _, _ | .methodDecl _, _, _ | .ctorDecl _, _, _ => rfl

theorem walkNested_filterPartsAll (memberPrefix : String) : ∀ (ds : List Decl) (scope : String),
    (∀ d ∈ ds, d.Scoped) →
      walkNested memberPrefix scope (filterPartsAll keep ds) = walkNested memberPrefix scope ds
  | [], _, _ => rfl
  | d :: ds, scope, h => by
    obtain ⟨hscoped, hrest⟩ := List.forall_mem_cons.mp h
    have hd := walk_filterParts memberPrefix d scope hscoped
    have hds := walkNested_filterPartsAll memberPrefix ds scope hrest
    rw [filterPartsAll]
    cases hdrop : keep d with
    | true =>
      cases d with
      | enumDecl e => exact hds
      | _ =>
        show walk memberPrefix scope (filterParts keep _) ++ walkNested memberPrefix scope _ =
          walk memberPrefix scope _ ++ walkNested memberPrefix scope ds
        rw [hd, hds]
    | false =>
      have hempty := (walk_eq_empty_iff memberPrefix d scope hscoped).mpr
        (needsRecording_of_dropped hkeep hdrop)
      cases d with
      | enumDecl e => exact hds
      | _ =>
        show _ = walk memberPrefix scope _ ++ walkNested memberPrefix scope ds
        rw [hempty, empty_append]
        exact hds

end

end Dropping

end Plan

/-- **What is kept is what is generated.** In a tree of namespaces, classes and enums a declaration
needs recording exactly if its walk, from any scope and with any member prefix, gives a document in
one of the four lists. So dropping declarations that need no recording, anywhere in the tree, changes
none of its documents. -/
theorem needsRecording_iff_documents {d : Decl} (hscoped : d.Scoped) (memberPrefix scope : String) :
    (d.needsRecording = true ↔
        (Plan.walk memberPrefix scope d).reflEnums ≠ [] ∨
          (Plan.walk memberPrefix scope d).reflClasses ≠ [] ∨
          (Plan.walk memberPrefix scope d).bindingEnums ≠ [] ∨
          (Plan.walk memberPrefix scope d).bindingClasses ≠ []) ∧
      ∀ keep : Decl → Bool, (∀ e : Decl, e.needsRecording = true → keep e = true) →
        Plan.walk memberPrefix scope (d.filterParts keep) = Plan.walk memberPrefix scope d := by
  refine ⟨?_, fun keep hkeep => Plan.walk_filterParts hkeep memberPrefix d scope hscoped⟩
  rw [← Plan.ne_empty_iff, ne_eq, Plan.walk_eq_empty_iff memberPrefix d scope hscoped,
    Bool.not_eq_false]

/-- A namespace with an empty one in it and with two classes, of which one wants nothing. The other
wants nothing itself, but a public enum of it is scripted, and for the enum alone all is kept. -/
theorem needsRecording_iff_documents_nested :
    let mode : EnumInfo := { name := "Mode", attrs := { wantsScript := true }, items := ["easy"] }
    let player : Decl := .classDecl "Player" .none { enums := { pub := [mode] } } []
    let game (children : List Decl) : Decl := .namespaceDecl "game" .none children
    let whole := game [.namespaceDecl "empty" .none [], player, .classDecl "Plain" .none {} []]
    whole.Scoped ∧ whole.needsRecording = true ∧
      (Plan.walk "m_" "" whole).bindingEnums = [Plan.enumDoc "::game::Player" mode] ∧
      whole.filterParts (·.needsRecording) = game [player] ∧
      Plan.walk "m_" "" (game [player]) = Plan.walk "m_" "" whole := by
  intro mode player game whole
  have hscoped : whole.Scoped := by decide
  obtain ⟨hneeded, hdrop⟩ := needsRecording_iff_documents hscoped "m_" ""
  have henums : (Plan.walk "m_" "" whole).bindingEnums = [Plan.enumDoc "::game::Player" mode] := by
    decide
  refine ⟨hscoped, hneeded.mpr (.inr (.inr (.inl ?_))), henums, rfl, ?_⟩
  · rw [henums]
    exact List.cons_ne_nil _ _
  · exact hdrop (·.needsRecording) fun e he => he

end HeaderReflect
