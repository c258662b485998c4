import HeaderReflect.Proofs.Plan.Classes
import HeaderReflect.Proofs.Visit.Reachable
import Mathlib.Data.List.Induction
import Mathlib.Tactic.SplitIfs

/-!
What a class cursor becomes in the declaration tree, and that it has the documents that can be read
off the cursor: the wishes handed down to it are the tags on the way, and its members are its
children by kind and access.
-/

namespace HeaderReflect

/-! ## Wishes -/

def Attributes.wants (a : Attributes) : Stream → Bool
  | .reflection => a.wantsReflection
  | .script => a.wantsScript

def Attributes.vetoes (a : Attributes) : Stream → Bool
  | .reflection => a.forceNoReflection
  | .script => a.forceNoScript

theorem Attributes.anyNeed_iff {a : Attributes} :
    a.anyNeed = true ↔ ∃ s, a.wants s = true := by
  constructor
  · intro h
    rcases Bool.or_eq_true_iff.mp h with h | h
    · exact ⟨.reflection, h⟩
    · exact ⟨.script, h⟩
  · rintro ⟨s, hs⟩
    cases s with
    | reflection => exact Bool.or_eq_true_iff.mpr (.inl hs)
    | script => exact Bool.or_eq_true_iff.mpr (.inr hs)

/-- A tag sets the flag it names and no other. -/
theorem Attributes.addTag_flags (a : Attributes) (tag : List Char) (s : Stream) :
    (a.addTag tag).wants s = (a.wants s || tag == s.need.toList) ∧
      (a.addTag tag).vetoes s = (a.vetoes s || tag == s.veto.toList) := by
  have hdiff : "refl".toList ≠ "norefl".toList ∧ "refl".toList ≠ "script".toList ∧
      "refl".toList ≠ "noscript".toList ∧ "norefl".toList ≠ "script".toList ∧
      "norefl".toList ≠ "noscript".toList ∧ "script".toList ≠ "noscript".toList := by decide
  unfold addTag
  cases s <;> simp only [Stream.need, Stream.veto] <;> split_ifs <;>
    simp_all [wants, vetoes]

theorem Attributes.foldl_addTag_flags (tags : List (List Char)) (a : Attributes) (s : Stream) :
    (tags.foldl addTag a).wants s = (a.wants s || tags.contains s.need.toList) ∧
      (tags.foldl addTag a).vetoes s = (a.vetoes s || tags.contains s.veto.toList) := by
  induction tags generalizing a with
  | nil => simp
  | cons tag tags ih =>
    obtain ⟨hw, hv⟩ := ih (a.addTag tag)
    obtain ⟨hw', hv'⟩ := a.addTag_flags tag s
    constructor
    · rw [List.foldl_cons, hw, hw', List.contains_cons, Bool.or_assoc, BEq.comm (a := tag)]
    · rw [List.foldl_cons, hv, hv', List.contains_cons, Bool.or_assoc, BEq.comm (a := tag)]

theorem Cursor.ownAttributes_flags (c : Cursor) (s : Stream) :
    c.ownAttributes.wants s = c.hasTag s.need ∧ c.ownAttributes.vetoes s = c.hasTag s.veto := by
  have hnone : Attributes.none.wants s = false ∧ Attributes.none.vetoes s = false := by
    cases s <;> exact ⟨rfl, rfl⟩
  unfold Cursor.ownAttributes Cursor.hasTag Cursor.tags
  cases c.annotationText? with
  | none => simpa using hnone
  | some text =>
    simp only [Attributes.parse]
    cases Attributes.body? text.toList with
    | none => simpa using hnone
    | some body =>
      obtain ⟨hw, hv⟩ := Attributes.foldl_addTag_flags (Attributes.tags body) Attributes.none s
      simpa [hnone.1, hnone.2] using And.intro hw hv

/-- The wishes handed down along a way. -/
def wishes (way : List Cursor) : Attributes :=
  way.foldl (fun scope c => c.attributesIn scope) Attributes.none

theorem wishes_append (way : List Cursor) (c : Cursor) :
    wishes (way ++ [c]) = c.attributesIn (wishes way) := by
  simp [wishes, List.foldl_append]

theorem Attributes.effective_flags (own scope : Attributes) (s : Stream) :
    (effective own scope).vetoes s = (own.vetoes s || scope.vetoes s) ∧
      (effective own scope).wants s =
        (!(own.vetoes s || scope.vetoes s) && (own.wants s || scope.wants s)) := by
  cases s <;> exact ⟨rfl, rfl⟩

/-- A veto is handed down from wherever it stands, and a need as far as there is no veto. -/
theorem wishes_flags (way : List Cursor) (s : Stream) :
    (wishes way).wants s = s.isAsked way ∧ (wishes way).vetoes s = way.any (·.hasTag s.veto) := by
  induction way using List.reverseRecOn with
  | nil => cases s <;> exact ⟨rfl, rfl⟩
  | append_singleton way c ih =>
    obtain ⟨hw, hv⟩ := ih
    obtain ⟨hcw, hcv⟩ := c.ownAttributes_flags s
    obtain ⟨hev, hew⟩ := Attributes.effective_flags c.ownAttributes (wishes way) s
    rw [wishes_append, Cursor.attributesIn, hew, hev, hw, hv, hcw, hcv]
    simp only [Stream.isAsked, List.any_append, List.any_cons, List.any_nil, Bool.or_false]
    cases way.any (·.hasTag s.need) <;> cases way.any (·.hasTag s.veto) <;>
      cases c.hasTag s.need <;> cases c.hasTag s.veto <;> exact ⟨rfl, rfl⟩

/-! ## Members -/

namespace Cursor

/-- Whether a cursor is of a kind and declared with an access. -/
def declares (kind : CursorKind) (access : Access) (c : Cursor) : Bool :=
  c.kind = kind && c.info.access = some access

/-- The members of a class by access are its children by kind and access, in order. -/
theorem get_membersOf (scope : Attributes) (cs : List Cursor) (access : Access) :
    (membersOf scope cs).fields.get access =
        (cs.filter (declares .fieldDecl access)).map (fieldInfo scope) ∧
      (membersOf scope cs).methods.get access =
        (cs.filter (declares .method access)).map (methodInfo scope) ∧
      (membersOf scope cs).enums.get access =
        ((cs.filter (declares .enumDecl access)).filter (·.info.isDefinition)).map
          (enumInfo scope) ∧
      (membersOf scope cs).ctors.get access =
        (cs.filter (declares .constructor access)).map (ctorInfo scope) := by
  induction cs using List.reverseRecOn with
  | nil => cases access <;> exact ⟨rfl, rfl, rfl, rfl⟩
  | append_singleton cs c ih =>
    obtain ⟨hf, hm, he, hc⟩ := ih
    have hsnoc : membersOf scope (cs ++ [c]) = addMember scope (membersOf scope cs) c := by
      simp [membersOf, List.foldl_append]
    rw [hsnoc]
    simp only [List.filter_append, List.map_append, ← hf, ← hm, ← he, ← hc]
    unfold addMember
    cases hk : c.kind <;> cases ha : c.info.access with
    | none => simp [declares, hk, ha]
    | some a =>
      rcases eq_or_ne a access with rfl | hne
      · cases hd : c.info.isDefinition <;> simp [declares, hk, ha, hd, ByAccess.get_push]
      · cases hd : c.info.isDefinition <;>
          simp [declares, hk, ha, hne, hne.symm, ByAccess.get_push]

end Cursor

/-! ## Documents -/

namespace ReachedClass

/-- The class as it stands in the declaration tree. -/
def placed (r : ReachedClass) : PlacedClass where
  scopes := r.scopes.map (·.spelling)
  name := r.cursor.spelling
  attrs := wishes r.chain
  members := Cursor.membersOf (wishes r.chain) r.cursor.children

theorem path_placed (r : ReachedClass) : r.placed.path = r.path := rfl

theorem wants_placed (r : ReachedClass) (s : Stream) :
    r.placed.attrs.wants s = s.isAsked r.chain :=
  (wishes_flags r.chain s).1

theorem scopeName_placed (r : ReachedClass) :
    Plan.scopeName (r.placed.scopes ++ [r.placed.name]) = r.qualifiedName := by
  have hfold : ∀ (names : List String) (q : String), names.foldl Plan.qualify q =
      (names.filter (· ≠ "")).foldl (fun q name => q ++ "::" ++ name) q := by
    intro names
    induction names with
    | nil => intro q; rfl
    | cons name names ih =>
      intro q
      by_cases h : name = ""
      · simp [List.foldl_cons, Plan.qualify, h, ih]
      · simp [List.foldl_cons, Plan.qualify, h, ih]
  simp [Plan.scopeName, qualifiedName, chain, placed, hfold]

/-- A member is asked for exactly if the wishes handed down to it say so. -/
theorem wants_member (r : ReachedClass) (s : Stream) (c : Cursor) :
    (c.attributesIn (wishes r.chain)).wants s = r.asksFor s c := by
  rw [← wishes_append]
  exact (wishes_flags (r.chain ++ [c]) s).1

theorem publicChildren_eq (r : ReachedClass) (kind : CursorKind) :
    r.publicChildren kind = r.cursor.children.filter (Cursor.declares kind .isPublic) := rfl

/-- The wanted ones among members that stem from children are the exposed children. -/
theorem filter_map_exposed {α : Type} (r : ReachedClass) (s : Stream) (f : Cursor → α)
    (wanted : α → Bool) (h : ∀ c, wanted (f c) = r.asksFor s c) (cs : List Cursor) :
    (cs.map f).filter wanted = (cs.filter (r.asksFor s)).map f := by
  have hf : wanted ∘ f = r.asksFor s := funext h
  rw [List.filter_map, hf]

theorem reflDocOf_placed (memberPrefix : String) (r : ReachedClass) :
    Plan.reflDocOf memberPrefix r.placed = r.reflDoc memberPrefix := by
  have hfields := (Cursor.get_membersOf (wishes r.chain) r.cursor.children .isPublic).1
  simp only [ByAccess.get] at hfields
  unfold Plan.reflDocOf Plan.classReflDoc reflDoc
  rw [scopeName_placed]
  congr 1
  simp only [placed, hfields]
  rw [filter_map_exposed r .reflection _ _ fun c => r.wants_member .reflection c, List.map_map]
  rfl

theorem scriptedMethods_placed (r : ReachedClass) :
    Plan.scriptedMethods r.placed.members =
      (r.exposed .script .method).map (Cursor.methodInfo (wishes r.chain)) := by
  have hmethods := (Cursor.get_membersOf (wishes r.chain) r.cursor.children .isPublic).2.1
  simp only [ByAccess.get] at hmethods
  simp only [Plan.scriptedMethods, placed, hmethods]
  rw [filter_map_exposed r .script _ _ fun c => r.wants_member .script c]
  rfl

theorem bindingDocOf_placed (memberPrefix : String) (r : ReachedClass) :
    Plan.bindingDocOf memberPrefix r.placed = r.bindingDoc memberPrefix := by
  obtain ⟨hfields, -, henums, hctors⟩ :=
    Cursor.get_membersOf (wishes r.chain) r.cursor.children .isPublic
  simp only [ByAccess.get] at hfields henums hctors
  unfold Plan.bindingDocOf Plan.classBindingDoc bindingDoc
  rw [scopeName_placed, scriptedMethods_placed]
  congr 1
  · congr 1
    · simp only [placed, hfields]
      rw [filter_map_exposed r .script _ _ fun c => r.wants_member .script c, List.map_map]
      rfl
    · rw [List.map_map]
      refine List.map_congr_left fun c _ => ?_
      have hsame : (((r.exposed .script .method).map (Cursor.methodInfo (wishes r.chain))).filter
            (·.name = c.spelling)).length =
          ((r.exposed .script .method).filter (·.spelling = c.spelling)).length := by
        rw [List.filter_map, List.length_map]
        rfl
      unfold Function.comp Plan.methodProperty methodDoc
      rw [← hsame]
      rfl
  · simp only [placed, henums]
    have hcomm : ∀ cs : List Cursor, (cs.filter (·.info.isDefinition)).filter (r.asksFor .script) =
        (cs.filter (r.asksFor .script)).filter (·.info.isDefinition) := by
      intro cs
      rw [List.filter_filter, List.filter_filter]
      simp only [Bool.and_comm]
    rw [filter_map_exposed r .script _ _ fun c => r.wants_member .script c, List.map_map, hcomm]
    refine List.map_congr_left fun c _ => ?_
    simp [Plan.enumDoc, enumDoc, Cursor.enumInfo, Function.comp_def]
  · simp only [placed, hctors, publicChildren_eq]
    cases (r.cursor.children.filter (Cursor.declares .constructor .isPublic)) with
    | nil => rfl
    | cons c cs =>
      have hc := r.wants_member .script c
      simp only [Attributes.wants] at hc
      simp only [List.map_cons, List.head?_cons, Option.filter_some, Cursor.ctorInfo, hc]
      split <;> rfl

end ReachedClass

end HeaderReflect
