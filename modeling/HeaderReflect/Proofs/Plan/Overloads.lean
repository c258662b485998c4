import HeaderReflect.Cursor.Builder
import HeaderReflect.Proofs.Plan.Classes
import HeaderReflect.Visit
import Mathlib.Data.List.Forall2

/-!
The pointer types in the binding of a class. An overloaded name alone does not say which method is
meant, so an entry may carry the type of the pointer. It does so exactly if the binding exposes
another method of the name (`bindings_sign_exposed_overloads`). Methods that the binding passes over
are not looked at, so the only exposed one of several overloads goes without.
-/

namespace HeaderReflect

namespace Members

/-- The methods of a name, of any access. -/
def overloads (m : Members) (name : String) : List MethodInfo :=
  (m.methods.pub ++ m.methods.prot ++ m.methods.priv).filter (·.name = name)

/-- The methods of a name that a binding exposes. -/
def exposedOverloads (m : Members) (name : String) : List MethodInfo :=
  (Plan.scriptedMethods m).filter (·.name = name)

/-- The methods of a name that a binding passes over: the public ones that want none, and all that
are not public. -/
def hiddenOverloads (m : Members) (name : String) : List MethodInfo :=
  (m.methods.pub.filter (!·.attrs.wantsScript) ++ m.methods.prot ++ m.methods.priv).filter
    (·.name = name)

theorem overloads_perm (m : Members) (name : String) :
    (m.overloads name).Perm (m.exposedOverloads name ++ m.hiddenOverloads name) := by
  have hpub := (List.filter_append_perm (·.attrs.wantsScript) m.methods.pub).symm
  unfold overloads exposedOverloads hiddenOverloads Plan.scriptedMethods
  rw [← List.filter_append]
  refine List.Perm.filter _ ?_
  simp only [← List.append_assoc]
  exact (hpub.append_right _).append_right _

theorem length_overloads (m : Members) (name : String) :
    (m.overloads name).length =
      (m.exposedOverloads name).length + (m.hiddenOverloads name).length := by
  rw [(m.overloads_perm name).length_eq, List.length_append]

theorem mem_exposedOverloads {m : Members} {method : MethodInfo}
    (h : method ∈ Plan.scriptedMethods m) : method ∈ m.exposedOverloads method.name :=
  List.mem_filter.mpr ⟨h, by simp⟩

end Members

namespace Plan

/-- What a binding says about a method that it exposes. -/
structure Introduces (qualified : String) (m : Members) (method : MethodInfo)
    (entry : PropertyDoc) : Prop where
  named : entry.registerName = method.name
  located : entry.qualifiedFieldName = qualified ++ "::" ++ method.name
  /-- The pointer type is that of the method. -/
  pointer : ∀ type ∈ entry.signature, type = pointerType qualified method
  /-- It is there exactly if the binding exposes another method of the name. -/
  signed_iff : entry.signature.isSome ↔ 2 ≤ (m.exposedOverloads method.name).length
  /-- It is never there for a name that the class has once. -/
  overloaded : entry.signature.isSome → 2 ≤ (m.overloads method.name).length
  /-- A name that the class has more than once comes without it exactly if the other methods of the
  name are all hidden. -/
  unsigned_iff : (2 ≤ (m.overloads method.name).length ∧ entry.signature = none) ↔
    m.exposedOverloads method.name = [method] ∧ m.hiddenOverloads method.name ≠ []

section Entry

variable (qualified : String) {m : Members} {method : MethodInfo}

theorem signature_methodProperty :
    (methodProperty qualified (scriptedMethods m) method).signature =
      if 1 < (m.exposedOverloads method.name).length then some (pointerType qualified method)
      else none := rfl

theorem signature_isSome_iff :
    (methodProperty qualified (scriptedMethods m) method).signature.isSome ↔
      2 ≤ (m.exposedOverloads method.name).length := by
  rw [signature_methodProperty]
  split <;> simp <;> omega

theorem signature_eq_none_iff (h : method ∈ scriptedMethods m) :
    (methodProperty qualified (scriptedMethods m) method).signature = none ↔
      m.exposedOverloads method.name = [method] := by
  have hmem := Members.mem_exposedOverloads h
  rw [← Option.not_isSome_iff_eq_none, signature_isSome_iff, Nat.not_le]
  constructor
  · intro hfew
    obtain ⟨only, honly⟩ := List.length_eq_one_iff.mp
      (Nat.le_antisymm (Nat.le_of_lt_succ hfew) (List.length_pos_of_mem hmem))
    rw [honly] at hmem ⊢
    rw [List.mem_singleton.mp hmem]
  · intro honly
    simp [honly]

theorem introduces_methodProperty (h : method ∈ scriptedMethods m) :
    Introduces qualified m method (methodProperty qualified (scriptedMethods m) method) := by
  have hlength := m.length_overloads method.name
  constructor
  case named => rfl
  case located => rfl
  case pointer =>
    intro type htype
    rw [signature_methodProperty] at htype
    split at htype
    · exact (Option.some.inj htype).symm
    · cases htype
  case signed_iff => exact signature_isSome_iff qualified
  case overloaded =>
    intro hsigned
    have hexposed := (signature_isSome_iff qualified).mp hsigned
    omega
  case unsigned_iff =>
    rw [signature_eq_none_iff qualified h, and_comm]
    refine and_congr_right fun honly => ?_
    rw [honly, List.length_singleton] at hlength
    rw [hlength, ← List.length_pos_iff]
    omega

end Entry

/-- The binding of a class has the entries of its fields, which need no pointer type, and after them
one for each exposed method. -/
def IntroducesMethods (p : PlacedClass) (doc : ClassBindingDoc) : Prop :=
  ∃ fields methods, doc.properties = fields ++ methods ∧ (∀ f ∈ fields, f.signature = none) ∧
    List.Forall₂ (Introduces (scopeName (p.scopes ++ [p.name])) p.members)
      (scriptedMethods p.members) methods

theorem introducesMethods_bindingDocOf (memberPrefix : String) (p : PlacedClass) :
    IntroducesMethods p (bindingDocOf memberPrefix p) := by
  refine ⟨_, _, rfl, ?_, ?_⟩
  · intro f hf
    obtain ⟨field, -, rfl⟩ := List.mem_map.mp hf
    rfl
  · rw [List.forall₂_map_right_iff, List.forall₂_same]
    intro method hmethod
    exact introduces_methodProperty _ hmethod

end Plan

/-- **A pointer type where the binding exposes two methods of a name.** The bindings of a header are
those of its classes that want one, and each tells the methods apart that it exposes. It leaves out
the pointer type of an overloaded method in one case only: if no other method of the name is
exposed. -/
theorem bindings_sign_exposed_overloads (memberPrefix path : String) (root : Decl) :
    List.Forall₂ Plan.IntroducesMethods ((root.classes []).filter (·.attrs.wantsScript))
      (planFile memberPrefix path root).fragments.bindingClasses := by
  have hdocs : (planFile memberPrefix path root).fragments.bindingClasses =
      ((root.classes []).filter (·.attrs.wantsScript)).map (Plan.bindingDocOf memberPrefix) :=
    (Plan.classDocs_walk memberPrefix root []).2
  rw [hdocs, List.forall₂_map_right_iff, List.forall₂_same]
  intro p _
  exact Plan.introducesMethods_bindingDocOf memberPrefix p

open Cursor in
/-- Of two methods `Mass` one is kept out of the binding by a veto. The other one is exposed under a
name that the class has twice, and without its pointer type. -/
theorem hidden_overload_leaves_name_unsigned :
    let vetoed := (method "Mass" "float" ["float"]).annotate "nickel(noscript)"
    let body := ((ofKind .classDecl "Body").annotate "nickel(script)").append
      [method "Mass" "float" [], vetoed]
    let header := ((unit "body.hpp").append [body]).located
    let visited := visitSource (fun _ => .ok header) "REFL" "body.hpp" "REFL"
    visited.map (fun root => (root.classes []).map fun p =>
        (p.attrs.wantsScript, (p.members.overloads "Mass").length)) = .ok [(true, 2)] ∧
      visited.map (fun root => (planFile "m_" "body.hpp" root).fragments.bindingClasses) =
        .ok [⟨"::Body", "Body", [⟨"Mass", "::Body::Mass", none⟩], [], []⟩] :=
  ⟨rfl, rfl⟩

end HeaderReflect
