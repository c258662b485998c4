import HeaderReflect.Proofs.Merge.Depth

/-!
Two ways to bring declarations together in a scope. Recording looks for a sibling of the same key
among all that is there and leaves out namespaces without children; a merge groups all children at
once with an index of slots. On any list of declarations both give the same scope or the same
failure, up to the namespaces left out (`recordAll_eq_coalesce`).
-/

namespace HeaderReflect

open Decl

/-- Whether recording leaves the declaration out. -/
def Decl.isChildlessNamespace (d : Decl) : Bool :=
  d.kind = .namespaceScope && d.isEmpty

theorem record_of_childless {d : Decl} (h : d.isChildlessNamespace = true)
    (siblings : List Decl) : record siblings d = .ok siblings := by
  simp only [isChildlessNamespace, Bool.and_eq_true, decide_eq_true_eq] at h
  exact if_pos h

theorem record_of_not_childless {d : Decl} (h : d.isChildlessNamespace = false)
    (siblings : List Decl) : record siblings d = placeWith merge siblings d := by
  refine if_neg fun hempty => ?_
  simp [isChildlessNamespace, hempty] at h

theorem recordAll_cons (siblings : List Decl) (d : Decl) (ds : List Decl) :
    recordAll siblings (d :: ds) = record siblings d >>= fun s => recordAll s ds := rfl

theorem recordAll_append (siblings ds es : List Decl) :
    recordAll siblings (ds ++ es) = recordAll siblings ds >>= fun s => recordAll s es := by
  induction ds generalizing siblings with
  | nil => rfl
  | cons d ds ih =>
    simp only [List.cons_append, recordAll_cons]
    cases record siblings d with
    | error e => rfl
    | ok s => exact ih s

/-- Recording is placing, for all but the namespaces that are left out. -/
theorem recordAll_eq_placeAllWith (siblings ds : List Decl) :
    recordAll siblings ds = placeAllWith merge siblings (ds.filter (!·.isChildlessNamespace)) := by
  induction ds generalizing siblings with
  | nil => rfl
  | cons d ds ih =>
    rw [recordAll_cons]
    cases h : d.isChildlessNamespace with
    | true =>
      rw [record_of_childless h, List.filter_cons_of_neg (by simp [h])]
      exact ih siblings
    | false =>
      rw [record_of_not_childless h, List.filter_cons_of_pos (by simp [h]), placeAllWith_cons]
      cases placeWith merge siblings d with
      | error e => rfl
      | ok s => exact ih s

theorem recordAll_eq (ds : List Decl) :
    recordAll [] ds = coalesce (ds.filter (!·.isChildlessNamespace)) := by
  rw [recordAll_eq_placeAllWith, coalesce_eq, coalesceWith]

/-- Merging two namespaces of one name groups what is nested in both. -/
theorem merge_namespaceDecl (name : String) (a b : Attributes) (cs ds : List Decl) :
    merge (.namespaceDecl name a cs) (.namespaceDecl name b ds) =
      (coalesce (cs ++ ds)).map (.namespaceDecl name a ·) := by
  rw [merge_eq, coalesce_eq, mergeStep, if_pos ⟨rfl, rfl⟩]

/-- **Recording and grouping agree.** Whatever the declarations are, recording them one after
another in an empty scope gives the same children or the same error as grouping those that are no
namespaces without children. So two namespaces of one name without such children are merged as if
all children of the first and then all children of the second were recorded in an empty scope. -/
theorem recordAll_eq_coalesce :
    (∀ ds : List Decl, recordAll [] ds = coalesce (ds.filter (!·.isChildlessNamespace))) ∧
      ∀ (name : String) (a b : Attributes) (cs ds : List Decl),
        (∀ d ∈ cs ++ ds, d.isChildlessNamespace = false) →
          merge (.namespaceDecl name a cs) (.namespaceDecl name b ds) =
            (recordAll [] cs >>= fun siblings => recordAll siblings ds).map
              (.namespaceDecl name a ·) := by
  refine ⟨recordAll_eq, fun name a b cs ds hall => ?_⟩
  have hkept : (cs ++ ds).filter (!·.isChildlessNamespace) = cs ++ ds :=
    List.filter_eq_self.mpr fun d hd => by simp [hall d hd]
  rw [merge_namespaceDecl, ← recordAll_append, recordAll_eq, hkept]

/-- A namespace with a class, a namespace and an enum is opened again: with the enum once more it
takes in what is new, and with another enum of that name it is refused. -/
theorem recordAll_eq_coalesce_reopened :
    let mode (items : List String) : Decl := .enumDecl { name := "Mode", attrs := .none, items }
    let player (children : List Decl) : Decl := .classDecl "Player" .none {} children
    let game (children : List Decl) : Decl := .namespaceDecl "game" .none children
    let first := [player [], .namespaceDecl "ui" .none [mode ["dark"]], mode ["easy", "hard"]]
    let second := [mode ["easy", "hard"], player [player []]]
    let other := [player [player []], mode ["easy"]]
    let joined := [player [player []], .namespaceDecl "ui" .none [mode ["dark"]],
      mode ["easy", "hard"]]
    (∀ d ∈ first ++ second, d.isChildlessNamespace = false) ∧
      merge (game first) (game second) = .ok (game joined) ∧
      (recordAll [] first >>= fun siblings => recordAll siblings second).map game =
        .ok (game joined) ∧
      merge (game first) (game other) = .error (.conflict "Mode" .enumeration) ∧
      (recordAll [] first >>= fun siblings => recordAll siblings other).map game =
        .error (.conflict "Mode" .enumeration) := by
  intro mode player game first second other joined
  have hsecond : ∀ d ∈ first ++ second, d.isChildlessNamespace = false := by
    simp [first, second, player, mode, isChildlessNamespace, kind, isEmpty, children]
  have hother : ∀ d ∈ first ++ other, d.isChildlessNamespace = false := by
    simp [first, other, player, mode, isChildlessNamespace, kind, isEmpty, children]
  have hjoined : merge (game first) (game second) = .ok (game joined) := by rfl
  have hrefused : merge (game first) (game other) = .error (.conflict "Mode" .enumeration) := by
    rfl
  have hrecorded := recordAll_eq_coalesce.2 "game" .none .none first second hsecond
  have hrecordedOther := recordAll_eq_coalesce.2 "game" .none .none first other hother
  exact ⟨hsecond, hjoined, hrecorded.symm.trans hjoined, hrefused,
    hrecordedOther.symm.trans hrefused⟩

end HeaderReflect
