import HeaderReflect.Proofs.Merge.Depth
import HeaderReflect.Visit

/-!
Trees seen through a view of their members. A view may hide members of a class, but not the public
enums that decide whether the class is kept; everything else of a tree stays. Merging and recording
give the same outcome, or the same failure, seen through a view before or after
(`merge_mapMembers`, `recordIfNeeded_mapMembers`).
-/

namespace HeaderReflect

/-- What comes after a step seen through `f` may itself be seen through `g`. -/
theorem map_bind_eq {ε α β γ δ : Type} {f : α → β} {g : γ → δ} {next : β → Except ε δ}
    {after : α → Except ε γ} (h : ∀ a, next (f a) = (after a).map g) (x : Except ε α) :
    (x.map f >>= next) = (x >>= after).map g := by
  cases x with
  | error e => rfl
  | ok a => exact h a

/-- A way of looking at members that taking in another class's members does not disturb. -/
structure MemberView (view : Members → Members) : Prop where
  empty : view {} = {}
  absorb : ∀ m k, view (m.absorb k) = (view m).absorb (view k)
  enums : ∀ m, (view m).enums.pub = m.enums.pub

theorem MemberView.id : MemberView id := ⟨rfl, fun _ _ => rfl, fun _ => rfl⟩

namespace Decl

mutual

/-- The tree in which the members of every class are seen through a view. -/
def mapMembers (view : Members → Members) : Decl → Decl
  | .namespaceDecl name attrs children => .namespaceDecl name attrs (mapMembersAll view children)
  | .classDecl name attrs members children =>
    .classDecl name attrs (view members) (mapMembersAll view children)
  | d => d

def mapMembersAll (view : Members → Members) : List Decl → List Decl
  | [] => []
  | d :: rest => d.mapMembers view :: mapMembersAll view rest

end

section Shape

variable (view : Members → Members)

theorem mapMembersAll_eq (ds : List Decl) : mapMembersAll view ds = ds.map (mapMembers view) := by
  induction ds with
  | nil => rfl
  | cons d ds ih => rw [mapMembersAll, ih, List.map_cons]

@[simp] theorem mapMembers_namespaceDecl (name : String) (attrs : Attributes) (ds : List Decl) :
    (Decl.namespaceDecl name attrs ds).mapMembers view =
      .namespaceDecl name attrs (ds.map (mapMembers view)) := by
  rw [mapMembers, mapMembersAll_eq]

@[simp] theorem mapMembers_classDecl (name : String) (attrs : Attributes) (m : Members)
    (ds : List Decl) : (Decl.classDecl name attrs m ds).mapMembers view =
      .classDecl name attrs (view m) (ds.map (mapMembers view)) := by
  rw [mapMembers, mapMembersAll_eq]

@[simp] theorem name_mapMembers (d : Decl) : (d.mapMembers view).name = d.name := by
  cases d <;> rfl

@[simp] theorem kind_mapMembers (d : Decl) : (d.mapMembers view).kind = d.kind := by
  cases d <;> rfl

@[simp] theorem key_mapMembers (d : Decl) : (d.mapMembers view).key = d.key := by
  simp [key]

@[simp] theorem isEmpty_mapMembers (d : Decl) : (d.mapMembers view).isEmpty = d.isEmpty := by
  cases d <;> simp [isEmpty, children, mapMembers, mapMembersAll_eq]

mutual

theorem mapMembers_id : ∀ d : Decl, d.mapMembers id = d
  | .namespaceDecl name attrs ds => by rw [mapMembers, mapMembersAll_id ds]
  | .classDecl name attrs m ds => by rw [mapMembers, mapMembersAll_id ds, id]
  | .enumDecl _ | .fieldDecl _ | .methodDecl _ | .ctorDecl _ => rfl

theorem mapMembersAll_id : ∀ ds : List Decl, mapMembersAll id ds = ds
  | [] => rfl
  | d :: ds => by rw [mapMembersAll, mapMembers_id d, mapMembersAll_id ds]

end

mutual

theorem height_mapMembers : ∀ d : Decl, (d.mapMembers view).height = d.height
  | .namespaceDecl _ _ ds | .classDecl _ _ _ ds => by
    rw [mapMembers, height, height, heightAll_mapMembersAll ds]
  | .enumDecl _ | .fieldDecl _ | .methodDecl _ | .ctorDecl _ => rfl

theorem heightAll_mapMembersAll : ∀ ds : List Decl,
    heightAll (mapMembersAll view ds) = heightAll ds
  | [] => rfl
  | d :: ds => by
    rw [mapMembersAll, heightAll, heightAll, height_mapMembers d, heightAll_mapMembersAll ds]

end

end Shape

/-! ## Placing -/

section Placing

variable {unite : Unite} {f : Decl → Decl}

theorem placeWith_map (hkey : ∀ d, (f d).key = d.key)
    (hunite : ∀ a b, unite (f a) (f b) = (unite a b).map f) (siblings : List Decl) (d : Decl) :
    placeWith unite (siblings.map f) (f d) = (placeWith unite siblings d).map (List.map f) := by
  have hchild : (f d).isScopeChild = d.isScopeChild := isScopeChild_of_key (hkey d)
  cases hd : d.isScopeChild with
  | false =>
    obtain ⟨hname, hkind⟩ := Prod.mk.inj (hkey d)
    rw [placeWith_of_not_scopeChild _ _ hd, placeWith_of_not_scopeChild _ _ (hchild.trans hd),
      hname, hkind]
    rfl
  | true =>
    have hfd := hchild.trans hd
    induction siblings with
    | nil =>
      rw [List.map_nil, placeWith_nil _ hd, placeWith_nil _ hfd]
      rfl
    | cons s rest ih =>
      rw [List.map_cons]
      by_cases hs : s.key = d.key
      · have hfs : (f s).key = (f d).key := by rw [hkey, hkey, hs]
        rw [placeWith_cons_of_key _ _ hd hs, placeWith_cons_of_key _ _ hfd hfs, hunite]
        cases unite s d <;> rfl
      · have hfs : (f s).key ≠ (f d).key := by rwa [hkey, hkey]
        rw [placeWith_cons_of_ne _ _ hd hs, placeWith_cons_of_ne _ _ hfd hfs, ih]
        cases placeWith unite rest d <;> rfl

theorem placeAllWith_map (hkey : ∀ d, (f d).key = d.key)
    (hunite : ∀ a b, unite (f a) (f b) = (unite a b).map f) (siblings ds : List Decl) :
    placeAllWith unite (siblings.map f) (ds.map f) =
      (placeAllWith unite siblings ds).map (List.map f) := by
  induction ds generalizing siblings with
  | nil => rfl
  | cons d ds ih =>
    rw [List.map_cons, placeAllWith_cons, placeAllWith_cons, placeWith_map hkey hunite]
    exact map_bind_eq ih _

end Placing

/-! ## Merging and recording -/

mutual

theorem needsRecording_mapMembers {view : Members → Members} (hview : MemberView view) :
    ∀ d : Decl, (d.mapMembers view).needsRecording = d.needsRecording
  | .namespaceDecl _ _ ds => by
    rw [mapMembers, needsRecording, needsRecording, anyNeedsRecording_mapMembersAll hview ds]
  | .classDecl _ _ m ds => by
    rw [mapMembers, needsRecording, needsRecording, anyNeedsRecording_mapMembersAll hview ds,
      hview.enums]
  | .enumDecl _ | .fieldDecl _ | .methodDecl _ | .ctorDecl _ => rfl

theorem anyNeedsRecording_mapMembersAll {view : Members → Members} (hview : MemberView view) :
    ∀ ds : List Decl, anyNeedsRecording (mapMembersAll view ds) = anyNeedsRecording ds
  | [] => rfl
  | d :: ds => by
    rw [mapMembersAll, anyNeedsRecording, anyNeedsRecording, needsRecording_mapMembers hview d,
      anyNeedsRecording_mapMembersAll hview ds]

end

section View

variable {view : Members → Members} (hview : MemberView view)

include hview

theorem mergeStep_mapMembers {group : List Decl → Except MergeError (List Decl)}
    (hgroup : ∀ ds, group (ds.map (mapMembers view)) = (group ds).map (List.map (mapMembers view)))
    (t i : Decl) :
    mergeStep group (t.mapMembers view) (i.mapMembers view) =
      (mergeStep group t i).map (mapMembers view) := by
  by_cases hkind : t.kind = i.kind
  · -- Declarations that are no scopes stay as they are, and a merge of two gives the first.
    have hleaf (d e : Decl) (hd : d.isScope = false) (hsame : d.mapMembers view = d) :
        mergeStep group d e = (mergeStep group d e).map (mapMembers view) := by
      cases hr : mergeStep group d e with
      | error => rfl
      | ok r =>
        rcases mergeStep_ok_iff.mp hr with ⟨n, a, b, cs, ds, es, rfl, -⟩ |
          ⟨n, a, b, m, k, cs, ds, es, rfl, -⟩ | ⟨-, -, rfl⟩
        · cases hd
        · cases hd
        · rw [Except.map, hsame]
    cases t with
    | namespaceDecl n a cs =>
      cases i with
      | namespaceDecl m b ds =>
        simp only [mapMembers_namespaceDecl, mergeStep, name, kind, and_true]
        split
        · rw [← List.map_append, hgroup]
          cases group (cs ++ ds) with
          | error => rfl
          | ok es => simp [Except.map]
        · rfl
      | _ => cases hkind
    | classDecl n a m cs =>
      cases i with
      | classDecl l b k ds =>
        simp only [mapMembers_classDecl, mergeStep, name, kind, and_true]
        split
        · rw [← List.map_append, hgroup]
          cases group (cs ++ ds) with
          | error => rfl
          | ok es => simp [Except.map, hview.absorb]
        · rfl
      | _ => cases hkind
    | enumDecl | fieldDecl | methodDecl | ctorDecl =>
      cases i with
      | namespaceDecl | classDecl => cases hkind
      | _ => exact hleaf _ _ rfl rfl
  · have hmismatch (d e : Decl) (h : d.kind ≠ e.kind) :
        mergeStep group d e = .error (.kindMismatch e.name d.kind e.kind) := by
      unfold mergeStep
      exact if_neg fun hkey => h hkey.2
    rw [hmismatch t i hkind, hmismatch _ _ (by simpa using hkind)]
    simp [Except.map]

theorem mergeWithin_mapMembers (depth : Nat) (t i : Decl) :
    mergeWithin depth (t.mapMembers view) (i.mapMembers view) =
      (mergeWithin depth t i).map (mapMembers view) := by
  induction depth generalizing t i with
  | zero => rfl
  | succ depth ih =>
    rw [mergeWithin_succ]
    refine mergeStep_mapMembers hview (fun ds => ?_) t i
    exact placeAllWith_map (key_mapMembers view) ih [] ds

/-- Merging what is seen gives what is seen of the merge. -/
theorem merge_mapMembers (t i : Decl) :
    merge (t.mapMembers view) (i.mapMembers view) = (merge t i).map (mapMembers view) := by
  rw [merge, height_mapMembers, height_mapMembers, mergeWithin_mapMembers hview]
  rfl

theorem record_mapMembers (siblings : List Decl) (d : Decl) :
    record (siblings.map (mapMembers view)) (d.mapMembers view) =
      (record siblings d).map (List.map (mapMembers view)) := by
  unfold record
  rw [kind_mapMembers, isEmpty_mapMembers]
  split
  · rfl
  · exact placeWith_map (key_mapMembers view) (merge_mapMembers hview) siblings d

/-- Recording what is seen among what is seen gives what is seen of the record. -/
theorem recordIfNeeded_mapMembers (siblings : List Decl) (d : Decl) :
    recordIfNeeded (siblings.map (mapMembers view)) (d.mapMembers view) =
      (recordIfNeeded siblings d).map (List.map (mapMembers view)) := by
  unfold recordIfNeeded
  rw [needsRecording_mapMembers hview]
  split
  · exact record_mapMembers hview siblings d
  · rfl

end View

end Decl

end HeaderReflect
