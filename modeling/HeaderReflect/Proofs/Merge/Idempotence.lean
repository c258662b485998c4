import HeaderReflect.Proofs.Merge.Commutativity

/-!
Merging known content again. A tree is canonical if at every depth its siblings differ in name or
kind and nothing but namespaces, classes and enums stands in a scope. Exactly the canonical trees
are unchanged by a merge with themselves (`merge_self_iff`): where two siblings share their key they
would be united, and a stray declaration would be refused. By associativity a canonical tree that
went into a merge adds nothing when it is merged in once more (`merge_known`).
-/

namespace HeaderReflect

/-! ## Members -/

theorem addNew_of_subset {α : Type} [DecidableEq α] {known items : List α}
    (h : ∀ x ∈ items, x ∈ known) : addNew known items = known := by
  induction items with
  | nil => rfl
  | cons item rest ih =>
    obtain ⟨hitem, hrest⟩ := List.forall_mem_cons.mp h
    rw [addNew, if_pos hitem, ih hrest]

theorem Members.absorb_self (m : Members) : m.absorb m = m := by
  simp [Members.absorb, ByAccess.absorb, addNew_of_subset]

namespace Decl

/-! ## Canonical trees -/

/-- Siblings differ in name or kind, and only what may stand in a scope stands in one, at every
depth. -/
def Canonical (d : Decl) : Prop :=
  ∀ e ∈ d.parts, (keys e.children).Nodup ∧ ∀ c ∈ e.children, c.isScopeChild = true

theorem canonical_iff {d : Decl} :
    d.Canonical ↔ (keys d.children).Nodup ∧
      ∀ c ∈ d.children, c.isScopeChild = true ∧ c.Canonical := by
  rw [Canonical, forall_parts_iff, and_assoc, ← forall₂_and]
  rfl

/-! ## Placing what is there -/

section Placing

variable {unite : Unite} {siblings ds cs out : List Decl} {d : Decl}

theorem placeWith_known (hnodup : (keys siblings).Nodup) (hmem : d ∈ siblings)
    (hchild : d.isScopeChild = true) (hself : unite d d = .ok d) :
    placeWith unite siblings d = .ok siblings := by
  induction siblings with
  | nil => simp at hmem
  | cons s rest ih =>
    obtain ⟨hs, hrest⟩ := List.nodup_cons.mp hnodup
    rcases List.mem_cons.mp hmem with rfl | hmem
    · rw [placeWith_cons_of_key unite rest hchild rfl, hself]
      rfl
    · have hne : s.key ≠ d.key := fun heq => hs (heq ▸ List.mem_map_of_mem hmem)
      rw [placeWith_cons_of_ne unite rest hchild hne, ih hrest hmem]
      rfl

theorem placeAllWith_known (hnodup : (keys siblings).Nodup)
    (hds : ∀ d ∈ ds, d ∈ siblings ∧ d.isScopeChild = true ∧ unite d d = .ok d) :
    placeAllWith unite siblings ds = .ok siblings := by
  induction ds with
  | nil => rfl
  | cons d ds ih =>
    obtain ⟨⟨hmem, hchild, hself⟩, hrest⟩ := List.forall_mem_cons.mp hds
    rw [placeAllWith_cons, placeWith_known hnodup hmem hchild hself]
    exact ih hrest

/-- Declarations of different keys are only put in a row. -/
theorem placeAllWith_of_nodup (hnodup : (keys (siblings ++ ds)).Nodup)
    (hchild : ∀ d ∈ ds, d.isScopeChild = true) :
    placeAllWith unite siblings ds = .ok (siblings ++ ds) := by
  induction ds generalizing siblings with
  | nil => rw [List.append_nil, placeAllWith]
  | cons d ds ih =>
    obtain ⟨hd, hrest⟩ := List.forall_mem_cons.mp hchild
    have hnew : d.key ∉ keys siblings := by
      intro hmem
      rw [keys_append] at hnodup
      exact (List.nodup_append.mp hnodup).2.2 d.key hmem d.key (List.mem_cons_self ..) rfl
    have happend : siblings ++ d :: ds = siblings ++ [d] ++ ds := by simp
    rw [happend] at hnodup ⊢
    rw [placeAllWith_cons, placeWith_of_not_mem unite hd hnew]
    exact ih hnodup hrest

theorem coalesceWith_of_nodup (hnodup : (keys ds).Nodup)
    (hchild : ∀ d ∈ ds, d.isScopeChild = true) : coalesceWith unite ds = .ok ds :=
  placeAllWith_of_nodup hnodup hchild

theorem isScopeChild_of_placeAllWith (h : placeAllWith unite siblings ds = .ok out) :
    ∀ d ∈ ds, d.isScopeChild = true := by
  induction ds generalizing siblings with
  | nil => simp
  | cons d ds ih =>
    rw [placeAllWith_cons] at h
    obtain ⟨placed, hplaced, h⟩ := ok_of_bind h
    exact List.forall_mem_cons.mpr ⟨(placeWith_cases hplaced).1, ih h⟩

/-- Siblings grouped with themselves stay as they are exactly if they are grouped already and each
stays as it is. -/
theorem coalesceWith_twice_iff (hkeep : KeepsKey unite) :
    coalesceWith unite (cs ++ cs) = .ok cs ↔
      (keys cs).Nodup ∧ ∀ c ∈ cs, c.isScopeChild = true ∧ unite c c = .ok c := by
  constructor
  · intro h
    have hnodup : (keys cs).Nodup := nodup_keys_placeAllWith hkeep h List.nodup_nil
    refine ⟨hnodup, fun c hc => ⟨?_, ?_⟩⟩
    · exact isScopeChild_of_placeAllWith h c (List.mem_append_left _ hc)
    · have hunited := united_coalesceWith hkeep hnodup hnodup h c.key
      rw [sibling?_of_mem hnodup hc] at hunited
      cases hunited with
      | both hself => exact hself
  · rintro ⟨hnodup, hall⟩
    have hfirst : coalesceWith unite cs = .ok cs :=
      coalesceWith_of_nodup hnodup fun c hc => (hall c hc).1
    rw [coalesceWith] at hfirst ⊢
    rw [placeAllWith_append, hfirst]
    exact placeAllWith_known hnodup fun c hc => ⟨hc, hall c hc⟩

end Placing

/-! ## Merging -/

/-- One level of merging a declaration with itself. -/
theorem mergeStep_self_iff {group : List Decl → Except MergeError (List Decl)} {d : Decl} :
    mergeStep group d d = .ok d ↔
      (d.isScope = true → group (d.children ++ d.children) = .ok d.children) := by
  cases d with
  | namespaceDecl n a cs =>
    rw [mergeStep_namespace_left]
    constructor
    · rintro ⟨q, bs, es, ⟨⟩, hg, ⟨⟩⟩ -
      exact hg
    · intro hg
      exact ⟨a, cs, cs, rfl, hg rfl, rfl⟩
  | classDecl n a m cs =>
    rw [mergeStep_class_left]
    constructor
    · rintro ⟨q, k, bs, es, ⟨⟩, hg, hsame⟩ -
      injection hsame with _ _ _ hes
      rwa [← hes] at hg
    · intro hg
      exact ⟨a, m, cs, cs, rfl, hg rfl, by rw [m.absorb_self]⟩
  | enumDecl | fieldDecl | methodDecl | ctorDecl =>
    refine iff_of_true ((mergeStep_leaf_left rfl).mpr ⟨rfl, rfl⟩) fun hscope => ?_
    cases hscope

theorem merge_self_iff_of_scope {d : Decl} (hscope : d.isScope = true)
    (hchildren : (∀ c ∈ d.children, c.isScopeChild = true ∧ merge c c = .ok c) ↔
      ∀ c ∈ d.children, c.isScopeChild = true ∧ c.Canonical) :
    merge d d = .ok d ↔ d.Canonical := by
  rw [merge_eq, mergeStep_self_iff, forall_prop_of_true hscope,
    coalesceWith_twice_iff keepsKey_merge, hchildren, canonical_iff]

mutual

/-- **A merge with itself leaves a declaration unchanged exactly if it is canonical.** -/
theorem merge_self_iff : ∀ d : Decl, merge d d = .ok d ↔ d.Canonical
  | .namespaceDecl _ _ cs | .classDecl _ _ _ cs =>
    merge_self_iff_of_scope rfl (merge_selfAll_iff cs)
  | .enumDecl _ | .fieldDecl _ | .methodDecl _ | .ctorDecl _ => by
    rw [merge_eq, mergeStep_self_iff, canonical_iff]
    simp [isScope, children]

theorem merge_selfAll_iff : ∀ ds : List Decl,
    (∀ d ∈ ds, d.isScopeChild = true ∧ merge d d = .ok d) ↔
      ∀ d ∈ ds, d.isScopeChild = true ∧ d.Canonical
  | [] => by simp
  | d :: ds => by
    rw [List.forall_mem_cons, List.forall_mem_cons, merge_self_iff d, merge_selfAll_iff ds]

end

/-- **Merging known content again changes nothing.** A merge with itself leaves exactly the
canonical trees unchanged. Whatever is merged, a canonical tree of either side can be merged with
the outcome once more, from the side it came from, and the outcome stays the same, orders
included. -/
theorem merge_known (a b : Decl) :
    (merge b b = .ok b ↔ b.Canonical) ∧
      ∀ r, merge a b = .ok r →
        (b.Canonical → merge r b = .ok r) ∧ (a.Canonical → merge a r = .ok r) := by
  have hassoc := associative_iff.mp associative_merge
  refine ⟨merge_self_iff b, fun r h => ⟨fun hb => ?_, fun ha => ?_⟩⟩
  · obtain ⟨ab, hab, hr⟩ := (hassoc a b b r).mpr ⟨b, (merge_self_iff b).mpr hb, h⟩
    rw [h] at hab
    cases hab
    exact hr
  · obtain ⟨ab, hab, hr⟩ := (hassoc a a b r).mp ⟨a, (merge_self_iff a).mpr ha, h⟩
    rw [h] at hab
    cases hab
    exact hr

/-- A scope in which a class stands twice is not canonical and comes out of a merge with itself
changed. The scope that is merged with it, from either side, adds nothing the second time. -/
theorem merge_known_reopened :
    Sample.reopened.Canonical ∧ ¬ Sample.opened.Canonical ∧
      merge Sample.reopened Sample.reopened = .ok Sample.reopened ∧
      merge Sample.opened Sample.opened ≠ .ok Sample.opened ∧
      merge Sample.opened Sample.reopened = .ok Sample.merged ∧
      merge Sample.merged Sample.reopened = .ok Sample.merged ∧
      ∃ r, merge Sample.reopened Sample.opened = .ok r ∧ merge Sample.reopened r = .ok r := by
  have hcanonical : Sample.reopened.Canonical := by unfold Canonical; decide
  have hopened : ¬ Sample.opened.Canonical := by unfold Canonical; decide
  have hmerge : merge Sample.opened Sample.reopened = .ok Sample.merged := by rfl
  obtain ⟨r, hr⟩ : ∃ r, merge Sample.reopened Sample.opened = .ok r := ⟨_, rfl⟩
  obtain ⟨hself, hright⟩ := merge_known Sample.opened Sample.reopened
  obtain ⟨hchanged, hleft⟩ := merge_known Sample.reopened Sample.opened
  exact ⟨hcanonical, hopened, hself.mpr hcanonical, fun h => hopened (hchanged.mp h), hmerge,
    (hright _ hmerge).1 hcanonical, r, hr, (hleft r hr).2 hcanonical⟩

end Decl

end HeaderReflect
