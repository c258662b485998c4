import HeaderReflect.Proofs.Merge.Facts

/-!
The shape of a recorded tree. In a tidy scope no two siblings share their key, only what may stand
in the scope stands there, and nothing stands there without need. Recording what is tidy among tidy
siblings leaves them tidy (`Recorded.placeWith`), and so does merging two trees that are tidy all
the way down (`keepsRecordable_merge`). What is kept is the first declaration's own need, so that its
attributes alone survive a merge does no harm here.
-/

namespace HeaderReflect

namespace Decl

/-! ## Parts of a tree -/

mutual

/-- The declaration and all that is nested in it, at any depth. -/
def parts : Decl → List Decl
  | .namespaceDecl name attrs children => .namespaceDecl name attrs children :: partsAll children
  | .classDecl name attrs members children =>
    .classDecl name attrs members children :: partsAll children
  | d => [d]

def partsAll : List Decl → List Decl
  | [] => []
  | d :: rest => d.parts ++ partsAll rest

end

theorem parts_eq (d : Decl) : d.parts = d :: partsAll d.children := by
  cases d <;> simp [parts, partsAll, children]

theorem mem_partsAll {ds : List Decl} {e : Decl} : e ∈ partsAll ds ↔ ∃ d ∈ ds, e ∈ d.parts := by
  induction ds with
  | nil => simp [partsAll]
  | cons d ds ih => simp [partsAll, ih]

theorem forall_parts_iff {P : Decl → Prop} {d : Decl} :
    (∀ e ∈ d.parts, P e) ↔ P d ∧ ∀ c ∈ d.children, ∀ e ∈ c.parts, P e := by
  simp only [parts_eq d, List.forall_mem_cons, mem_partsAll]
  refine and_congr_right fun _ => ⟨?_, ?_⟩
  · intro h c hc e he
    exact h e ⟨c, hc, he⟩
  · rintro h e ⟨c, hc, he⟩
    exact h c hc e he

/-! ## Tidy scopes -/

/-- What stands in a scope once everything in it was recorded. -/
structure Tidy (d : Decl) : Prop where
  distinct : (keys d.children).Nodup
  scopeChild : ∀ c ∈ d.children, c.isScopeChild = true
  onlyClasses : d.kind = .classScope → ∀ c ∈ d.children, c.kind = .classScope
  occupied : ∀ c ∈ d.children, c.kind = .namespaceScope → c.children ≠ []
  needed : ∀ c ∈ d.children, c.needsRecording = true

/-- A tree that is tidy all the way down and may itself be recorded in a scope. -/
structure Recordable (d : Decl) : Prop where
  tidy : ∀ e ∈ d.parts, e.Tidy
  scopeChild : d.isScopeChild = true
  occupied : d.kind = .namespaceScope → d.children ≠ []
  needed : d.needsRecording = true

theorem anyNeedsRecording_iff {ds : List Decl} :
    anyNeedsRecording ds = true ↔ ∃ d ∈ ds, d.needsRecording = true := by
  induction ds with
  | nil => simp [anyNeedsRecording]
  | cons d ds ih => simp [anyNeedsRecording, ih]

theorem anyNeedsRecording_of_ne_nil {ds : List Decl} (hne : ds ≠ [])
    (hneeded : ∀ d ∈ ds, d.needsRecording = true) : anyNeedsRecording ds = true := by
  cases ds with
  | nil => exact absurd rfl hne
  | cons d ds =>
    exact anyNeedsRecording_iff.mpr ⟨d, List.mem_cons_self .., hneeded d (List.mem_cons_self ..)⟩

end Decl

/-- Siblings of which each is tidy all the way down and needed, no two with one key. -/
structure Recorded (siblings : List Decl) : Prop where
  distinct : (Decl.keys siblings).Nodup
  recordable : ∀ c ∈ siblings, c.Recordable

namespace Recorded

open Decl

theorem nil : Recorded [] := ⟨by simp, by simp⟩

/-- A scope around such siblings is tidy all the way down. -/
theorem tidy (d : Decl) (h : Recorded d.children)
    (hclasses : d.kind = .classScope → ∀ c ∈ d.children, c.kind = .classScope) :
    ∀ e ∈ d.parts, e.Tidy := by
  refine forall_parts_iff.mpr ⟨?_, fun c hc => (h.recordable c hc).tidy⟩
  exact ⟨h.distinct, fun c hc => (h.recordable c hc).scopeChild, hclasses,
    fun c hc => (h.recordable c hc).occupied, fun c hc => (h.recordable c hc).needed⟩

theorem of_tidy {d : Decl} (h : ∀ e ∈ d.parts, e.Tidy) : Recorded d.children := by
  obtain ⟨hd, hchildren⟩ := forall_parts_iff.mp h
  exact ⟨hd.distinct, fun c hc =>
    ⟨hchildren c hc, hd.scopeChild c hc, hd.occupied c hc, hd.needed c hc⟩⟩

end Recorded

namespace Decl

/-! ## Merging -/

/-- Uniting two declarations that may be recorded gives one that may. -/
def KeepsRecordable (t i r : Decl) : Prop := t.Recordable → i.Recordable → r.Recordable

section Grouping

variable {unite : Unite}

theorem recorded_placeAllWith (hkeep : KeepsKey unite)
    (hunite : ∀ t i r, unite t i = .ok r → KeepsRecordable t i r) {siblings ds out : List Decl}
    (hs : Recorded siblings) (hd : ∀ d ∈ ds, d.Recordable)
    (h : placeAllWith unite siblings ds = .ok out) : Recorded out where
  distinct := nodup_keys_placeAllWith hkeep h hs.distinct
  recordable := forall_placeAllWith (fun a b r ha hb hr => hunite a b r hr ha hb) hs.recordable hd h

/-- Nothing that stood in a scope is lost when more is grouped with it. -/
theorem ne_nil_of_coalesceWith (hkeep : KeepsKey unite) {cs ds es : List Decl}
    (h : coalesceWith unite (cs ++ ds) = .ok es) (hne : cs ≠ []) : es ≠ [] := by
  rintro rfl
  obtain ⟨c, hc⟩ := List.exists_mem_of_ne_nil cs hne
  have hkeys := keys_placeAllWith hkeep h
  have hmem : c.key ∈ addNew (keys []) (keys (cs ++ ds)) :=
    mem_addNew.mpr (.inr (List.mem_map.mpr ⟨c, List.mem_append_left _ hc, rfl⟩))
  rw [← hkeys] at hmem
  simp at hmem

theorem kind_of_coalesceWith (hkeep : KeepsKey unite) {k : Kind} {ds es : List Decl}
    (h : coalesceWith unite ds = .ok es) (hkind : ∀ d ∈ ds, d.kind = k) : ∀ e ∈ es, e.kind = k := by
  refine forall_placeAllWith (P := fun d => d.kind = k) ?_ (by simp) hkind h
  intro a b r ha _ hr
  exact (congrArg Prod.snd (hkeep a b r hr)).trans ha

end Grouping

theorem any_pub_absorb {m k : Members}
    (h : m.enums.pub.any (·.attrs.anyNeed) = true) :
    (m.absorb k).enums.pub.any (·.attrs.anyNeed) = true := by
  obtain ⟨e, he, hneed⟩ := List.any_eq_true.mp h
  exact List.any_eq_true.mpr ⟨e, mem_addNew.mpr (.inl he), hneed⟩

/-- **Merging keeps trees tidy.** -/
theorem keepsRecordable_merge {t i r : Decl} (h : merge t i = .ok r) : KeepsRecordable t i r := by
  refine merge_induction (P := KeepsRecordable) ?_ h
  intro unite hkeep hunite t i r h ht hi
  have hgrouped {cs ds es : List Decl} (hcs : Recorded cs) (hds : Recorded ds)
      (hg : coalesceWith unite (cs ++ ds) = .ok es) : Recorded es :=
    recorded_placeAllWith hkeep hunite Recorded.nil
      (List.forall_mem_append.mpr ⟨hcs.recordable, hds.recordable⟩) hg
  have htChildren : Recorded t.children := Recorded.of_tidy ht.tidy
  have hiChildren : Recorded i.children := Recorded.of_tidy hi.tidy
  rcases mergeStep_ok_iff.mp h with ⟨n, a, b, cs, ds, es, rfl, rfl, hg, rfl⟩ |
    ⟨n, a, b, m, k, cs, ds, es, rfl, rfl, hg, rfl⟩ | ⟨-, rfl, rfl⟩
  · have hes : Recorded es := hgrouped htChildren hiChildren hg
    have hne : es ≠ [] := ne_nil_of_coalesceWith hkeep hg (ht.occupied rfl)
    refine ⟨Recorded.tidy _ hes (fun hkind => by cases hkind), rfl, fun _ => hne, ?_⟩
    exact anyNeedsRecording_of_ne_nil hne fun e he => (hes.recordable e he).needed
  · have hes : Recorded es := hgrouped htChildren hiChildren hg
    have hclasses : ∀ e ∈ es, e.kind = .classScope := by
      refine kind_of_coalesceWith hkeep hg (List.forall_mem_append.mpr ⟨?_, ?_⟩)
      · exact (forall_parts_iff.mp ht.tidy).1.onlyClasses rfl
      · exact (forall_parts_iff.mp hi.tidy).1.onlyClasses rfl
    refine ⟨Recorded.tidy _ hes (fun _ => hclasses), rfl, fun hkind => (by cases hkind), ?_⟩
    -- The need of the first class is its own, or that of something nested in it, or of an enum.
    have hneed := ht.needed
    simp only [needsRecording, Bool.or_eq_true] at hneed ⊢
    rcases hneed with (hown | hnested) | henum
    · exact .inl (.inl hown)
    · obtain ⟨c, hc, -⟩ := anyNeedsRecording_iff.mp hnested
      have hne : es ≠ [] := ne_nil_of_coalesceWith hkeep hg (List.ne_nil_of_mem hc)
      exact .inl (.inr (anyNeedsRecording_of_ne_nil hne fun e he => (hes.recordable e he).needed))
    · exact .inr (any_pub_absorb henum)
  · exact ht

end Decl

/-! ## Recording -/

namespace Recorded

open Decl

theorem placeWith {siblings out : List Decl} {d : Decl} (h : Recorded siblings)
    (hd : d.Recordable) (hplace : placeWith merge siblings d = .ok out) : Recorded out := by
  rw [← placeAllWith_singleton] at hplace
  exact recorded_placeAllWith keepsKey_merge (fun _ _ _ => keepsRecordable_merge) h
    (by simpa using hd) hplace

theorem recordable_namespace {children : List Decl} (h : Recorded children) (hne : children ≠ [])
    (name : String) (attrs : Attributes) : (Decl.namespaceDecl name attrs children).Recordable :=
  ⟨Recorded.tidy _ h (fun hkind => by cases hkind), rfl, fun _ => hne,
    anyNeedsRecording_of_ne_nil hne fun c hc => (h.recordable c hc).needed⟩

/-- Recording a namespace that is tidy all the way down. -/
theorem recordNamespace {siblings children out : List Decl} {name : String} {attrs : Attributes}
    (h : Recorded siblings) (hchildren : Recorded children)
    (hrecord : record siblings (.namespaceDecl name attrs children) = .ok out) : Recorded out := by
  unfold record at hrecord
  split at hrecord
  · cases hrecord
    exact h
  · rename_i hoccupied
    have hne : children ≠ [] := by
      rintro rfl
      exact hoccupied ⟨rfl, rfl⟩
    exact h.placeWith (hchildren.recordable_namespace hne name attrs) hrecord

/-- Recording a class or an enum that is tidy all the way down and needed. -/
theorem recordNeeded {siblings out : List Decl} {d : Decl} (h : Recorded siblings)
    (hd : ∀ e ∈ d.parts, e.Tidy) (hchild : d.isScopeChild = true)
    (hkind : d.kind ≠ .namespaceScope) (hneeded : d.needsRecording = true)
    (hrecord : record siblings d = .ok out) : Recorded out := by
  unfold record at hrecord
  rw [if_neg fun hempty => hkind hempty.1] at hrecord
  exact h.placeWith ⟨hd, hchild, fun hns => absurd hns hkind, hneeded⟩ hrecord

end Recorded

end HeaderReflect
