import HeaderReflect.Proofs.Merge.Shape
import Mathlib.Data.List.Forall2
import Mathlib.Data.List.Nodup

/-!
Trees that differ in order only. `SameUpToOrder` leaves the order of siblings and of members open
and nothing else; where no two siblings share their key, they can be compared key by key
(`sameSiblings_iff`). Two lists of members can be taken in either way round, up to order, exactly
if every item stands as often in both or once in one of them (`addNew_perm_iff`).
-/

namespace HeaderReflect

/-! ## Members in any order -/

/-- Every item stands as often in one list as in the other, or once in one of them and not at all
in the other. -/
def Balanced {α : Type} [DecidableEq α] (xs ys : List α) : Prop :=
  ∀ x, xs.count x = ys.count x ∨ xs.count x + ys.count x = 1

/-- Lists in which no item stands twice balance. -/
theorem Balanced.of_nodup {α : Type} [DecidableEq α] {xs ys : List α} (hx : xs.Nodup)
    (hy : ys.Nodup) : Balanced xs ys := by
  intro x
  have hxs := List.nodup_iff_count_le_one.mp hx x
  have hys := List.nodup_iff_count_le_one.mp hy x
  omega

/-- Adding new items counts an item as often as it was known, or once if it was not. -/
theorem count_addNew {α : Type} [DecidableEq α] (known items : List α) (x : α) :
    (addNew known items).count x =
      if x ∈ known then known.count x else min 1 (items.count x) := by
  induction items generalizing known with
  | nil =>
    by_cases hx : x ∈ known
    · simp [addNew, hx]
    · simp [addNew, hx, List.count_eq_zero.mpr hx]
  | cons item rest ih =>
    by_cases hitem : item ∈ known
    · simp only [addNew, hitem, ↓reduceIte, ih]
      by_cases hx : x ∈ known
      · simp [hx]
      · have hne : item ≠ x := fun h => hx (h ▸ hitem)
        simp [hx, hne]
    · simp only [addNew, hitem, ↓reduceIte, ih, List.mem_append, List.mem_singleton]
      by_cases hx : x = item
      · subst hx
        simp [hitem, List.count_eq_zero.mpr hitem]
      · by_cases hknown : x ∈ known
        · simp [hx, hknown, List.count_append, Ne.symm hx]
        · simp [hx, hknown, Ne.symm hx]

theorem addNew_perm_iff {α : Type} [DecidableEq α] (xs ys : List α) :
    (addNew xs ys).Perm (addNew ys xs) ↔ Balanced xs ys := by
  rw [List.perm_iff_count]
  refine forall_congr' fun x => ?_
  simp only [count_addNew, ← List.count_pos_iff]
  by_cases hx : 0 < xs.count x <;> by_cases hy : 0 < ys.count x <;> simp [hx, hy] <;> omega

namespace ByAccess

variable {α : Type} [DecidableEq α]

/-- The same items under each access, in any order. -/
def SameUpToOrder (lists other : ByAccess α) : Prop :=
  ∀ access, (lists.get access).Perm (other.get access)

protected def Balanced (lists other : ByAccess α) : Prop :=
  ∀ access, HeaderReflect.Balanced (lists.get access) (other.get access)

theorem absorb_sameUpToOrder_iff (lists other : ByAccess α) :
    (lists.absorb other).SameUpToOrder (other.absorb lists) ↔ lists.Balanced other := by
  refine forall_congr' fun access => ?_
  cases access <;> exact addNew_perm_iff ..

end ByAccess

namespace Members

/-- The same members of each kind under each access, in any order. -/
structure SameUpToOrder (m k : Members) : Prop where
  fields : m.fields.SameUpToOrder k.fields
  methods : m.methods.SameUpToOrder k.methods
  enums : m.enums.SameUpToOrder k.enums
  ctors : m.ctors.SameUpToOrder k.ctors

/-- Under each access, every member stands as often on one side as on the other, or once on one
side alone. -/
structure Balanced (m k : Members) : Prop where
  fields : m.fields.Balanced k.fields
  methods : m.methods.Balanced k.methods
  enums : m.enums.Balanced k.enums
  ctors : m.ctors.Balanced k.ctors

theorem SameUpToOrder.refl (m : Members) : m.SameUpToOrder m :=
  ⟨fun _ => .refl _, fun _ => .refl _, fun _ => .refl _, fun _ => .refl _⟩

theorem absorb_sameUpToOrder_iff (m k : Members) :
    (m.absorb k).SameUpToOrder (k.absorb m) ↔ m.Balanced k := by
  constructor
  · rintro ⟨hfields, hmethods, henums, hctors⟩
    exact ⟨(ByAccess.absorb_sameUpToOrder_iff ..).mp hfields,
      (ByAccess.absorb_sameUpToOrder_iff ..).mp hmethods,
      (ByAccess.absorb_sameUpToOrder_iff ..).mp henums,
      (ByAccess.absorb_sameUpToOrder_iff ..).mp hctors⟩
  · rintro ⟨hfields, hmethods, henums, hctors⟩
    exact ⟨(ByAccess.absorb_sameUpToOrder_iff ..).mpr hfields,
      (ByAccess.absorb_sameUpToOrder_iff ..).mpr hmethods,
      (ByAccess.absorb_sameUpToOrder_iff ..).mpr henums,
      (ByAccess.absorb_sameUpToOrder_iff ..).mpr hctors⟩

end Members

namespace Decl

/-! ## Siblings by key -/

/-- The first sibling of a key. -/
def sibling? (key : String × Kind) (ds : List Decl) : Option Decl := ds.find? (·.key = key)

@[simp] theorem sibling?_nil (key : String × Kind) : sibling? key [] = none := rfl

theorem sibling?_cons (key : String × Kind) (d : Decl) (ds : List Decl) :
    sibling? key (d :: ds) = if d.key = key then some d else sibling? key ds := by
  by_cases h : d.key = key <;> simp [sibling?, h]

theorem sibling?_append (key : String × Kind) (ds es : List Decl) :
    sibling? key (ds ++ es) = (sibling? key ds).or (sibling? key es) :=
  List.find?_append

theorem sibling?_eq_none_iff {key : String × Kind} {ds : List Decl} :
    sibling? key ds = none ↔ key ∉ keys ds := by
  simp [sibling?, keys]

theorem mem_of_sibling? {key : String × Kind} {ds : List Decl} {d : Decl}
    (h : sibling? key ds = some d) : d ∈ ds ∧ d.key = key :=
  ⟨List.mem_of_find?_eq_some h, by simpa using List.find?_some h⟩

theorem sibling?_of_mem {ds : List Decl} (hnodup : (keys ds).Nodup) {d : Decl} (hd : d ∈ ds) :
    sibling? d.key ds = some d := by
  induction ds with
  | nil => simp at hd
  | cons e ds ih =>
    obtain ⟨he, hrest⟩ := List.nodup_cons.mp hnodup
    rw [sibling?_cons]
    rcases List.mem_cons.mp hd with rfl | hd
    · simp
    · have hne : e.key ≠ d.key := fun h => he (List.mem_map.mpr ⟨d, hd, h.symm⟩)
      rw [if_neg hne, ih hrest hd]

/-! ## Equal up to order -/

/-- The same tree up to the order of siblings and of members: names, attributes and the items of
enums agree. -/
inductive SameUpToOrder : Decl → Decl → Prop
  | namespaceDecl {name : String} {attrs : Attributes} {cs es ds : List Decl}
      (hperm : cs.Perm es) (hall : List.Forall₂ SameUpToOrder es ds) :
      SameUpToOrder (.namespaceDecl name attrs cs) (.namespaceDecl name attrs ds)
  | classDecl {name : String} {attrs : Attributes} {m k : Members} {cs es ds : List Decl}
      (hmembers : m.SameUpToOrder k) (hperm : cs.Perm es)
      (hall : List.Forall₂ SameUpToOrder es ds) :
      SameUpToOrder (.classDecl name attrs m cs) (.classDecl name attrs k ds)
  | leaf {d : Decl} (h : d.isScope = false) : SameUpToOrder d d

/-- Siblings that are the same up to order. -/
def SameSiblings (cs ds : List Decl) : Prop :=
  ∃ es, cs.Perm es ∧ List.Forall₂ SameUpToOrder es ds

theorem SameUpToOrder.refl : ∀ d : Decl, SameUpToOrder d d
  | .namespaceDecl _ _ cs => .namespaceDecl (.refl cs) (reflAll cs)
  | .classDecl _ _ m cs => .classDecl (.refl m) (.refl cs) (reflAll cs)
  | .enumDecl _ | .fieldDecl _ | .methodDecl _ | .ctorDecl _ => .leaf rfl
where
  reflAll : ∀ ds : List Decl, List.Forall₂ SameUpToOrder ds ds
    | [] => .nil
    | d :: ds => .cons (SameUpToOrder.refl d) (reflAll ds)

theorem SameUpToOrder.key_eq {c d : Decl} (h : SameUpToOrder c d) : c.key = d.key := by
  cases h <;> rfl

/-- The members of a class; other declarations have none. -/
def members : Decl → Members
  | .classDecl _ _ m _ => m
  | _ => {}

/-- Two scopes of one key are compared by their attributes, their members and their siblings. -/
theorem sameUpToOrder_iff_of_scope {r s : Decl} (hr : r.isScope = true) (hkey : s.key = r.key) :
    SameUpToOrder r s ↔
      r.attrs = s.attrs ∧ r.members.SameUpToOrder s.members ∧
        SameSiblings r.children s.children := by
  obtain ⟨hname, hkind⟩ := Prod.mk.inj hkey
  constructor
  · intro h
    cases h with
    | namespaceDecl hperm hall => exact ⟨rfl, .refl _, _, hperm, hall⟩
    | classDecl hmembers hperm hall => exact ⟨rfl, hmembers, _, hperm, hall⟩
    | leaf hleaf =>
      rw [hr] at hleaf
      cases hleaf
  · rintro ⟨hattrs, hmembers, es, hperm, hall⟩
    cases r with
    | namespaceDecl n a cs =>
      cases s with
      | namespaceDecl k b ds =>
        obtain rfl : k = n := hname
        obtain rfl : a = b := hattrs
        exact .namespaceDecl hperm hall
      | _ => cases hkind
    | classDecl n a m cs =>
      cases s with
      | classDecl k b l ds =>
        obtain rfl : k = n := hname
        obtain rfl : a = b := hattrs
        exact .classDecl hmembers hperm hall
      | _ => cases hkind
    | _ => cases hr

theorem sibling?_perm {cs es : List Decl} (hnodup : (keys cs).Nodup) (hperm : cs.Perm es)
    (key : String × Kind) : sibling? key cs = sibling? key es := by
  have hkeys : (keys cs).Perm (keys es) := hperm.map _
  cases h : sibling? key cs with
  | none =>
    have habs : key ∉ keys es := fun hm => sibling?_eq_none_iff.mp h (hkeys.mem_iff.mpr hm)
    exact (sibling?_eq_none_iff.mpr habs).symm
  | some d =>
    obtain ⟨hd, rfl⟩ := mem_of_sibling? h
    exact (sibling?_of_mem (hkeys.nodup hnodup) (hperm.mem_iff.mp hd)).symm

/-- Siblings of different keys are the same up to order exactly if they are so key by key. -/
theorem sameSiblings_iff {cs ds : List Decl} (hcs : (keys cs).Nodup) (hds : (keys ds).Nodup) :
    SameSiblings cs ds ↔ ∀ key, Option.Rel SameUpToOrder (sibling? key cs) (sibling? key ds) := by
  constructor
  · rintro ⟨es, hperm, hall⟩ key
    rw [sibling?_perm hcs hperm]
    clear hcs hds hperm
    induction hall with
    | nil => exact .none
    | cons hsame _ ih =>
      rw [sibling?_cons, sibling?_cons, hsame.key_eq]
      split
      · exact .some hsame
      · exact ih
  · intro hrel
    -- Each sibling on the right has its partner on the left.
    have hpartner : ∀ d ∈ ds, ∃ c ∈ cs, sibling? d.key cs = some c ∧ SameUpToOrder c d := by
      intro d hd
      have h := hrel d.key
      rw [sibling?_of_mem hds hd] at h
      cases hc : sibling? d.key cs with
      | none => rw [hc] at h; cases h
      | some c =>
        rw [hc] at h
        cases h with
        | some hsame => exact ⟨c, (mem_of_sibling? hc).1, rfl, hsame⟩
    let partner (d : Decl) : Decl := (sibling? d.key cs).getD d
    have hkeys : keys (ds.map partner) = keys ds := by
      simp only [keys, List.map_map]
      refine List.map_congr_left fun d hd => ?_
      obtain ⟨c, -, hc, hsame⟩ := hpartner d hd
      simpa [partner, hc] using hsame.key_eq
    refine ⟨ds.map partner, ?_, ?_⟩
    · rw [← hkeys] at hds
      have hnodup : (ds.map partner).Nodup := List.Nodup.of_map key hds
      refine (List.perm_ext_iff_of_nodup (List.Nodup.of_map key hcs) hnodup).mpr fun c => ?_
      rw [List.mem_map]
      constructor
      · intro hc
        have h := hrel c.key
        rw [sibling?_of_mem hcs hc] at h
        cases hd : sibling? c.key ds with
        | none => rw [hd] at h; cases h
        | some d =>
          obtain ⟨hmem, hkey⟩ := mem_of_sibling? hd
          exact ⟨d, hmem, by simp [partner, hkey, sibling?_of_mem hcs hc]⟩
      · rintro ⟨d, hd, rfl⟩
        obtain ⟨c, hc, hcd, -⟩ := hpartner d hd
        simpa [partner, hcd] using hc
    · rw [List.forall₂_map_left_iff, List.forall₂_same]
      intro d hd
      obtain ⟨c, -, hc, hsame⟩ := hpartner d hd
      simpa [partner, hc] using hsame

end Decl

end HeaderReflect
