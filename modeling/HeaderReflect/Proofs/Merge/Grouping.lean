import HeaderReflect.Proofs.Merge.Placement

/-!
Grouping with an index of slots. As long as uniting keeps keys, the index tells for every key where
it stands (`Groups.Indexed`), so looking a key up in it finds what looking for it one by one finds,
and grouping comes to placing the declarations one after another (`groupWith_eq`), failures
included.
-/

namespace HeaderReflect.Decl

/-! ## Placing at a slot -/

theorem placeWith_of_not_mem (unite : Unite) {siblings : List Decl} {d : Decl}
    (hd : d.isScopeChild = true) (h : d.key ∉ keys siblings) :
    placeWith unite siblings d = .ok (siblings ++ [d]) := by
  induction siblings with
  | nil => exact placeWith_nil unite hd
  | cons s rest ih =>
    simp only [keys_cons, List.mem_cons, not_or] at h
    rw [placeWith_cons_of_ne unite rest hd (Ne.symm h.1), ih h.2]
    rfl

/-- Where no two siblings share their key, a declaration goes to the slot of its key. -/
theorem placeWith_of_slot (unite : Unite) {siblings : List Decl} {d : Decl} {slot : Nat}
    (hd : d.isScopeChild = true) (hnodup : (keys siblings).Nodup) (hslot : slot < siblings.length)
    (hkey : (siblings.get ⟨slot, hslot⟩).key = d.key) :
    placeWith unite siblings d =
      (unite (siblings.get ⟨slot, hslot⟩) d).map fun r => siblings.set slot r := by
  induction siblings generalizing slot with
  | nil => exact absurd hslot (Nat.not_lt_zero slot)
  | cons s rest ih =>
    obtain ⟨hs, hrest⟩ := List.nodup_cons.mp hnodup
    cases slot with
    | zero => exact placeWith_cons_of_key unite rest hd hkey
    | succ slot =>
      have hin : slot < rest.length := Nat.lt_of_succ_lt_succ hslot
      have hother : (rest.get ⟨slot, hin⟩).key = d.key := hkey
      have hne : s.key ≠ d.key := fun heq =>
        hs (heq ▸ hother ▸ List.mem_map_of_mem (rest.get_mem ⟨slot, hin⟩))
      rw [placeWith_cons_of_ne unite rest hd hne, ih hrest hin hother]
      show ((unite (rest.get ⟨slot, hin⟩) d).map _).map _ = (unite (rest.get ⟨slot, hin⟩) d).map _
      cases unite (rest.get ⟨slot, hin⟩) d <;> rfl

namespace Groups

/-- The index holds exactly the keys of what is placed, each with the slot where it stands. -/
def Indexed (g : Groups) : Prop :=
  ∀ key slot, g.slots.lookup key = some slot ↔ (keys g.placed)[slot]? = some key

variable {g : Groups}

theorem indexed_of_empty (hplaced : g.placed = []) (hslots : g.slots = []) : g.Indexed := by
  intro key slot
  simp [hplaced, hslots]

/-- No key has two slots. -/
theorem Indexed.nodup (h : g.Indexed) : (keys g.placed).Nodup := by
  refine List.pairwise_iff_getElem.mpr fun i j hi hj hij heq => ?_
  have hfirst := (h _ i).mpr (List.getElem?_eq_getElem hi)
  have hsecond := (h _ j).mpr (List.getElem?_eq_getElem hj)
  rw [heq, hsecond] at hfirst
  exact Nat.ne_of_lt hij (Option.some.inj hfirst).symm

theorem Indexed.not_mem_of_lookup (h : g.Indexed) {key : String × Kind}
    (hnone : g.slots.lookup key = none) : key ∉ keys g.placed := by
  intro hmem
  obtain ⟨slot, hslot⟩ := List.getElem?_of_mem hmem
  rw [(h key slot).mpr hslot] at hnone
  cases hnone

theorem Indexed.key_of_lookup (h : g.Indexed) {key : String × Kind} {slot : Nat}
    (hsome : g.slots.lookup key = some slot) :
    (g.placed.get ⟨slot, g.slot_lt hsome⟩).key = key := by
  have hkey := (h key slot).mp hsome
  rw [keys, List.getElem?_map, List.getElem?_eq_getElem (g.slot_lt hsome)] at hkey
  exact Option.some.inj hkey

theorem Indexed.put (h : g.Indexed) {slot : Nat} {d : Decl} (hslot : slot < g.placed.length)
    (hkey : d.key = (g.placed.get ⟨slot, hslot⟩).key) : (g.put slot d).Indexed := by
  have hkeys : keys (g.placed.set slot d) = keys g.placed := by
    have hin : slot < (keys g.placed).length := by simpa [keys] using hslot
    have hsame : d.key = (keys g.placed)[slot] := by simp [keys, hkey]
    rw [keys, List.map_set, hsame]
    exact List.set_getElem_self hin
  intro key other
  show g.slots.lookup key = some other ↔ (keys (g.placed.set slot d))[other]? = some key
  rw [hkeys]
  exact h key other

theorem Indexed.push (h : g.Indexed) {d : Decl} (hnew : d.key ∉ keys g.placed) :
    (g.push d).Indexed := by
  intro key slot
  show ((d.key, g.placed.length) :: g.slots).lookup key = some slot ↔
    (keys (g.placed ++ [d]))[slot]? = some key
  have hlength : (keys g.placed).length = g.placed.length := List.length_map ..
  rw [List.lookup_cons, keys_append]
  by_cases hkey : key = d.key
  · -- The new key stands in the last slot and in no other.
    subst hkey
    have hbefore : (keys g.placed)[slot]? ≠ some d.key := fun hs => hnew (List.mem_of_getElem? hs)
    rcases Nat.lt_or_ge slot (keys g.placed).length with hlt | hge
    · rw [List.getElem?_append_left hlt, iff_false_intro hbefore, beq_self_eq_true]
      simp only [Option.some.injEq, iff_false]
      omega
    · rw [List.getElem?_append_right hge, beq_self_eq_true, keys_cons, keys_nil,
        List.getElem?_singleton]
      simp only [Option.some.injEq, ite_eq_left_iff, reduceCtorEq, imp_false,
        Decidable.not_not]
      omega
  · have hold := h key slot
    have hfalse : (key == d.key) = false := by simpa using hkey
    rw [hfalse]
    simp only [hold]
    rcases Nat.lt_or_ge slot (keys g.placed).length with hlt | hge
    · rw [List.getElem?_append_left hlt]
    · rw [List.getElem?_append_right hge, List.getElem?_eq_none hge]
      simp [List.getElem?_singleton, Ne.symm hkey]

/-- Adding a declaration to groups places it among what is placed. -/
theorem Indexed.add (h : g.Indexed) {unite : Unite} (hkeep : KeepsKey unite) (d : Decl) :
    (g.add unite d).map (·.placed) = placeWith unite g.placed d ∧
      ∀ next, g.add unite d = .ok next → next.Indexed := by
  cases hd : d.isScopeChild with
  | false =>
    rw [placeWith_of_not_scopeChild unite g.placed hd]
    simp [Groups.add, hd, Except.map]
  | true =>
    simp only [Groups.add, hd, ↓reduceIte]
    split
    · rename_i slot hslot
      have hkey := h.key_of_lookup hslot
      rw [placeWith_of_slot unite hd h.nodup (g.slot_lt hslot) hkey]
      cases hu : unite (g.placed.get ⟨slot, g.slot_lt hslot⟩) d with
      | error e => exact ⟨rfl, fun next hnext => by cases hnext⟩
      | ok r =>
        refine ⟨rfl, fun next hnext => ?_⟩
        cases hnext
        exact h.put (g.slot_lt hslot) (hkeep _ d r hu)
    · rename_i hnone
      have hnew := h.not_mem_of_lookup hnone
      refine ⟨(placeWith_of_not_mem unite hd hnew).symm, fun next hnext => ?_⟩
      cases hnext
      exact h.push hnew

theorem Indexed.addAll (h : g.Indexed) {unite : Unite} (hkeep : KeepsKey unite) (ds : List Decl) :
    (ds.foldlM (Groups.add unite) g).map (·.placed) = placeAllWith unite g.placed ds := by
  induction ds generalizing g with
  | nil => rfl
  | cons d ds ih =>
    obtain ⟨hplaced, hindexed⟩ := h.add hkeep d
    rw [List.foldlM_cons, placeAllWith_cons, ← hplaced]
    cases hadd : g.add unite d with
    | error e => rfl
    | ok next => exact ih (hindexed next hadd)

end Groups

/-- **Grouping with an index comes to placing one after another.** -/
theorem groupWith_eq {unite : Unite} (hkeep : KeepsKey unite) (ds : List Decl) :
    groupWith unite ds = coalesceWith unite ds :=
  (Groups.indexed_of_empty rfl rfl).addAll hkeep ds

end HeaderReflect.Decl
