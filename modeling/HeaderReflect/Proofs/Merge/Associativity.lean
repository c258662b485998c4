import HeaderReflect.Proofs.Merge.Depth

/-!
Merging is associative, failures included: three declarations can be merged from the left exactly
when they can be merged from the right, and the outcome is the same down to the order of siblings
and members (`merge_assoc`). Associativity climbs one level at a time, from uniting two siblings to
grouping lists of them and from there to the declarations they are nested in.
-/

namespace HeaderReflect

/-! ## Members -/

theorem mem_addNew {α : Type} [DecidableEq α] {known items : List α} {x : α} :
    x ∈ addNew known items ↔ x ∈ known ∨ x ∈ items := by
  induction items generalizing known with
  | nil => simp [addNew]
  | cons item rest ih =>
    simp only [addNew]
    split
    · rename_i hm
      rw [ih, List.mem_cons]
      constructor
      · rintro (h | h)
        · exact .inl h
        · exact .inr (.inr h)
      · rintro (h | rfl | h)
        · exact .inl h
        · exact .inl hm
        · exact .inr h
    · rw [ih, List.mem_append, List.mem_singleton, List.mem_cons, or_assoc]

theorem addNew_append {α : Type} [DecidableEq α] (known xs ys : List α) :
    addNew known (xs ++ ys) = addNew (addNew known xs) ys := by
  induction xs generalizing known with
  | nil => rfl
  | cons x xs ih =>
    simp only [List.cons_append, addNew]
    split <;> exact ih _

theorem addNew_assoc {α : Type} [DecidableEq α] (xs ys zs : List α) :
    addNew (addNew xs ys) zs = addNew xs (addNew ys zs) := by
  induction zs generalizing ys with
  | nil => rfl
  | cons z zs ih =>
    by_cases hz : z ∈ ys
    · have hm : z ∈ addNew xs ys := mem_addNew.mpr (.inr hz)
      simp only [addNew, hz, hm, ↓reduceIte]
      exact ih ys
    · have hsnoc : addNew xs (ys ++ [z]) = addNew (addNew xs ys) [z] := addNew_append xs ys [z]
      simp only [addNew, hz, ↓reduceIte]
      rw [← ih, hsnoc]
      simp only [addNew]
      split <;> rfl

theorem ByAccess.absorb_assoc {α : Type} [DecidableEq α] (a b c : ByAccess α) :
    (a.absorb b).absorb c = a.absorb (b.absorb c) := by
  simp only [ByAccess.absorb, addNew_assoc]

theorem Members.absorb_assoc (a b c : Members) :
    (a.absorb b).absorb c = a.absorb (b.absorb c) := by
  simp only [Members.absorb, ByAccess.absorb_assoc]

namespace Decl

/-! ## From one level to the next -/

theorem bind_toOption_eq_some_iff {ε α β : Type} {x : Except ε α} {f : α → Except ε β} {r : β} :
    (x.toOption.bind fun a => (f a).toOption) = some r ↔ ∃ a, x = .ok a ∧ f a = .ok r := by
  simp only [Option.bind_eq_some_iff, toOption_eq_some_iff]

theorem associative_iff {unite : Unite} :
    Associative unite ↔ ∀ a b c r, (∃ ab, unite a b = .ok ab ∧ unite ab c = .ok r) ↔
      ∃ bc, unite b c = .ok bc ∧ unite a bc = .ok r := by
  simp only [Associative, ← bind_toOption_eq_some_iff]
  exact forall_congr' fun a => forall_congr' fun b => forall_congr' fun c =>
    Option.ext_iff

/-! ## One level, by the kind of the declaration in the middle -/

section Step

variable {group : List Decl → Except MergeError (List Decl)} {a b c t i r : Decl} {n : String}
  {p q : Attributes} {m k : Members} {as bs : List Decl}

theorem mergeStep_namespace_left :
    mergeStep group (.namespaceDecl n p as) i = .ok r ↔
      ∃ q bs es, i = .namespaceDecl n q bs ∧ group (as ++ bs) = .ok es ∧
        r = .namespaceDecl n p es := by
  rw [mergeStep_ok_iff]
  constructor
  · rintro (⟨_, _, q, _, bs, es, h, rfl, hg, rfl⟩ | ⟨_, _, _, _, _, _, _, _, h, -⟩ | ⟨h, -⟩)
    · cases h
      exact ⟨q, bs, es, rfl, hg, rfl⟩
    · cases h
    · cases h
  · rintro ⟨q, bs, es, rfl, hg, rfl⟩
    exact .inl ⟨n, p, q, as, bs, es, rfl, rfl, hg, rfl⟩

theorem mergeStep_namespace_right :
    mergeStep group t (.namespaceDecl n q bs) = .ok r ↔
      ∃ p as es, t = .namespaceDecl n p as ∧ group (as ++ bs) = .ok es ∧
        r = .namespaceDecl n p es := by
  rw [mergeStep_ok_iff]
  constructor
  · rintro (⟨_, p, _, as, _, es, rfl, h, hg, rfl⟩ | ⟨_, _, _, _, _, _, _, _, -, h, -⟩ |
      ⟨hleaf, rfl, -⟩)
    · cases h
      exact ⟨p, as, es, rfl, hg, rfl⟩
    · cases h
    · cases hleaf
  · rintro ⟨p, as, es, rfl, hg, rfl⟩
    exact .inl ⟨n, p, q, as, bs, es, rfl, rfl, hg, rfl⟩

theorem mergeStep_class_left :
    mergeStep group (.classDecl n p m as) i = .ok r ↔
      ∃ q k bs es, i = .classDecl n q k bs ∧ group (as ++ bs) = .ok es ∧
        r = .classDecl n p (m.absorb k) es := by
  rw [mergeStep_ok_iff]
  constructor
  · rintro (⟨_, _, _, _, _, _, h, -⟩ | ⟨_, _, q, _, k, _, bs, es, h, rfl, hg, rfl⟩ | ⟨h, -⟩)
    · cases h
    · cases h
      exact ⟨q, k, bs, es, rfl, hg, rfl⟩
    · cases h
  · rintro ⟨q, k, bs, es, rfl, hg, rfl⟩
    exact .inr (.inl ⟨n, p, q, m, k, as, bs, es, rfl, rfl, hg, rfl⟩)

theorem mergeStep_class_right :
    mergeStep group t (.classDecl n q k bs) = .ok r ↔
      ∃ p m as es, t = .classDecl n p m as ∧ group (as ++ bs) = .ok es ∧
        r = .classDecl n p (m.absorb k) es := by
  rw [mergeStep_ok_iff]
  constructor
  · rintro (⟨_, _, _, _, _, _, -, h, -⟩ | ⟨_, p, _, m, _, as, _, es, rfl, h, hg, rfl⟩ |
      ⟨hleaf, rfl, -⟩)
    · cases h
    · cases h
      exact ⟨p, m, as, es, rfl, hg, rfl⟩
    · cases hleaf
  · rintro ⟨p, m, as, es, rfl, hg, rfl⟩
    exact .inr (.inl ⟨n, p, q, m, k, as, bs, es, rfl, rfl, hg, rfl⟩)

theorem mergeStep_leaf_left (hleaf : t.isScope = false) :
    mergeStep group t i = .ok r ↔ i = t ∧ r = t := by
  rw [mergeStep_ok_iff]
  constructor
  · rintro (⟨_, _, _, _, _, _, rfl, -⟩ | ⟨_, _, _, _, _, _, _, _, rfl, -⟩ | ⟨-, hi, hr⟩)
    · cases hleaf
    · cases hleaf
    · exact ⟨hi, hr⟩
  · rintro ⟨hi, hr⟩
    exact .inr (.inr ⟨hleaf, hi, hr⟩)

theorem mergeStep_leaf_right (hleaf : i.isScope = false) :
    mergeStep group t i = .ok r ↔ t = i ∧ r = i := by
  rw [mergeStep_ok_iff]
  constructor
  · rintro (⟨_, _, _, _, _, _, -, rfl, -⟩ | ⟨_, _, _, _, _, _, _, _, -, rfl, -⟩ | ⟨-, rfl, hr⟩)
    · cases hleaf
    · cases hleaf
    · exact ⟨rfl, hr⟩
  · rintro ⟨rfl, hr⟩
    exact .inr (.inr ⟨hleaf, rfl, hr⟩)

/-- Grouping from the left and from the right succeed together, with the same outcome. -/
def GroupsAlike (group : List Decl → Except MergeError (List Decl)) : Prop :=
  ∀ as bs cs ds, (∃ abs, group (as ++ bs) = .ok abs ∧ group (abs ++ cs) = .ok ds) ↔
    ∃ bcs, group (bs ++ cs) = .ok bcs ∧ group (as ++ bcs) = .ok ds

theorem mergeStep_assoc_namespace (hgroup : GroupsAlike group) :
    (∃ ab, mergeStep group a (.namespaceDecl n q bs) = .ok ab ∧ mergeStep group ab c = .ok r) ↔
      ∃ bc, mergeStep group (.namespaceDecl n q bs) c = .ok bc ∧ mergeStep group a bc = .ok r := by
  constructor
  · rintro ⟨ab, hab, habc⟩
    obtain ⟨p, as, abs, rfl, hg, rfl⟩ := mergeStep_namespace_right.mp hab
    obtain ⟨s, cs, out, rfl, hout, rfl⟩ := mergeStep_namespace_left.mp habc
    obtain ⟨bcs, hbcs, hout⟩ := (hgroup _ _ _ _).mp ⟨abs, hg, hout⟩
    exact ⟨_, mergeStep_namespace_left.mpr ⟨s, cs, bcs, rfl, hbcs, rfl⟩,
      mergeStep_namespace_left.mpr ⟨q, bcs, out, rfl, hout, rfl⟩⟩
  · rintro ⟨bc, hbc, habc⟩
    obtain ⟨s, cs, bcs, rfl, hg, rfl⟩ := mergeStep_namespace_left.mp hbc
    obtain ⟨p, as, out, rfl, hout, rfl⟩ := mergeStep_namespace_right.mp habc
    obtain ⟨abs, habs, hout⟩ := (hgroup _ _ _ _).mpr ⟨bcs, hg, hout⟩
    exact ⟨_, mergeStep_namespace_left.mpr ⟨q, bs, abs, rfl, habs, rfl⟩,
      mergeStep_namespace_left.mpr ⟨s, cs, out, rfl, hout, rfl⟩⟩

theorem mergeStep_assoc_class (hgroup : GroupsAlike group) :
    (∃ ab, mergeStep group a (.classDecl n q k bs) = .ok ab ∧ mergeStep group ab c = .ok r) ↔
      ∃ bc, mergeStep group (.classDecl n q k bs) c = .ok bc ∧ mergeStep group a bc = .ok r := by
  constructor
  · rintro ⟨ab, hab, habc⟩
    obtain ⟨p, m, as, abs, rfl, hg, rfl⟩ := mergeStep_class_right.mp hab
    obtain ⟨s, l, cs, out, rfl, hout, rfl⟩ := mergeStep_class_left.mp habc
    obtain ⟨bcs, hbcs, hout⟩ := (hgroup _ _ _ _).mp ⟨abs, hg, hout⟩
    refine ⟨_, mergeStep_class_left.mpr ⟨s, l, cs, bcs, rfl, hbcs, rfl⟩, ?_⟩
    exact mergeStep_class_left.mpr ⟨q, _, bcs, out, rfl, hout, by rw [Members.absorb_assoc]⟩
  · rintro ⟨bc, hbc, habc⟩
    obtain ⟨s, l, cs, bcs, rfl, hg, rfl⟩ := mergeStep_class_left.mp hbc
    obtain ⟨p, m, as, out, rfl, hout, rfl⟩ := mergeStep_class_right.mp habc
    obtain ⟨abs, habs, hout⟩ := (hgroup _ _ _ _).mpr ⟨bcs, hg, hout⟩
    refine ⟨_, mergeStep_class_left.mpr ⟨q, k, bs, abs, rfl, habs, rfl⟩, ?_⟩
    exact mergeStep_class_left.mpr ⟨s, l, cs, out, rfl, hout, by rw [Members.absorb_assoc]⟩

theorem mergeStep_assoc_leaf (hleaf : b.isScope = false) :
    (∃ ab, mergeStep group a b = .ok ab ∧ mergeStep group ab c = .ok r) ↔
      ∃ bc, mergeStep group b c = .ok bc ∧ mergeStep group a bc = .ok r := by
  constructor
  · rintro ⟨ab, hab, habc⟩
    obtain ⟨rfl, rfl⟩ := (mergeStep_leaf_right hleaf).mp hab
    obtain ⟨rfl, rfl⟩ := (mergeStep_leaf_left hleaf).mp habc
    exact ⟨_, habc, habc⟩
  · rintro ⟨bc, hbc, habc⟩
    obtain ⟨rfl, rfl⟩ := (mergeStep_leaf_left hleaf).mp hbc
    obtain ⟨rfl, rfl⟩ := (mergeStep_leaf_right hleaf).mp habc
    exact ⟨_, hbc, hbc⟩

end Step

theorem associative_mergeStep {unite : Unite} (hkeep : KeepsKey unite)
    (hassoc : Associative unite) : Associative (mergeStep (coalesceWith unite)) := by
  have hgroup : GroupsAlike (coalesceWith unite) := by
    intro as bs cs ds
    rw [← bind_toOption_eq_some_iff, ← bind_toOption_eq_some_iff,
      coalesceWith_assoc hkeep hassoc]
  refine associative_iff.mpr fun a b c r => ?_
  cases b with
  | namespaceDecl n q bs => exact mergeStep_assoc_namespace hgroup
  | classDecl n q k bs => exact mergeStep_assoc_class hgroup
  | enumDecl d => exact mergeStep_assoc_leaf rfl
  | fieldDecl d => exact mergeStep_assoc_leaf rfl
  | methodDecl d => exact mergeStep_assoc_leaf rfl
  | ctorDecl d => exact mergeStep_assoc_leaf rfl

theorem associative_mergeWithin (depth : Nat) : Associative (mergeWithin depth) := by
  induction depth with
  | zero => intro a b c; rfl
  | succ depth ih =>
    exact mergeWithin_succ depth ▸ associative_mergeStep (keepsKey_mergeWithin depth) ih

theorem associative_merge : Associative merge := by
  intro a b c
  obtain ⟨depth, ha, hb, hc⟩ : ∃ n, a.height ≤ n ∧ b.height ≤ n ∧ c.height ≤ n :=
    ⟨max a.height (max b.height c.height), by omega, by omega, by omega⟩
  calc ((merge a b).toOption.bind fun ab => (merge ab c).toOption)
      = (mergeWithin depth a b).toOption.bind fun ab => (mergeWithin depth ab c).toOption := by
        rw [merge_eq_mergeWithin ha hb]
        refine Option.bind_congr fun ab hab => ?_
        rw [merge_eq_mergeWithin (height_mergeWithin_le ha hb (toOption_eq_some_iff.mp hab)) hc]
    _ = (mergeWithin depth b c).toOption.bind fun bc => (mergeWithin depth a bc).toOption :=
        associative_mergeWithin depth a b c
    _ = (merge b c).toOption.bind fun bc => (merge a bc).toOption := by
        rw [merge_eq_mergeWithin hb hc]
        refine Option.bind_congr fun bc hbc => ?_
        rw [merge_eq_mergeWithin ha (height_mergeWithin_le hb hc (toOption_eq_some_iff.mp hbc))]

/-- **Merging is associative.** Merging from the left and from the right succeed together, with the
same outcome. -/
theorem merge_assoc (a b c r : Decl) :
    (∃ ab, merge a b = .ok ab ∧ merge ab c = .ok r) ↔
      ∃ bc, merge b c = .ok bc ∧ merge a bc = .ok r := by
  -- A depth that suffices for all three also suffices for what two of them become.
  obtain ⟨depth, ha, hb, hc⟩ : ∃ n, a.height ≤ n ∧ b.height ≤ n ∧ c.height ≤ n :=
    ⟨max a.height (max b.height c.height), by omega, by omega, by omega⟩
  have h := associative_iff.mp (associative_mergeWithin depth) a b c r
  rw [merge_eq_mergeWithin ha hb, merge_eq_mergeWithin hb hc]
  constructor
  · rintro ⟨ab, hab, habc⟩
    have hh : ab.height ≤ depth := height_mergeWithin_le ha hb hab
    rw [merge_eq_mergeWithin hh hc] at habc
    obtain ⟨bc, hbc, hr⟩ := h.mp ⟨ab, hab, habc⟩
    exact ⟨bc, hbc, by rw [merge_eq_mergeWithin ha (height_mergeWithin_le hb hc hbc), hr]⟩
  · rintro ⟨bc, hbc, habc⟩
    have hh : bc.height ≤ depth := height_mergeWithin_le hb hc hbc
    rw [merge_eq_mergeWithin ha hh] at habc
    obtain ⟨ab, hab, hr⟩ := h.mpr ⟨bc, hbc, habc⟩
    exact ⟨ab, hab, by rw [merge_eq_mergeWithin (height_mergeWithin_le ha hb hab) hc, hr]⟩

end Decl

end HeaderReflect
