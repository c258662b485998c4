import HeaderReflect.Proofs.Merge.Depth

/-!
When a merge succeeds. Siblings can be grouped exactly if each of them may stand in a scope and any
two of one key can be united (`coalesceWith_ok_iff`), so their order plays no part. From one level
to the next this makes merging succeed both ways round or not at all (`merge_ok_comm`).
-/

namespace HeaderReflect.Decl

/-- The two can be united. -/
def Unites (unite : Unite) (a b : Decl) : Prop := ∃ r, unite a b = .ok r

/-- The two do not stand in each other's way: if they have one key they can be united. -/
def Agree (unite : Unite) (a b : Decl) : Prop := a.key = b.key → Unites unite a b

/-- Which declarations can be united does not depend on their order, and two that are united can be
united with a third exactly if each of them can. -/
structure Coherent (unite : Unite) : Prop where
  keepsKey : KeepsKey unite
  symm : ∀ a b, Unites unite a b → Unites unite b a
  absorb : ∀ a b r c, unite a b = .ok r → (Unites unite r c ↔ Unites unite a c ∧ Unites unite b c)

/-! ## Grouping siblings -/

section Grouping

variable {unite : Unite}

theorem Coherent.agree_symm (hco : Coherent unite) {a b : Decl} (h : Agree unite a b) :
    Agree unite b a :=
  fun hkey => hco.symm a b (h hkey.symm)

theorem Coherent.agree_iff (hco : Coherent unite) {s d r : Decl} (hkey : s.key = d.key)
    (hr : unite s d = .ok r) (e : Decl) : Agree unite r e ↔ Agree unite s e ∧ Agree unite d e := by
  have hrkey : r.key = s.key := hco.keepsKey s d r hr
  unfold Agree
  rw [hrkey, ← hkey, hco.absorb s d r e hr]
  exact forall_and

theorem placeWith_ok_iff {siblings : List Decl} {d : Decl} (hnodup : (keys siblings).Nodup) :
    (∃ out, placeWith unite siblings d = .ok out) ↔
      d.isScopeChild = true ∧ ∀ s ∈ siblings, Agree unite s d := by
  cases hd : d.isScopeChild with
  | false => simp [placeWith_of_not_scopeChild _ _ hd]
  | true =>
    simp only [true_and]
    induction siblings with
    | nil => simp [placeWith_nil _ hd]
    | cons s rest ih =>
      obtain ⟨hs, hrest⟩ := List.nodup_cons.mp hnodup
      rw [List.forall_mem_cons]
      by_cases hkey : s.key = d.key
      · -- No sibling behind has the key of `s` and `d`.
        have hothers : ∀ t ∈ rest, Agree unite t d := fun t ht htkey =>
          absurd (List.mem_map.mpr ⟨t, ht, htkey.trans hkey.symm⟩) hs
        rw [placeWith_cons_of_key _ _ hd hkey, iff_true_intro hothers, and_true]
        constructor
        · rintro ⟨out, hout⟩ -
          cases hu : unite s d with
          | error e => rw [hu] at hout; cases hout
          | ok r => exact ⟨r, hu⟩
        · intro h
          obtain ⟨r, hr⟩ := h hkey
          exact ⟨r :: rest, by rw [hr]; rfl⟩
      · have hagree : Agree unite s d := fun h => absurd h hkey
        rw [placeWith_cons_of_ne _ _ hd hkey, ← ih hrest, iff_true_intro hagree, true_and]
        constructor
        · rintro ⟨out, hout⟩
          cases hp : placeWith unite rest d with
          | error e => rw [hp] at hout; cases hout
          | ok placed => exact ⟨placed, rfl⟩
        · rintro ⟨placed, hp⟩
          exact ⟨s :: placed, by rw [hp]; rfl⟩

/-- What agrees with all that a placement leaves agrees with all that went into it. -/
theorem agree_placeWith (hco : Coherent unite) {siblings out : List Decl} {d : Decl}
    (h : placeWith unite siblings d = .ok out) (e : Decl) :
    (∀ o ∈ out, Agree unite o e) ↔ (∀ s ∈ siblings, Agree unite s e) ∧ Agree unite d e := by
  obtain ⟨-, ⟨-, rfl⟩ | ⟨before, s, after, r, rfl, -, hs, hr, rfl⟩⟩ := placeWith_cases h
  · simp only [List.forall_mem_append, List.forall_mem_singleton]
  · simp only [List.forall_mem_append, List.forall_mem_cons, hco.agree_iff hs hr]
    constructor
    · rintro ⟨hbefore, ⟨hse, hde⟩, hafter⟩
      exact ⟨⟨hbefore, hse, hafter⟩, hde⟩
    · rintro ⟨⟨hbefore, hse, hafter⟩, hde⟩
      exact ⟨hbefore, ⟨hse, hde⟩, hafter⟩

theorem agree_placeAllWith (hco : Coherent unite) {siblings ds out : List Decl}
    (h : placeAllWith unite siblings ds = .ok out) (e : Decl) :
    (∀ o ∈ out, Agree unite o e) ↔
      (∀ s ∈ siblings, Agree unite s e) ∧ ∀ d ∈ ds, Agree unite d e := by
  induction ds generalizing siblings with
  | nil =>
    cases h
    simp
  | cons d ds ih =>
    rw [placeAllWith_cons] at h
    cases hp : placeWith unite siblings d with
    | error fault => rw [hp] at h; cases h
    | ok placed =>
      rw [hp] at h
      rw [ih h, agree_placeWith hco hp, List.forall_mem_cons, and_assoc]

theorem placeAllWith_ok_iff (hco : Coherent unite) {siblings ds : List Decl}
    (hnodup : (keys siblings).Nodup) :
    (∃ out, placeAllWith unite siblings ds = .ok out) ↔
      (∀ d ∈ ds, d.isScopeChild = true) ∧ (∀ d ∈ ds, ∀ s ∈ siblings, Agree unite s d) ∧
        ds.Pairwise (Agree unite) := by
  induction ds generalizing siblings with
  | nil => simp [placeAllWith]
  | cons d ds ih =>
    have hone : (∃ placed, placeWith unite siblings d = .ok placed) ↔ _ := placeWith_ok_iff hnodup
    rw [placeAllWith_cons, List.forall_mem_cons, List.forall_mem_cons, List.pairwise_cons]
    cases hp : placeWith unite siblings d with
    | error fault =>
      rw [hp] at hone
      have hnot : ¬(d.isScopeChild = true ∧ ∀ s ∈ siblings, Agree unite s d) := fun h => by
        obtain ⟨_, hplaced⟩ := hone.mpr h
        cases hplaced
      constructor
      · rintro ⟨_, hout⟩
        cases hout
      · rintro ⟨⟨hd, -⟩, ⟨hs, -⟩, -⟩
        exact absurd ⟨hd, hs⟩ hnot
    | ok placed =>
      obtain ⟨hd, hs⟩ := hone.mp ⟨placed, hp⟩
      have hmore := ih (nodup_keys_placeWith hco.keepsKey hp hnodup)
      show (∃ out, placeAllWith unite placed ds = .ok out) ↔ _
      rw [hmore]
      have hplaced : (∀ e ∈ ds, ∀ o ∈ placed, Agree unite o e) ↔
          (∀ e ∈ ds, ∀ s ∈ siblings, Agree unite s e) ∧ ∀ e ∈ ds, Agree unite d e := by
        simp only [agree_placeWith hco hp, forall_and]
      rw [hplaced]
      constructor
      · rintro ⟨hchild, ⟨hsiblings, hhead⟩, htail⟩
        exact ⟨⟨hd, hchild⟩, ⟨hs, hsiblings⟩, hhead, htail⟩
      · rintro ⟨⟨-, hchild⟩, ⟨-, hsiblings⟩, hhead, htail⟩
        exact ⟨hchild, ⟨hsiblings, hhead⟩, htail⟩

/-- Declarations that may stand in one scope together. -/
structure Compatible (unite : Unite) (ds : List Decl) : Prop where
  scopeChild : ∀ d ∈ ds, d.isScopeChild = true
  agree : ds.Pairwise (Agree unite)

/-- **Grouping succeeds for compatible declarations and no others.** -/
theorem coalesceWith_ok_iff (hco : Coherent unite) {ds : List Decl} :
    (∃ out, coalesceWith unite ds = .ok out) ↔ Compatible unite ds := by
  rw [coalesceWith, placeAllWith_ok_iff hco (by simp)]
  constructor
  · rintro ⟨hchild, -, hagree⟩
    exact ⟨hchild, hagree⟩
  · rintro ⟨hchild, hagree⟩
    exact ⟨hchild, by simp, hagree⟩

theorem Compatible.perm (hco : Coherent unite) {ds es : List Decl} (hperm : ds.Perm es)
    (h : Compatible unite ds) : Compatible unite es where
  scopeChild e he := h.scopeChild e (hperm.mem_iff.mpr he)
  agree := (hperm.pairwise_iff hco.agree_symm).mp h.agree

/-- Whether more can be put in is decided by what was grouped, before as well as after. -/
theorem compatible_append_iff (hco : Coherent unite) {ds grouped : List Decl}
    (h : coalesceWith unite ds = .ok grouped) (es : List Decl) :
    Compatible unite (grouped ++ es) ↔ Compatible unite (ds ++ es) := by
  have hds : Compatible unite ds := (coalesceWith_ok_iff hco).mp ⟨grouped, h⟩
  have hgrouped : Compatible unite grouped := by
    refine ⟨?_, ?_⟩
    · refine forall_placeAllWith (P := fun d => d.isScopeChild = true) ?_ (by simp) hds.scopeChild h
      intro a b r ha _ hr
      rw [isScopeChild_of_key (hco.keepsKey a b r hr), ha]
    · have hnodup := nodup_keys_placeAllWith hco.keepsKey h (by simp)
      exact (List.pairwise_map.mp hnodup).imp fun hne heq => absurd heq hne
  have hacross : (∀ o ∈ grouped, ∀ e ∈ es, Agree unite o e) ↔ ∀ d ∈ ds, ∀ e ∈ es, Agree unite d e := by
    have hone (e : Decl) : (∀ o ∈ grouped, Agree unite o e) ↔ ∀ d ∈ ds, Agree unite d e := by
      rw [agree_placeAllWith hco h]
      simp
    exact ⟨fun hall d hd e he => (hone e).mp (fun o ho => hall o ho e he) d hd,
      fun hall o ho e he => (hone e).mpr (fun d hd => hall d hd e he) o ho⟩
  constructor
  · rintro ⟨hchild, hagree⟩
    obtain ⟨-, hes, hall⟩ := List.pairwise_append.mp hagree
    refine ⟨?_, List.pairwise_append.mpr ⟨hds.agree, hes, hacross.mp hall⟩⟩
    exact List.forall_mem_append.mpr ⟨hds.scopeChild, (List.forall_mem_append.mp hchild).2⟩
  · rintro ⟨hchild, hagree⟩
    obtain ⟨-, hes, hall⟩ := List.pairwise_append.mp hagree
    refine ⟨?_, List.pairwise_append.mpr ⟨hgrouped.agree, hes, hacross.mpr hall⟩⟩
    exact List.forall_mem_append.mpr ⟨hgrouped.scopeChild, (List.forall_mem_append.mp hchild).2⟩

/-- Three lists go together exactly if any two of them do. -/
theorem compatible_append_append_iff {as bs cs : List Decl} (hab : Compatible unite (as ++ bs)) :
    Compatible unite (as ++ bs ++ cs) ↔
      Compatible unite (as ++ cs) ∧ Compatible unite (bs ++ cs) := by
  obtain ⟨habChild, habAgree⟩ := hab
  obtain ⟨ha, hb, hcross⟩ := List.pairwise_append.mp habAgree
  obtain ⟨haChild, hbChild⟩ := List.forall_mem_append.mp habChild
  constructor
  · rintro ⟨hchild, hagree⟩
    obtain ⟨-, hc, hall⟩ := List.pairwise_append.mp hagree
    have hcChild := (List.forall_mem_append.mp hchild).2
    obtain ⟨hac, hbc⟩ := List.forall_mem_append.mp hall
    exact ⟨⟨List.forall_mem_append.mpr ⟨haChild, hcChild⟩, List.pairwise_append.mpr ⟨ha, hc, hac⟩⟩,
      ⟨List.forall_mem_append.mpr ⟨hbChild, hcChild⟩, List.pairwise_append.mpr ⟨hb, hc, hbc⟩⟩⟩
  · rintro ⟨⟨hacChild, hacAgree⟩, -, hbcAgree⟩
    obtain ⟨-, hc, hac⟩ := List.pairwise_append.mp hacAgree
    obtain ⟨-, -, hbc⟩ := List.pairwise_append.mp hbcAgree
    have hcChild := (List.forall_mem_append.mp hacChild).2
    refine ⟨List.forall_mem_append.mpr ⟨habChild, hcChild⟩, ?_⟩
    exact List.pairwise_append.mpr ⟨habAgree, hc, List.forall_mem_append.mpr ⟨hac, hbc⟩⟩

end Grouping

/-! ## From one level to the next -/

/-- One level of a merge: two scopes of one key with what is nested in both grouped, or two equal
declarations that are no scopes. -/
theorem mergeStep_cases {group : List Decl → Except MergeError (List Decl)} {t i r : Decl}
    (h : mergeStep group t i = .ok r) :
    (t.isScope = true ∧ i.isScope = true ∧ r.isScope = true ∧ i.key = t.key ∧ r.key = t.key ∧
        group (t.children ++ i.children) = .ok r.children) ∨
      (t.isScope = false ∧ i = t ∧ r = t) := by
  rcases mergeStep_ok_iff.mp h with ⟨n, a, b, cs, ds, es, rfl, rfl, hg, rfl⟩ |
    ⟨n, a, b, m, k, cs, ds, es, rfl, rfl, hg, rfl⟩ | hleaf
  · exact .inl ⟨rfl, rfl, rfl, rfl, rfl, hg⟩
  · exact .inl ⟨rfl, rfl, rfl, rfl, rfl, hg⟩
  · exact .inr hleaf

theorem unites_mergeStep_of_scope {group : List Decl → Except MergeError (List Decl)} {t i : Decl}
    (hscope : t.isScope = true) :
    Unites (mergeStep group) t i ↔
      i.key = t.key ∧ ∃ es, group (t.children ++ i.children) = .ok es := by
  constructor
  · rintro ⟨r, hr⟩
    rcases mergeStep_cases hr with ⟨-, -, -, hkey, -, hg⟩ | ⟨hleaf, -⟩
    · exact ⟨hkey, _, hg⟩
    · rw [hscope] at hleaf
      cases hleaf
  · rintro ⟨hkey, es, hg⟩
    obtain ⟨hname, hkind⟩ := Prod.mk.inj hkey
    cases t with
    | namespaceDecl n a cs =>
      cases i with
      | namespaceDecl k b ds =>
        obtain rfl : k = n := hname
        exact ⟨_, mergeStep_ok_iff.mpr (.inl ⟨_, _, _, _, _, es, rfl, rfl, hg, rfl⟩)⟩
      | _ => cases hkind
    | classDecl n a m cs =>
      cases i with
      | classDecl k b l ds =>
        obtain rfl : k = n := hname
        exact ⟨_, mergeStep_ok_iff.mpr (.inr (.inl ⟨_, _, _, _, _, _, _, es, rfl, rfl, hg, rfl⟩))⟩
      | _ => cases hkind
    | _ => cases hscope

theorem coherent_mergeStep {unite : Unite} (hco : Coherent unite) :
    Coherent (mergeStep (coalesceWith unite)) where
  keepsKey := keepsKey_mergeStep _
  symm := by
    rintro a b ⟨r, hr⟩
    rcases mergeStep_cases hr with ⟨-, hb, -, hkey, -, hg⟩ | ⟨-, rfl, rfl⟩
    · refine (unites_mergeStep_of_scope hb).mpr ⟨hkey.symm, (coalesceWith_ok_iff hco).mpr ?_⟩
      exact ((coalesceWith_ok_iff hco).mp ⟨_, hg⟩).perm hco List.perm_append_comm
    · exact ⟨r, hr⟩
  absorb := by
    intro a b r c hr
    rcases mergeStep_cases hr with ⟨ha, hb, hscope, hbkey, hrkey, hg⟩ | ⟨-, rfl, rfl⟩
    · have hab : Compatible unite (a.children ++ b.children) := (coalesceWith_ok_iff hco).mp ⟨_, hg⟩
      rw [unites_mergeStep_of_scope hscope, unites_mergeStep_of_scope ha,
        unites_mergeStep_of_scope hb, hrkey, hbkey, ← and_and_left]
      refine and_congr_right fun _ => ?_
      rw [coalesceWith_ok_iff hco, coalesceWith_ok_iff hco, coalesceWith_ok_iff hco,
        compatible_append_iff hco hg]
      exact compatible_append_append_iff hab
    · exact (and_self_iff).symm

theorem coherent_mergeWithin (depth : Nat) : Coherent (mergeWithin depth) := by
  induction depth with
  | zero =>
    have hall : ∀ a b, Unites (mergeWithin 0) a b := fun a b => ⟨a, rfl⟩
    exact ⟨keepsKey_mergeWithin 0, fun a b _ => hall b a,
      fun a b r c _ => iff_of_true (hall r c) ⟨hall a c, hall b c⟩⟩
  | succ depth ih => exact mergeWithin_succ depth ▸ coherent_mergeStep ih

/-- **A merge succeeds both ways round or not at all.** -/
theorem merge_ok_comm (t i : Decl) : (∃ r, merge t i = .ok r) ↔ ∃ r, merge i t = .ok r := by
  have hswap (a b : Decl) : (∃ r, merge a b = .ok r) → ∃ r, merge b a = .ok r := by
    rw [merge_eq_mergeWithin (Nat.le_max_left a.height b.height) (Nat.le_max_right ..),
      merge_eq_mergeWithin (Nat.le_max_right a.height b.height) (Nat.le_max_left ..)]
    exact (coherent_mergeWithin _).symm a b
  exact ⟨hswap t i, hswap i t⟩

end HeaderReflect.Decl
