import HeaderReflect.Proofs.Merge.Grouping

/-!
How deep a merge has to look. A result is never higher than what went into it, so beyond the height
of its arguments a bound on the depth makes no difference, and `merge` satisfies the equation one
would define it by: one level of merging over grouping with `merge` itself (`merge_eq`).
-/

namespace HeaderReflect.Decl

/-! ## Heights -/

theorem heightAll_le_iff {ds : List Decl} {n : Nat} :
    heightAll ds ≤ n ↔ ∀ d ∈ ds, d.height ≤ n := by
  induction ds with
  | nil => simp [heightAll]
  | cons d ds ih => rw [heightAll, Nat.max_le, ih, List.forall_mem_cons]

theorem height_pos (d : Decl) : 0 < d.height := by
  cases d <;> simp [height]

theorem height_children_le {d c : Decl} {n : Nat} (h : d.height ≤ n + 1) (hc : c ∈ d.children) :
    c.height ≤ n := by
  cases d with
  | namespaceDecl name attrs cs =>
    have hcs : heightAll cs ≤ n := by simpa [height] using h
    exact heightAll_le_iff.mp hcs c hc
  | classDecl name attrs members cs =>
    have hcs : heightAll cs ≤ n := by simpa [height] using h
    exact heightAll_le_iff.mp hcs c hc
  | _ => simp [children] at hc

/-! ## What placing keeps -/

/-- What holds of all siblings and all that is placed holds of the outcome, if uniting keeps it. -/
theorem forall_placeAllWith {unite : Unite} {P : Decl → Prop}
    (hunite : ∀ a b r, P a → P b → unite a b = .ok r → P r) {siblings ds out : List Decl}
    (hs : ∀ s ∈ siblings, P s) (hd : ∀ d ∈ ds, P d)
    (h : placeAllWith unite siblings ds = .ok out) : ∀ o ∈ out, P o := by
  induction ds generalizing siblings with
  | nil => cases h; exact hs
  | cons d ds ih =>
    rw [placeAllWith_cons] at h
    cases hp : placeWith unite siblings d with
    | error e => rw [hp] at h; cases h
    | ok placed =>
      rw [hp] at h
      have hdP : P d := hd d (List.mem_cons_self ..)
      refine ih ?_ (fun e he => hd e (List.mem_cons_of_mem _ he)) h
      obtain ⟨-, ⟨-, rfl⟩ | ⟨before, s, after, r, rfl, -, -, hu, rfl⟩⟩ := placeWith_cases hp
      · intro p hp'
        rcases List.mem_append.mp hp' with hm | hm
        · exact hs p hm
        · exact (List.mem_singleton.mp hm) ▸ hdP
      · have hr : P r := hunite s d r (hs s (by simp)) hdP hu
        intro p hp'
        simp only [List.mem_append, List.mem_cons] at hp'
        rcases hp' with hm | rfl | hm
        · exact hs p (by simp [hm])
        · exact hr
        · exact hs p (by simp [hm])

/-- Two ways of uniting that agree on all that can turn up place alike. -/
theorem placeAllWith_congr {unite other : Unite} {P : Decl → Prop}
    (hunite : ∀ a b r, P a → P b → unite a b = .ok r → P r)
    (hagree : ∀ a b, P a → P b → unite a b = other a b) {siblings ds : List Decl}
    (hs : ∀ s ∈ siblings, P s) (hd : ∀ d ∈ ds, P d) :
    placeAllWith unite siblings ds = placeAllWith other siblings ds := by
  induction ds generalizing siblings with
  | nil => rfl
  | cons d ds ih =>
    have hdP : P d := hd d (List.mem_cons_self ..)
    have hone : placeWith unite siblings d = placeWith other siblings d := by
      cases hc : d.isScopeChild with
      | false => rw [placeWith_of_not_scopeChild _ _ hc, placeWith_of_not_scopeChild _ _ hc]
      | true =>
        clear ih
        induction siblings with
        | nil => rw [placeWith_nil _ hc, placeWith_nil _ hc]
        | cons s rest ihs =>
          by_cases hk : s.key = d.key
          · rw [placeWith_cons_of_key _ _ hc hk, placeWith_cons_of_key _ _ hc hk,
              hagree s d (hs s (List.mem_cons_self ..)) hdP]
          · rw [placeWith_cons_of_ne _ _ hc hk, placeWith_cons_of_ne _ _ hc hk,
              ihs fun t ht => hs t (List.mem_cons_of_mem _ ht)]
    rw [placeAllWith_cons, placeAllWith_cons, ← hone]
    cases hp : placeWith unite siblings d with
    | error e => rfl
    | ok placed =>
      have hall : placeAllWith unite siblings [d] = .ok placed := by
        rw [placeAllWith_cons, hp]
        rfl
      have hplaced : ∀ p ∈ placed, P p :=
        forall_placeAllWith hunite hs (fun e he => hd e (by simp_all)) hall
      exact ih hplaced fun e he => hd e (List.mem_cons_of_mem _ he)

/-! ## One level of a merge -/

/-- Whether something can be nested in the declaration. -/
def isScope : Decl → Bool
  | .namespaceDecl .. => true
  | .classDecl .. => true
  | _ => false

/-- A merge unites two namespaces or two classes of one name, or two equal declarations that are
no scopes. -/
theorem mergeStep_ok_iff {group : List Decl → Except MergeError (List Decl)} {t i r : Decl} :
    mergeStep group t i = .ok r ↔
      (∃ n a b cs ds es, t = .namespaceDecl n a cs ∧ i = .namespaceDecl n b ds ∧
        group (cs ++ ds) = .ok es ∧ r = .namespaceDecl n a es) ∨
      (∃ n a b m k cs ds es, t = .classDecl n a m cs ∧ i = .classDecl n b k ds ∧
        group (cs ++ ds) = .ok es ∧ r = .classDecl n a (m.absorb k) es) ∨
      (t.isScope = false ∧ i = t ∧ r = t) := by
  have hmap : ∀ {x : Except MergeError (List Decl)} {f : List Decl → Decl},
      x.map f = .ok r → ∃ es, x = .ok es ∧ r = f es := by
    intro x f h
    cases x with
    | error e => cases h
    | ok es => cases h; exact ⟨es, rfl, rfl⟩
  have hagree : ∀ {same : Prop} [Decidable same], mergeStep.agree t same = .ok r →
      same ∧ r = t := by
    intro same _ h
    unfold mergeStep.agree at h
    split at h
    · cases h; exact ⟨‹_›, rfl⟩
    · cases h
  constructor
  · intro h
    unfold mergeStep at h
    split at h
    · rename_i hkey
      split at h
      · obtain ⟨es, hg, rfl⟩ := hmap h
        obtain rfl := hkey.1
        exact .inl ⟨_, _, _, _, _, es, rfl, rfl, hg, rfl⟩
      · obtain ⟨es, hg, rfl⟩ := hmap h
        obtain rfl := hkey.1
        exact .inr (.inl ⟨_, _, _, _, _, _, _, es, rfl, rfl, hg, rfl⟩)
      all_goals
        obtain ⟨hsame, rfl⟩ := hagree h
        first
          | exact hsame.elim
          | exact .inr (.inr ⟨rfl, by rw [hsame], rfl⟩)
    · cases h
  · rintro (⟨n, a, b, cs, ds, es, rfl, rfl, hg, rfl⟩ |
      ⟨n, a, b, m, k, cs, ds, es, rfl, rfl, hg, rfl⟩ | ⟨hleaf, rfl, rfl⟩)
    · simp [mergeStep, name, kind, hg, Except.map]
    · simp [mergeStep, name, kind, hg, Except.map]
    · unfold mergeStep
      rw [if_pos ⟨rfl, rfl⟩]
      cases r with
      | namespaceDecl | classDecl => cases hleaf
      | _ => exact if_pos rfl

theorem mergeStep_congr {group other : List Decl → Except MergeError (List Decl)} {t i : Decl}
    (h : group (t.children ++ i.children) = other (t.children ++ i.children)) :
    mergeStep group t i = mergeStep other t i := by
  cases t <;> cases i <;> simp_all [mergeStep, children]

theorem keepsKey_mergeStep (group : List Decl → Except MergeError (List Decl)) :
    KeepsKey (mergeStep group) := by
  intro t i r h
  rcases mergeStep_ok_iff.mp h with ⟨n, a, b, cs, ds, es, rfl, -, -, rfl⟩ |
    ⟨n, a, b, m, k, cs, ds, es, rfl, -, -, rfl⟩ | ⟨-, -, rfl⟩ <;> rfl

theorem keepsKey_mergeWithin (depth : Nat) : KeepsKey (mergeWithin depth) := by
  cases depth with
  | zero => intro t i r h; cases h; rfl
  | succ depth => exact keepsKey_mergeStep _

theorem mergeWithin_succ (depth : Nat) :
    mergeWithin (depth + 1) = mergeStep (coalesceWith (mergeWithin depth)) :=
  congrArg mergeStep (funext (groupWith_eq (keepsKey_mergeWithin depth)))

/-! ## Looking deep enough -/

theorem height_mergeWithin_le {depth n : Nat} {t i r : Decl} (ht : t.height ≤ n)
    (hi : i.height ≤ n) (h : mergeWithin depth t i = .ok r) : r.height ≤ n := by
  induction depth generalizing n t i r with
  | zero => cases h; exact ht
  | succ depth ih =>
    have hall : ∀ {m : Nat} {cs ds es : List Decl}, heightAll cs ≤ m → heightAll ds ≤ m →
        coalesceWith (mergeWithin depth) (cs ++ ds) = .ok es → heightAll es ≤ m := by
      intro m cs ds es hcs hds hg
      refine heightAll_le_iff.mpr (forall_placeAllWith (P := fun d => d.height ≤ m)
        (fun a b r ha hb hr => ih ha hb hr) (by simp) ?_ hg)
      intro d hd
      rcases List.mem_append.mp hd with hm | hm
      · exact heightAll_le_iff.mp hcs d hm
      · exact heightAll_le_iff.mp hds d hm
    rw [mergeWithin_succ] at h
    rcases mergeStep_ok_iff.mp h with ⟨name, a, b, cs, ds, es, rfl, rfl, hg, rfl⟩ |
      ⟨name, a, b, m, k, cs, ds, es, rfl, rfl, hg, rfl⟩ | ⟨-, -, rfl⟩
    · simp only [height] at ht hi ⊢
      have := hall (m := n - 1) (by omega) (by omega) hg
      omega
    · simp only [height] at ht hi ⊢
      have := hall (m := n - 1) (by omega) (by omega) hg
      omega
    · exact ht

theorem mergeWithin_eq_of_height {n depth other : Nat} {t i : Decl} (ht : t.height ≤ n)
    (hi : i.height ≤ n) (hd : n ≤ depth) (ho : n ≤ other) :
    mergeWithin depth t i = mergeWithin other t i := by
  induction n generalizing depth other t i with
  | zero => have := t.height_pos; omega
  | succ n ih =>
    obtain ⟨depth, rfl⟩ : ∃ k, depth = k + 1 := ⟨depth - 1, by omega⟩
    obtain ⟨other, rfl⟩ : ∃ k, other = k + 1 := ⟨other - 1, by omega⟩
    rw [mergeWithin_succ, mergeWithin_succ]
    refine mergeStep_congr (placeAllWith_congr (P := fun d => d.height ≤ n) ?_ ?_ (by simp) ?_)
    · intro a b r ha hb hr
      exact height_mergeWithin_le ha hb hr
    · intro a b ha hb
      exact ih ha hb (by omega) (by omega)
    · intro d hm
      rcases List.mem_append.mp hm with hm | hm
      · exact height_children_le ht hm
      · exact height_children_le hi hm

theorem merge_eq_mergeWithin {t i : Decl} {depth : Nat} (ht : t.height ≤ depth)
    (hi : i.height ≤ depth) : merge t i = mergeWithin depth t i :=
  mergeWithin_eq_of_height (Nat.le_max_left ..) (Nat.le_max_right ..) (Nat.le_refl _)
    (Nat.max_le.mpr ⟨ht, hi⟩)

theorem height_merge_le {t i r : Decl} {n : Nat} (ht : t.height ≤ n) (hi : i.height ≤ n)
    (h : merge t i = .ok r) : r.height ≤ n :=
  height_mergeWithin_le ht hi h

theorem coalesceWith_merge {ds : List Decl} {depth : Nat} (h : heightAll ds ≤ depth) :
    coalesceWith merge ds = coalesceWith (mergeWithin depth) ds :=
  placeAllWith_congr (P := fun d => d.height ≤ depth)
    (fun _ _ _ ha hb hr => height_merge_le ha hb hr)
    (fun _ _ ha hb => merge_eq_mergeWithin ha hb) (by simp) (heightAll_le_iff.mp h)

theorem coalesce_eq (ds : List Decl) : coalesce ds = coalesceWith merge ds :=
  (groupWith_eq (keepsKey_mergeWithin _) ds).trans (coalesceWith_merge (Nat.le_refl _)).symm

/-- A merge is one level of merging over the grouping of what is nested. -/
theorem merge_eq (t i : Decl) : merge t i = mergeStep (coalesceWith merge) t i := by
  have hm : merge t i = mergeWithin (max t.height i.height + 1) t i :=
    merge_eq_mergeWithin (by omega) (by omega)
  rw [hm, mergeWithin_succ]
  refine mergeStep_congr (coalesceWith_merge ?_).symm
  refine heightAll_le_iff.mpr fun d hd => ?_
  rcases List.mem_append.mp hd with hd | hd
  · exact height_children_le (by omega) hd
  · exact height_children_le (by omega) hd

theorem keepsKey_merge : KeepsKey merge := by
  intro t i r h
  rw [merge_eq] at h
  exact keepsKey_mergeStep _ t i r h

/-- What one level of merging passes on, from uniting siblings in any way to uniting the scopes
around them, holds of merging all the way down. -/
theorem merge_induction {P : Decl → Decl → Decl → Prop}
    (hstep : ∀ unite : Unite, KeepsKey unite → (∀ t i r, unite t i = .ok r → P t i r) →
      ∀ t i r, mergeStep (coalesceWith unite) t i = .ok r → P t i r)
    {t i r : Decl} (h : merge t i = .ok r) : P t i r := by
  obtain ⟨n, ht, hi⟩ : ∃ n, t.height ≤ n ∧ i.height ≤ n :=
    ⟨max t.height i.height, Nat.le_max_left .., Nat.le_max_right ..⟩
  induction n generalizing t i r with
  | zero => have := t.height_pos; omega
  | succ n ih =>
    -- Below the top only declarations of at most `n` levels are united.
    let low : Unite := fun a b =>
      if a.height ≤ n ∧ b.height ≤ n then merge a b else .error (.conflict a.name a.kind)
    have hlow : ∀ a b c, low a b = .ok c → a.height ≤ n ∧ b.height ≤ n ∧ merge a b = .ok c := by
      intro a b c hc
      simp only [low] at hc
      split at hc
      · rename_i hab
        exact ⟨hab.1, hab.2, hc⟩
      · cases hc
    have hgroup : coalesceWith merge (t.children ++ i.children) =
        coalesceWith low (t.children ++ i.children) := by
      refine placeAllWith_congr (P := fun d => d.height ≤ n)
        (fun a b r ha hb hr => height_merge_le ha hb hr) ?_ (by simp) ?_
      · intro a b ha hb
        simp [low, ha, hb]
      · intro d hm
        rcases List.mem_append.mp hm with hm | hm
        · exact height_children_le ht hm
        · exact height_children_le hi hm
    rw [merge_eq, mergeStep_congr hgroup] at h
    refine hstep low ?_ ?_ t i r h
    · intro a b c hc
      exact keepsKey_merge a b c (hlow a b c hc).2.2
    · intro a b c hc
      obtain ⟨ha, hb, hm⟩ := hlow a b c hc
      exact ih hm ha hb

end HeaderReflect.Decl
