import HeaderReflect.Proofs.Merge.Shape

/-!
Why merging fails. In a tidy tree no enum is declared in two ways in one scope
(`unambiguous_factsIn`). If merging tidy trees fails, then an enum is declared in two ways in one
scope of both sides, and the failure names it (`failsByEnum`): nothing else can go wrong.
-/

namespace HeaderReflect

/-- The failure names an enum that the two lists of facts declare in one scope, in two ways. -/
def Blames (error : MergeError) (fs gs : List Fact) : Prop :=
  ∃ path d e, error = .conflict d.name .enumeration ∧ .enumeration path d ∈ fs ∧
    .enumeration path e ∈ gs ∧ d.name = e.name ∧ d ≠ e

/-- No enum is declared in two ways in one scope. -/
def Unambiguous (fs : List Fact) : Prop :=
  ∀ path d e, .enumeration path d ∈ fs → .enumeration path e ∈ fs → d.name = e.name → d = e

namespace Blames

/-- Only the enums among the facts matter. -/
theorem mono {error : MergeError} {fs gs fs' gs' : List Fact} (h : Blames error fs gs)
    (hf : ∀ path e, .enumeration path e ∈ fs → .enumeration path e ∈ fs')
    (hg : ∀ path e, .enumeration path e ∈ gs → .enumeration path e ∈ gs') :
    Blames error fs' gs' := by
  obtain ⟨path, d, e, herror, hd, he, hdiffer⟩ := h
  exact ⟨path, d, e, herror, hf path d hd, hg path e he, hdiffer⟩

theorem false_of_unambiguous {error : MergeError} {fs : List Fact} (h : Blames error fs fs)
    (hfs : Unambiguous fs) : False := by
  obtain ⟨path, d, e, -, hd, he, hname, hne⟩ := h
  exact hne (hfs path d e hd he hname)

/-- What is wrong with two lists together and with neither alone lies between them. -/
theorem across {error : MergeError} {fs gs : List Fact} (h : Blames error (fs ++ gs) (fs ++ gs))
    (hfs : Unambiguous fs) (hgs : Unambiguous gs) : Blames error fs gs := by
  obtain ⟨path, d, e, herror, hd, he, hname, hne⟩ := h
  rcases List.mem_append.mp hd with hd | hd <;> rcases List.mem_append.mp he with he | he
  · exact absurd (hfs path d e hd he hname) hne
  · exact ⟨path, d, e, herror, hd, he, hname, hne⟩
  · exact ⟨path, e, d, hname ▸ herror, he, hd, hname.symm, hne.symm⟩
  · exact absurd (hgs path d e hd he hname) hne

end Blames

theorem unambiguous_of_not_blames {fs : List Fact} (h : ∀ error, ¬Blames error fs fs) :
    Unambiguous fs := by
  intro path d e hd he hname
  refine Decidable.byContradiction fun hne => ?_
  exact h _ ⟨path, d, e, rfl, hd, he, hname, hne⟩

namespace Decl

/-! ## Enums of tidy trees -/

theorem mem_factsInAll {scopes : ScopePath} {ds : List Decl} {f : Fact} :
    f ∈ factsInAll scopes ds ↔ ∃ d ∈ ds, f ∈ d.factsIn scopes := by
  induction ds with
  | nil => simp [factsInAll]
  | cons d ds ih => simp [factsInAll, ih]

/-- The enums in a declaration are itself or those that its children hold. -/
theorem enumeration_mem_factsIn {scopes path : ScopePath} {d : Decl} {e : EnumInfo} :
    .enumeration path e ∈ d.factsIn scopes ↔
      (d = .enumDecl e ∧ path = scopes) ∨
        .enumeration path e ∈ factsInAll (scopes ++ [d.key]) d.children := by
  cases d with
  | classDecl n a m cs => simp [factsIn, Members.mem_facts, children, key, name, kind]
  | enumDecl info =>
    simp only [factsIn, List.mem_singleton, Fact.enumeration.injEq, children, factsInAll,
      List.not_mem_nil, or_false, enumDecl.injEq, @eq_comm _ e]
    exact and_comm
  | _ => simp [factsIn, children, factsInAll, key, name, kind]

mutual

theorem path_of_enumeration : ∀ (d : Decl) (scopes path : ScopePath) (e : EnumInfo),
    .enumeration path e ∈ d.factsIn scopes →
      (d = .enumDecl e ∧ path = scopes) ∨ ∃ below, path = scopes ++ d.key :: below
  | .namespaceDecl n a cs, scopes, path, e, h => by
    rcases enumeration_mem_factsIn.mp h with hself | hnested
    · exact .inl hself
    · exact .inr (path_of_enumerationAll cs scopes (n, .namespaceScope) path e hnested)
  | .classDecl n a m cs, scopes, path, e, h => by
    rcases enumeration_mem_factsIn.mp h with hself | hnested
    · exact .inl hself
    · exact .inr (path_of_enumerationAll cs scopes (n, .classScope) path e hnested)
  | .enumDecl _, _, _, _, h | .fieldDecl _, _, _, _, h | .methodDecl _, _, _, _, h
  | .ctorDecl _, _, _, _, h => by
    rcases enumeration_mem_factsIn.mp h with hself | hnested
    · exact .inl hself
    · cases hnested

theorem path_of_enumerationAll : ∀ (ds : List Decl) (scopes : ScopePath) (own : String × Kind)
    (path : ScopePath) (e : EnumInfo), .enumeration path e ∈ factsInAll (scopes ++ [own]) ds →
      ∃ below, path = scopes ++ own :: below
  | [], _, _, _, _, h => by cases h
  | d :: ds, scopes, own, path, e, h => by
    rcases List.mem_append.mp h with h | h
    · rcases path_of_enumeration d (scopes ++ [own]) path e h with ⟨-, rfl⟩ | ⟨below, rfl⟩
      · exact ⟨[], rfl⟩
      · exact ⟨d.key :: below, by simp⟩
    · exact path_of_enumerationAll ds scopes own path e h

end

/-- Two declarations that stand in one scope can hold one enum only if they have one key. -/
theorem key_eq_of_blames {error : MergeError} {scopes : ScopePath} {c d : Decl}
    (h : Blames error (c.factsIn scopes) (d.factsIn scopes)) : c.key = d.key := by
  obtain ⟨path, a, b, -, ha, hb, hname, -⟩ := h
  rcases path_of_enumeration c scopes path a ha with ⟨rfl, rfl⟩ | ⟨below, rfl⟩
  · rcases path_of_enumeration d path path b hb with ⟨rfl, -⟩ | ⟨below, hpath⟩
    · simp [key, name, kind, hname]
    · simp at hpath
  · rcases path_of_enumeration d scopes _ b hb with ⟨-, hpath⟩ | ⟨below', hpath⟩
    · simp at hpath
    · simp only [List.append_cancel_left_eq, List.cons.injEq] at hpath
      exact hpath.1

/-- Whether the enums in a declaration are unambiguous is a matter of its children. -/
theorem unambiguous_of_children {scopes : ScopePath} {d : Decl}
    (h : Unambiguous (factsInAll (scopes ++ [d.key]) d.children)) :
    Unambiguous (d.factsIn scopes) := by
  intro path a b ha hb hname
  rcases enumeration_mem_factsIn.mp ha with ⟨rfl, -⟩ | ha
  · rcases enumeration_mem_factsIn.mp hb with ⟨hb, -⟩ | hb
    · exact enumDecl.inj hb
    · cases hb
  · rcases enumeration_mem_factsIn.mp hb with ⟨rfl, -⟩ | hb
    · cases ha
    · exact h path a b ha hb hname

mutual

/-- **In a tidy tree no enum is declared in two ways in one scope.** -/
theorem unambiguous_factsIn : ∀ (d : Decl) (scopes : ScopePath), (∀ e ∈ d.parts, e.Tidy) →
    Unambiguous (d.factsIn scopes)
  | .namespaceDecl _ _ cs, _, h =>
    unambiguous_of_children (unambiguous_factsInAll cs _ (Recorded.of_tidy h))
  | .classDecl _ _ _ cs, _, h =>
    unambiguous_of_children (unambiguous_factsInAll cs _ (Recorded.of_tidy h))
  | .enumDecl _, _, _ | .fieldDecl _, _, _ | .methodDecl _, _, _ | .ctorDecl _, _, _ =>
    unambiguous_of_children fun _ _ _ h => by cases h

theorem unambiguous_factsInAll : ∀ (ds : List Decl) (scopes : ScopePath), Recorded ds →
    Unambiguous (factsInAll scopes ds)
  | [], _, _ => fun _ _ _ h => by cases h
  | c :: ds, scopes, h => by
    obtain ⟨hc, hds⟩ := List.forall_mem_cons.mp h.recordable
    obtain ⟨hnew, hdistinct⟩ := List.nodup_cons.mp h.distinct
    have hfirst := unambiguous_factsIn c scopes hc.tidy
    have hrest := unambiguous_factsInAll ds scopes ⟨hdistinct, hds⟩
    refine unambiguous_of_not_blames fun error hblames => ?_
    obtain ⟨path, a, b, herror, ha, hb, hdiffer⟩ := hblames.across hfirst hrest
    obtain ⟨d, hd, hb⟩ := mem_factsInAll.mp hb
    have hkey : c.key = d.key := key_eq_of_blames ⟨path, a, b, herror, ha, hb, hdiffer⟩
    exact hnew (hkey ▸ List.mem_map_of_mem hd)

end

/-! ## Failures -/

/-- A placement fails at a declaration that may not stand in a scope, or at a sibling of its key
with which it cannot be united. -/
theorem placeWith_error {unite : Unite} {siblings : List Decl} {d : Decl} {error : MergeError}
    (h : placeWith unite siblings d = .error error) :
    d.isScopeChild = false ∨ ∃ s ∈ siblings, s.key = d.key ∧ unite s d = .error error := by
  cases hd : d.isScopeChild with
  | false => exact .inl rfl
  | true =>
    refine .inr ?_
    induction siblings with
    | nil => rw [placeWith_nil unite hd] at h; cases h
    | cons s rest ih =>
      by_cases hkey : s.key = d.key
      · rw [placeWith_cons_of_key unite rest hd hkey] at h
        cases hu : unite s d with
        | ok r => rw [hu] at h; cases h
        | error e =>
          rw [hu] at h
          cases h
          exact ⟨s, List.mem_cons_self .., hkey, hu⟩
      · rw [placeWith_cons_of_ne unite rest hd hkey] at h
        cases hp : placeWith unite rest d with
        | ok placed => rw [hp] at h; cases h
        | error e =>
          rw [hp] at h
          cases h
          obtain ⟨t, ht, hunite⟩ := ih hp
          exact ⟨t, List.mem_cons_of_mem s ht, hunite⟩

/-- One level of a merge of two declarations of one key fails where grouping what is nested fails,
or because two declarations that are no scopes differ. -/
theorem mergeStep_error {group : List Decl → Except MergeError (List Decl)} {t i : Decl}
    {error : MergeError} (hkey : t.key = i.key) (h : mergeStep group t i = .error error) :
    group (t.children ++ i.children) = .error error ∨
      (t.isScope = false ∧ i ≠ t ∧ error = .conflict t.name t.kind) := by
  have hmap {x : Except MergeError (List Decl)} {f : List Decl → Decl}
      (hx : x.map f = .error error) : x = .error error := by
    cases x with
    | error e => cases hx; rfl
    | ok es => cases hx
  have hagree {same : Prop} [Decidable same] (hx : mergeStep.agree t same = .error error) :
      ¬same ∧ error = .conflict t.name t.kind := by
    unfold mergeStep.agree at hx
    split at hx
    · cases hx
    · cases hx
      exact ⟨‹_›, rfl⟩
  obtain ⟨hname, hkind⟩ := Prod.mk.inj hkey
  unfold mergeStep at h
  rw [if_pos ⟨hname, hkind⟩] at h
  split at h
  · exact .inl (hmap h)
  · exact .inl (hmap h)
  case h_7 hns hcls henum hfield hmethod hctor =>
    -- Declarations of one kind are covered by the cases above.
    exfalso
    cases t <;> cases i <;> cases hkind
    · exact hns _ _ _ _ _ _ rfl rfl
    · exact hcls _ _ _ _ _ _ _ _ rfl rfl
    · exact henum _ _ rfl rfl
    · exact hfield _ _ rfl rfl
    · exact hmethod _ _ rfl rfl
    · exact hctor _ _ rfl rfl
  all_goals
    obtain ⟨hne, herror⟩ := hagree h
    exact .inr ⟨rfl, fun heq => hne (by cases heq; rfl), herror⟩

/-- A merge of the two fails only over an enum, if both are tidy. -/
def FailsByEnum (t i : Decl) : Prop :=
  ∀ error, t.Recordable → i.Recordable → t.key = i.key → merge t i = .error error →
    ∀ scopes, Blames error (t.factsIn scopes) (i.factsIn scopes)

theorem blames_placeWith {siblings : List Decl} {d : Decl} {error : MergeError}
    (hunite : ∀ s ∈ siblings, FailsByEnum s d) (hs : Recorded siblings) (hd : d.Recordable)
    (h : placeWith merge siblings d = .error error) (scopes : ScopePath) :
    Blames error (factsInAll scopes siblings) (d.factsIn scopes) := by
  rcases placeWith_error h with hchild | ⟨s, hmem, hkey, hmerge⟩
  · rw [hd.scopeChild] at hchild
    cases hchild
  · have hblames := hunite s hmem error (hs.recordable s hmem) hd hkey hmerge scopes
    exact hblames.mono (fun _ _ he => mem_factsInAll.mpr ⟨s, hmem, he⟩) (fun _ _ he => he)

theorem blames_placeAllWith {n : Nat}
    (hunite : ∀ t i : Decl, t.height ≤ n → i.height ≤ n → FailsByEnum t i)
    {siblings ds : List Decl} {error : MergeError} (hs : Recorded siblings)
    (hd : ∀ d ∈ ds, d.Recordable) (hsHeight : ∀ s ∈ siblings, s.height ≤ n)
    (hdHeight : ∀ d ∈ ds, d.height ≤ n)
    (h : placeAllWith merge siblings ds = .error error) (scopes : ScopePath) :
    Blames error (factsInAll scopes (siblings ++ ds)) (factsInAll scopes (siblings ++ ds)) := by
  induction ds generalizing siblings with
  | nil => cases h
  | cons d ds ih =>
    obtain ⟨hfirst, hrest⟩ := List.forall_mem_cons.mp hd
    obtain ⟨hfirstHeight, hrestHeight⟩ := List.forall_mem_cons.mp hdHeight
    rw [placeAllWith_cons] at h
    cases hp : placeWith merge siblings d with
    | error e =>
      rw [hp] at h
      cases h
      have hblames := blames_placeWith (fun s hmem => hunite s d (hsHeight s hmem) hfirstHeight)
        hs hfirst hp scopes
      refine hblames.mono (fun _ _ he => ?_) (fun _ _ he => ?_)
      · simp [factsInAll_append, he]
      · simp [factsInAll_append, factsInAll, he]
    | ok placed =>
      rw [hp] at h
      have hplaced : placeAllWith merge siblings [d] = .ok placed := by
        rw [placeAllWith_singleton, hp]
      have hplacedHeight : ∀ s ∈ placed, s.height ≤ n :=
        forall_placeAllWith (fun _ _ _ ha hb hr => height_merge_le ha hb hr) hsHeight (by simpa)
          hplaced
      have hblames := ih (hs.placeWith hfirst hp) hrest hplacedHeight hrestHeight h
      have hin (path : ScopePath) (e : EnumInfo)
          (he : .enumeration path e ∈ factsInAll scopes (placed ++ ds)) :
          .enumeration path e ∈ factsInAll scopes (siblings ++ d :: ds) := by
        rw [factsInAll_append, List.mem_append,
          mem_factsInAll_placeWith (fun _ _ _ => joinsFacts_merge) hp] at he
        simpa [factsInAll_append, factsInAll, or_assoc] using he
      exact hblames.mono hin hin

theorem failsByEnum_of_height {n : Nat} (t i : Decl) (ht : t.height ≤ n) (hi : i.height ≤ n) :
    FailsByEnum t i := by
  induction n generalizing t i with
  | zero => have := t.height_pos; omega
  | succ n ih =>
    intro error htRec hiRec hkey h scopes
    rw [merge_eq] at h
    rcases mergeStep_error hkey h with hgroup | ⟨hleaf, hne, rfl⟩
    · have htChildren := Recorded.of_tidy htRec.tidy
      have hiChildren := Recorded.of_tidy hiRec.tidy
      have hnested := blames_placeAllWith ih Recorded.nil
        (List.forall_mem_append.mpr ⟨htChildren.recordable, hiChildren.recordable⟩) (by simp)
        (List.forall_mem_append.mpr
          ⟨fun c => height_children_le ht, fun c => height_children_le hi⟩)
        hgroup (scopes ++ [t.key])
      rw [List.nil_append, factsInAll_append] at hnested
      -- Neither side is at fault alone, so the two declarations stand one on each side.
      have hacross := hnested.across (unambiguous_factsInAll _ _ htChildren)
        (unambiguous_factsInAll _ _ hiChildren)
      exact hacross.mono (fun _ _ he => enumeration_mem_factsIn.mpr (.inr he))
        (fun _ _ he => enumeration_mem_factsIn.mpr (.inr (hkey ▸ he)))
    · have htChild := htRec.scopeChild
      obtain ⟨hname, hkind⟩ := Prod.mk.inj hkey
      cases t with
      | enumDecl a =>
        cases i with
        | enumDecl b =>
          refine ⟨scopes, a, b, rfl, List.mem_singleton_self _, List.mem_singleton_self _, hname, ?_⟩
          rintro rfl
          exact hne rfl
        | _ => cases hkind
      | namespaceDecl | classDecl => cases hleaf
      | _ => cases htChild

/-- **A merge of tidy trees fails only over an enum** that is declared in two ways in one scope of
both trees. -/
theorem failsByEnum (t i : Decl) : FailsByEnum t i :=
  failsByEnum_of_height t i (Nat.le_max_left ..) (Nat.le_max_right ..)

end Decl

end HeaderReflect
