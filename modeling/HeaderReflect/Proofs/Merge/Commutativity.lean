import HeaderReflect.Proofs.Merge.Reordering

/-!
Merging the other way round. A merged scope keeps the attributes of the scope that was there first,
so the two outcomes of a merge need not be the same up to order. They are exactly if every scope
that both sides have has the same attributes on both, and every member of such a scope stands as
often on one side as on the other or once on one side alone (`merge_comm_iff`).
-/

namespace HeaderReflect

namespace Decl

/-! ## Grouping by key -/

/-- What stands under a key after two siblings were united, if both sides have one. -/
inductive United (unite : Unite) : Option Decl → Option Decl → Option Decl → Prop
  | neither : United unite none none none
  | left (c : Decl) : United unite (some c) none (some c)
  | right (d : Decl) : United unite none (some d) (some d)
  | both {c d r : Decl} (h : unite c d = .ok r) : United unite (some c) (some d) (some r)

theorem United.of_none (unite : Unite) (c : Option Decl) : United unite c none c := by
  cases c with
  | none => exact .neither
  | some c => exact .left c

theorem United.eq_left {unite : Unite} {c r : Option Decl} (h : United unite c none r) : r = c := by
  cases h <;> rfl

theorem United.eq_right {unite : Unite} {d r : Option Decl} (h : United unite none d r) :
    r = d := by
  cases h <;> rfl

section Grouping

variable {unite : Unite}

theorem sibling?_placeWith_of_ne (hkeep : KeepsKey unite) {siblings out : List Decl} {d : Decl}
    (h : placeWith unite siblings d = .ok out) {key : String × Kind} (hne : d.key ≠ key) :
    sibling? key out = sibling? key siblings := by
  obtain ⟨-, ⟨-, rfl⟩ | ⟨before, s, after, r, rfl, -, hs, hr, rfl⟩⟩ := placeWith_cases h
  · simp [sibling?_append, sibling?_cons, hne]
  · have hrkey : r.key = d.key := (hkeep s d r hr).trans hs
    simp [sibling?_append, sibling?_cons, hrkey, hs, hne]

theorem united_placeWith (hkeep : KeepsKey unite) {siblings out : List Decl} {d : Decl}
    (h : placeWith unite siblings d = .ok out) :
    United unite (sibling? d.key siblings) (some d) (sibling? d.key out) := by
  obtain ⟨-, ⟨habs, rfl⟩ | ⟨before, s, after, r, rfl, habs, hs, hr, rfl⟩⟩ := placeWith_cases h
  · rw [sibling?_append, sibling?_eq_none_iff.mpr habs]
    simpa [sibling?_cons] using United.right d
  · have hrkey : r.key = d.key := (hkeep s d r hr).trans hs
    rw [sibling?_append, sibling?_append, sibling?_eq_none_iff.mpr habs]
    simpa [sibling?_cons, hs, hrkey] using United.both hr

theorem united_placeAllWith (hkeep : KeepsKey unite) {siblings ds out : List Decl}
    (hnodup : (keys ds).Nodup) (h : placeAllWith unite siblings ds = .ok out)
    (key : String × Kind) :
    United unite (sibling? key siblings) (sibling? key ds) (sibling? key out) := by
  induction ds generalizing siblings with
  | nil =>
    cases h
    exact .of_none unite _
  | cons d ds ih =>
    obtain ⟨hd, hrest⟩ := List.nodup_cons.mp hnodup
    rw [placeAllWith_cons] at h
    obtain ⟨placed, hplaced, h⟩ := ok_of_bind h
    have hlater := ih hrest h
    rw [sibling?_cons]
    split
    · rename_i hkey
      subst hkey
      rw [sibling?_eq_none_iff.mpr hd] at hlater
      rw [hlater.eq_left]
      exact united_placeWith hkeep hplaced
    · rename_i hne
      rw [← sibling?_placeWith_of_ne hkeep hplaced hne]
      exact hlater

/-- Under each key, grouping two scopes unites what both have there. -/
theorem united_coalesceWith (hkeep : KeepsKey unite) {cs ds es : List Decl}
    (hcs : (keys cs).Nodup) (hds : (keys ds).Nodup) (h : coalesceWith unite (cs ++ ds) = .ok es)
    (key : String × Kind) :
    United unite (sibling? key cs) (sibling? key ds) (sibling? key es) := by
  rw [coalesceWith, placeAllWith_append] at h
  obtain ⟨first, hfirst, h⟩ := ok_of_bind h
  have hsame := united_placeAllWith hkeep hcs hfirst key
  have hall := united_placeAllWith hkeep hds h key
  rw [sibling?_nil] at hsame
  rwa [hsame.eq_right] at hall

end Grouping

/-! ## Scopes that both sides have -/

end Decl

/-- A scope with the keys of the scopes down to it, and its own attributes and members. -/
structure PlacedScope where
  path : ScopePath
  attrs : Attributes
  members : Members

namespace Decl

mutual

/-- The scopes in a declaration that stands in the given scopes. -/
def scopesIn (above : ScopePath) : Decl → List PlacedScope
  | .namespaceDecl name attrs children =>
    let path := above ++ [(name, .namespaceScope)]
    { path, attrs, members := {} } :: scopesInAll path children
  | .classDecl name attrs members children =>
    let path := above ++ [(name, .classScope)]
    { path, attrs, members } :: scopesInAll path children
  | _ => []

def scopesInAll (above : ScopePath) : List Decl → List PlacedScope
  | [] => []
  | d :: rest => d.scopesIn above ++ scopesInAll above rest

end

/-- All scopes of a declaration tree. -/
def scopes (d : Decl) : List PlacedScope := d.scopesIn []

theorem mem_scopesInAll {above : ScopePath} {ds : List Decl} {p : PlacedScope} :
    p ∈ scopesInAll above ds ↔ ∃ d ∈ ds, p ∈ d.scopesIn above := by
  induction ds with
  | nil => simp [scopesInAll]
  | cons d ds ih => simp [scopesInAll, ih]

theorem mem_scopesIn_iff {above : ScopePath} {d : Decl} {p : PlacedScope} :
    p ∈ d.scopesIn above ↔ d.isScope = true ∧
      (p = ⟨above ++ [d.key], d.attrs, d.members⟩ ∨
        ∃ c ∈ d.children, p ∈ c.scopesIn (above ++ [d.key])) := by
  cases d <;> simp [scopesIn, mem_scopesInAll, isScope, key, name, kind, attrs, members, children]

mutual

theorem path_of_mem_scopesIn : ∀ (d : Decl) (above : ScopePath) (p : PlacedScope),
    p ∈ d.scopesIn above → ∃ below, p.path = above ++ d.key :: below
  | .namespaceDecl n a cs, above, p, hp => by
    rcases List.mem_cons.mp hp with rfl | hp
    · exact ⟨[], rfl⟩
    · exact path_of_mem_scopesInAll cs above (n, .namespaceScope) p hp
  | .classDecl n a m cs, above, p, hp => by
    rcases List.mem_cons.mp hp with rfl | hp
    · exact ⟨[], rfl⟩
    · exact path_of_mem_scopesInAll cs above (n, .classScope) p hp
  | .enumDecl _, _, _, hp | .fieldDecl _, _, _, hp | .methodDecl _, _, _, hp
  | .ctorDecl _, _, _, hp => by simp [scopesIn] at hp

theorem path_of_mem_scopesInAll : ∀ (ds : List Decl) (above : ScopePath) (own : String × Kind)
    (p : PlacedScope), p ∈ scopesInAll (above ++ [own]) ds →
      ∃ below, p.path = above ++ own :: below
  | [], _, _, _, hp => by simp [scopesInAll] at hp
  | d :: ds, above, own, p, hp => by
    rcases List.mem_append.mp hp with hp | hp
    · obtain ⟨below, hpath⟩ := path_of_mem_scopesIn d (above ++ [own]) p hp
      exact ⟨d.key :: below, by simpa using hpath⟩
    · exact path_of_mem_scopesInAll ds above own p hp

end

/-- Every scope that both sides have has the same attributes on both, and its members balance. -/
def AlikeIn (above : ScopePath) (a b : Decl) : Prop :=
  ∀ p ∈ a.scopesIn above, ∀ q ∈ b.scopesIn above, p.path = q.path →
    p.attrs = q.attrs ∧ p.members.Balanced q.members

/-- Two scopes of one key are alike exactly if they are so themselves and any two of one key that
are nested in them are. -/
theorem alikeIn_iff {above : ScopePath} {t i : Decl} (ht : t.isScope = true) (hi : i.isScope = true)
    (hkey : i.key = t.key) :
    AlikeIn above t i ↔ t.attrs = i.attrs ∧ t.members.Balanced i.members ∧
      ∀ c ∈ t.children, ∀ d ∈ i.children, c.key = d.key → AlikeIn (above ++ [t.key]) c d := by
  constructor
  · intro h
    have hown := h _ (mem_scopesIn_iff.mpr ⟨ht, .inl rfl⟩) _ (mem_scopesIn_iff.mpr ⟨hi, .inl rfl⟩)
      (by rw [hkey])
    refine ⟨hown.1, hown.2, fun c hc d hd _ p hp q hq hpath => ?_⟩
    exact h p (mem_scopesIn_iff.mpr ⟨ht, .inr ⟨c, hc, hp⟩⟩) q
      (mem_scopesIn_iff.mpr ⟨hi, .inr ⟨d, hd, hkey ▸ hq⟩⟩) hpath
  · rintro ⟨hattrs, hmembers, hnested⟩ p hp q hq hpath
    -- A path below a scope is longer than that of the scope, and it starts with the child's key.
    have hbelow {e c : Decl} {x : PlacedScope} (he : e.key = t.key)
        (hx : x ∈ c.scopesIn (above ++ [e.key])) :
        ∃ below, x.path = above ++ t.key :: c.key :: below := by
      obtain ⟨below, hx⟩ := path_of_mem_scopesIn c _ x hx
      exact ⟨below, by simpa [he] using hx⟩
    rcases (mem_scopesIn_iff.mp hp).2 with rfl | ⟨c, hc, hp⟩
    · rcases (mem_scopesIn_iff.mp hq).2 with rfl | ⟨d, hd, hq⟩
      · exact ⟨hattrs, hmembers⟩
      · obtain ⟨below, hq⟩ := hbelow hkey hq
        simp [hq] at hpath
    · obtain ⟨below, hp'⟩ := hbelow rfl hp
      rcases (mem_scopesIn_iff.mp hq).2 with rfl | ⟨d, hd, hq⟩
      · simp [hp', hkey] at hpath
      · obtain ⟨under, hq'⟩ := hbelow hkey hq
        have hcd : c.key = d.key := by
          rw [hp', hq'] at hpath
          simpa using (List.cons.inj (List.cons.inj (List.append_cancel_left hpath)).2).1
        exact hnested c hc d hd hcd p hp q (hkey ▸ hq) hpath

/-! ## Merging both ways round -/

/-- No two siblings share their key, at any depth. -/
def DistinctSiblings (d : Decl) : Prop := ∀ e ∈ d.parts, (keys e.children).Nodup

/-- The two outcomes of a merge are the same up to order exactly where both sides are alike. -/
def CommutesWhereAlike (t i r : Decl) : Prop :=
  ∀ above s, t.DistinctSiblings → i.DistinctSiblings → merge i t = .ok s →
    (SameUpToOrder r s ↔ AlikeIn above t i)

/-- What stands under one key after grouping both ways round is the same up to order, unless both
sides have something there. -/
theorem rel_of_united {unite other : Unite} (alike : Decl → Decl → Prop)
    {c d e f : Option Decl} (he : United unite c d e) (hf : United other d c f)
    (hboth : ∀ x y r s, c = some x → d = some y → unite x y = .ok r → other y x = .ok s →
      (SameUpToOrder r s ↔ alike x y)) :
    Option.Rel SameUpToOrder e f ↔ ∀ x y, c = some x → d = some y → alike x y := by
  cases he with
  | neither =>
    cases hf
    exact iff_of_true .none nofun
  | left x =>
    cases hf
    exact iff_of_true (.some (.refl x)) nofun
  | right y =>
    cases hf
    exact iff_of_true (.some (.refl y)) nofun
  | both hr =>
    cases hf with
    | both hs =>
      have h := hboth _ _ _ _ rfl rfl hr hs
      constructor
      · rintro ⟨hsame⟩ x y hx hy
        cases hx
        cases hy
        exact h.mp hsame
      · intro hall
        exact .some (h.mpr (hall _ _ rfl rfl))

theorem mergeStep_scope {group : List Decl → Except MergeError (List Decl)} {t i r : Decl}
    (h : mergeStep group t i = .ok r) (ht : t.isScope = true) :
    r.attrs = t.attrs ∧ r.members = t.members.absorb i.members := by
  rcases mergeStep_ok_iff.mp h with ⟨n, a, b, cs, ds, es, rfl, rfl, -, rfl⟩ |
    ⟨n, a, b, m, k, cs, ds, es, rfl, rfl, -, rfl⟩ | ⟨hleaf, -, -⟩
  · exact ⟨rfl, rfl⟩
  · exact ⟨rfl, rfl⟩
  · rw [ht] at hleaf
    cases hleaf

theorem commutesWhereAlike_merge {t i r : Decl} (h : merge t i = .ok r) :
    CommutesWhereAlike t i r := by
  refine merge_induction (P := CommutesWhereAlike) ?_ h
  intro unite hkeep hunite t i r h above s ht hi hs
  rw [merge_eq] at hs
  obtain ⟨htKeys, htBelow⟩ := forall_parts_iff.mp ht
  obtain ⟨hiKeys, hiBelow⟩ := forall_parts_iff.mp hi
  rcases mergeStep_cases h with ⟨htScope, hiScope, hrScope, hkey, hrkey, hes⟩ | ⟨hleaf, rfl, rfl⟩
  · obtain ⟨-, -, -, -, hskey, hfs⟩ := (mergeStep_cases hs).resolve_right fun hleaf => by
      rw [hiScope] at hleaf
      cases hleaf.1
    obtain ⟨hrAttrs, hrMembers⟩ := mergeStep_scope h htScope
    obtain ⟨hsAttrs, hsMembers⟩ := mergeStep_scope hs hiScope
    have hsiblings : SameSiblings r.children s.children ↔
        ∀ c ∈ t.children, ∀ d ∈ i.children, c.key = d.key → AlikeIn (above ++ [t.key]) c d := by
      rw [sameSiblings_iff (nodup_keys_placeAllWith hkeep hes (by simp))
        (nodup_keys_placeAllWith keepsKey_merge hfs (by simp))]
      have hone (key : String × Kind) := rel_of_united (AlikeIn (above ++ [t.key]))
        (united_coalesceWith hkeep htKeys hiKeys hes key)
        (united_coalesceWith keepsKey_merge hiKeys htKeys hfs key)
        (fun x y p q hx hy hp hq => hunite x y p hp _ q (htBelow x (mem_of_sibling? hx).1)
          (hiBelow y (mem_of_sibling? hy).1) hq)
      simp only [hone]
      constructor
      · intro hall c hc d hd hcd
        exact hall c.key c d (sibling?_of_mem htKeys hc) (hcd ▸ sibling?_of_mem hiKeys hd)
      · intro hall key c d hc hd
        obtain ⟨hcm, hck⟩ := mem_of_sibling? hc
        obtain ⟨hdm, hdk⟩ := mem_of_sibling? hd
        exact hall c hcm d hdm (hck.trans hdk.symm)
    rw [sameUpToOrder_iff_of_scope hrScope (hskey.trans (hkey.trans hrkey.symm)),
      alikeIn_iff htScope hiScope hkey, hsiblings, hrAttrs, hsAttrs, hrMembers, hsMembers,
      Members.absorb_sameUpToOrder_iff]
  · obtain rfl : s = r := by
      rcases mergeStep_cases hs with ⟨hscope, -⟩ | ⟨-, -, rfl⟩
      · rw [hleaf] at hscope
        cases hscope
      · rfl
    refine iff_of_true (.refl s) fun p hp => ?_
    rw [mem_scopesIn_iff, hleaf] at hp
    cases hp.1

/-- **Merging commutes exactly where both sides agree on the scopes they share.** Where no two
siblings share their key, merging the other way round succeeds as well, and the two outcomes are the
same up to the order of siblings and members if and only if every scope that both sides have has the
same attributes on both and every member of it stands as often on both sides or once on one. -/
theorem merge_comm_iff {a b r : Decl} (ha : a.DistinctSiblings) (hb : b.DistinctSiblings)
    (h : merge a b = .ok r) :
    ∃ s, merge b a = .ok s ∧
      (SameUpToOrder r s ↔ ∀ p ∈ a.scopes, ∀ q ∈ b.scopes, p.path = q.path →
        p.attrs = q.attrs ∧ p.members.Balanced q.members) := by
  obtain ⟨s, hs⟩ := (merge_ok_comm a b).mp ⟨r, h⟩
  exact ⟨s, hs, commutesWhereAlike_merge h [] s ha hb hs⟩

namespace Sample

/-- A scope with the class `A`, of which one member is private, and an enum. -/
def defined : Decl :=
  .namespaceDecl "" .none
    [.classDecl "A" .none { fields := { pub := [member "x"], priv := [member "y"] } } [],
     .enumDecl { name := "Color", attrs := .none, items := ["red"] }]

/-- A scope with a class that has the given wishes. -/
def wishing (attrs : Attributes) : Decl :=
  .namespaceDecl "" .none [.classDecl "Player" attrs { fields := { pub := [member "m_hp"] } } []]

end Sample

/-- A class with new members on either side, where the wishes agree. -/
theorem merge_comm_iff_extended :
    Sample.defined.DistinctSiblings ∧ Sample.reopened.DistinctSiblings ∧
      ∃ r s, merge Sample.defined Sample.reopened = .ok r ∧
        merge Sample.reopened Sample.defined = .ok s ∧ SameUpToOrder r s := by
  have hdefined : Sample.defined.DistinctSiblings := by
    unfold DistinctSiblings
    decide
  have hreopened : Sample.reopened.DistinctSiblings := by
    unfold DistinctSiblings
    decide
  obtain ⟨r, hr⟩ : ∃ r, merge Sample.defined Sample.reopened = .ok r := ⟨_, rfl⟩
  obtain ⟨s, hs, hiff⟩ := merge_comm_iff hdefined hreopened hr
  refine ⟨hdefined, hreopened, r, s, hr, hs, hiff.mpr fun p hp q hq _ => ⟨?_, ?_⟩⟩
  · have hall : ∀ p ∈ Sample.defined.scopes ++ Sample.reopened.scopes, p.attrs = .none := by decide
    rw [hall p (List.mem_append_left _ hp), hall q (List.mem_append_right _ hq)]
  · have hall : ∀ p ∈ Sample.defined.scopes ++ Sample.reopened.scopes,
        p.members.methods = {} ∧ p.members.enums = {} ∧ p.members.ctors = {} ∧
          ∀ access ∈ [Access.isPublic, .isProtected, .isPrivate],
            (p.members.fields.get access).Nodup := by decide
    obtain ⟨hpm, hpe, hpc, hpf⟩ := hall p (List.mem_append_left _ hp)
    obtain ⟨hqm, hqe, hqc, hqf⟩ := hall q (List.mem_append_right _ hq)
    refine ⟨fun access => ?_, ?_, ?_, ?_⟩
    · have haccess : access ∈ [Access.isPublic, .isProtected, .isPrivate] := by
        cases access <;> simp
      exact .of_nodup (hpf access haccess) (hqf access haccess)
    · rw [hpm, hqm]
      exact fun _ _ => .inl rfl
    · rw [hpe, hqe]
      exact fun _ _ => .inl rfl
    · rw [hpc, hqc]
      exact fun _ _ => .inl rfl

/-- The wishes of a class that is defined twice are those of the definition that came first. -/
theorem merge_keeps_first_wishes :
    let refl := Sample.wishing { wantsReflection := true }
    let plain := Sample.wishing .none
    refl.DistinctSiblings ∧ plain.DistinctSiblings ∧
      ∃ r s, merge refl plain = .ok r ∧ merge plain refl = .ok s ∧ ¬SameUpToOrder r s ∧
        r.children.map (·.attrs.wantsReflection) = [true] ∧
        s.children.map (·.attrs.wantsReflection) = [false] := by
  refine ⟨by unfold DistinctSiblings; decide, by unfold DistinctSiblings; decide, _, _, rfl, rfl,
    ?_, rfl, rfl⟩
  intro h
  cases h with
  | namespaceDecl hperm hall =>
    cases List.singleton_perm.mp hperm
    cases hall with
    | cons hclass _ => cases hclass

end Decl

end HeaderReflect
