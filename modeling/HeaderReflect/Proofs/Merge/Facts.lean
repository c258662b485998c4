import HeaderReflect.Proofs.Merge.Associativity
import HeaderReflect.Proofs.Merge.Compatible

/-!
What a declaration tree says, as a list of facts: which scopes there are, which enums stand in them
and which members their classes have under which access. Merging two trees gives a tree that says
what either of them says and nothing else, and lists the siblings in the order in which they were
first seen (`merge_facts`).
-/

namespace HeaderReflect

/-! ## Facts -/

inductive Member where
  | field (info : FieldInfo)
  | method (info : MethodInfo)
  | enumeration (info : EnumInfo)
  | ctor (info : CtorInfo)
deriving DecidableEq, Repr

/-- The members of one access. -/
def Members.get (m : Members) (access : Access) : List Member :=
  (m.fields.get access).map .field ++ (m.methods.get access).map .method
    ++ (m.enums.get access).map .enumeration ++ (m.ctors.get access).map .ctor

/-- The keys of scopes inside one another, the outermost first. -/
abbrev ScopePath := List (String × Kind)

/-- A single thing that a declaration tree says. -/
inductive Fact where
  | scope (path : ScopePath)
  | enumeration (path : ScopePath) (info : EnumInfo)
  | member (path : ScopePath) (access : Access) (member : Member)
deriving DecidableEq, Repr

def Members.facts (path : ScopePath) (m : Members) : List Fact :=
  [Access.isPublic, .isProtected, .isPrivate].flatMap fun access =>
    (m.get access).map (Fact.member path access)

namespace Decl

mutual

/-- What a declaration says that stands in the given scopes. -/
def factsIn (scopes : ScopePath) : Decl → List Fact
  | .namespaceDecl name _ children =>
    let path := scopes ++ [(name, .namespaceScope)]
    .scope path :: factsInAll path children
  | .classDecl name _ members children =>
    let path := scopes ++ [(name, .classScope)]
    .scope path :: (members.facts path ++ factsInAll path children)
  | .enumDecl e => [.enumeration scopes e]
  | _ => []

def factsInAll (scopes : ScopePath) : List Decl → List Fact
  | [] => []
  | d :: rest => d.factsIn scopes ++ factsInAll scopes rest

end

/-- All that a declaration tree says. -/
def facts (d : Decl) : List Fact := d.factsIn []

theorem factsInAll_append (scopes : ScopePath) (ds es : List Decl) :
    factsInAll scopes (ds ++ es) = factsInAll scopes ds ++ factsInAll scopes es := by
  induction ds with
  | nil => rfl
  | cons d ds ih => rw [List.cons_append, factsInAll, factsInAll, ih, List.append_assoc]

end Decl

/-! ## Members -/

theorem ByAccess.mem_get_absorb {α : Type} [DecidableEq α] {lists other : ByAccess α}
    {access : Access} {x : α} :
    x ∈ (lists.absorb other).get access ↔ x ∈ lists.get access ∨ x ∈ other.get access := by
  cases access <;> exact mem_addNew

theorem Members.mem_get_absorb {m k : Members} {access : Access} {x : Member} :
    x ∈ (m.absorb k).get access ↔ x ∈ m.get access ∨ x ∈ k.get access := by
  cases x <;> simp [get, absorb, ByAccess.mem_get_absorb]

theorem Members.mem_facts {path : ScopePath} {m : Members} {f : Fact} :
    f ∈ m.facts path ↔ ∃ access x, x ∈ m.get access ∧ f = .member path access x := by
  have hall (access : Access) : access ∈ [Access.isPublic, .isProtected, .isPrivate] := by
    cases access <;> decide
  simp only [facts, List.mem_flatMap, List.mem_map]
  constructor
  · rintro ⟨access, -, x, hx, rfl⟩
    exact ⟨access, x, hx, rfl⟩
  · rintro ⟨access, x, hx, rfl⟩
    exact ⟨access, hall access, x, hx, rfl⟩

theorem Members.mem_facts_absorb {path : ScopePath} {m k : Members} {f : Fact} :
    f ∈ (m.absorb k).facts path ↔ f ∈ m.facts path ∨ f ∈ k.facts path := by
  simp only [mem_facts, mem_get_absorb]
  constructor
  · rintro ⟨access, x, hx | hx, rfl⟩
    · exact .inl ⟨access, x, hx, rfl⟩
    · exact .inr ⟨access, x, hx, rfl⟩
  · rintro (⟨access, x, hx, rfl⟩ | ⟨access, x, hx, rfl⟩)
    · exact ⟨access, x, .inl hx, rfl⟩
    · exact ⟨access, x, .inr hx, rfl⟩

namespace Decl

/-! ## What merging says -/

/-- The third says what the first two say, wherever they stand. -/
def JoinsFacts (t i r : Decl) : Prop :=
  ∀ scopes f, f ∈ r.factsIn scopes ↔ f ∈ t.factsIn scopes ∨ f ∈ i.factsIn scopes

theorem mem_factsInAll_placeWith {unite : Unite}
    (hunite : ∀ t i r, unite t i = .ok r → JoinsFacts t i r) {siblings out : List Decl} {d : Decl}
    (h : placeWith unite siblings d = .ok out) (scopes : ScopePath) (f : Fact) :
    f ∈ factsInAll scopes out ↔ f ∈ factsInAll scopes siblings ∨ f ∈ d.factsIn scopes := by
  obtain ⟨-, ⟨-, rfl⟩ | ⟨before, s, after, r, rfl, -, -, hr, rfl⟩⟩ := placeWith_cases h
  · simp [factsInAll_append, factsInAll]
  · have hjoin := hunite s d r hr scopes f
    simp only [factsInAll_append, factsInAll, List.mem_append, hjoin]
    grind

theorem mem_factsInAll_placeAllWith {unite : Unite}
    (hunite : ∀ t i r, unite t i = .ok r → JoinsFacts t i r) {siblings ds out : List Decl}
    (h : placeAllWith unite siblings ds = .ok out) (scopes : ScopePath) (f : Fact) :
    f ∈ factsInAll scopes out ↔ f ∈ factsInAll scopes siblings ∨ f ∈ factsInAll scopes ds := by
  induction ds generalizing siblings with
  | nil =>
    cases h
    simp [factsInAll]
  | cons d ds ih =>
    rw [placeAllWith_cons] at h
    cases hp : placeWith unite siblings d with
    | error e => rw [hp] at h; cases h
    | ok placed =>
      rw [hp] at h
      rw [ih h, mem_factsInAll_placeWith hunite hp, factsInAll, List.mem_append, or_assoc]

/-- **Merging joins what both sides say.** -/
theorem joinsFacts_merge {t i r : Decl} (h : merge t i = .ok r) : JoinsFacts t i r := by
  refine merge_induction (P := JoinsFacts) ?_ h
  intro unite _ hunite t i r h scopes f
  have hnested {path : ScopePath} {cs ds es : List Decl}
      (hg : coalesceWith unite (cs ++ ds) = .ok es) :
      f ∈ factsInAll path es ↔ f ∈ factsInAll path cs ∨ f ∈ factsInAll path ds := by
    rw [mem_factsInAll_placeAllWith hunite hg, factsInAll_append, List.mem_append]
    simp [factsInAll]
  rcases mergeStep_ok_iff.mp h with ⟨n, a, b, cs, ds, es, rfl, rfl, hg, rfl⟩ |
    ⟨n, a, b, m, k, cs, ds, es, rfl, rfl, hg, rfl⟩ | ⟨-, rfl, rfl⟩
  · simp only [factsIn, List.mem_cons, hnested hg]
    grind
  · simp only [factsIn, List.mem_cons, List.mem_append, hnested hg, Members.mem_facts_absorb]
    grind
  · exact or_self_iff.symm

/-! ## The order of siblings -/

/-- Adding new items appends those not known, each where it is first seen. -/
theorem addNew_eq {α : Type} [DecidableEq α] [BEq α] [LawfulBEq α] (known items : List α) :
    addNew known items = known ++ (items.filter (· ∉ known)).eraseDups := by
  induction items generalizing known with
  | nil => simp [addNew]
  | cons item rest ih =>
    by_cases hknown : item ∈ known
    · simp [addNew, hknown, ih]
    · have hlater : (rest.filter (· ∉ known ++ [item])) =
          (rest.filter (· ∉ known)).filter fun x => !x == item := by
        rw [List.filter_filter]
        refine List.filter_congr fun x _ => ?_
        by_cases hx : x = item <;> simp [hx]
      simp only [addNew, hknown, ↓reduceIte]
      rw [ih, List.filter_cons_of_pos (by simpa using hknown), List.eraseDups_cons, hlater,
        List.append_assoc]
      rfl

theorem keys_placeAllWith {unite : Unite} (hkeep : KeepsKey unite) {siblings ds out : List Decl}
    (h : placeAllWith unite siblings ds = .ok out) :
    keys out = addNew (keys siblings) (keys ds) := by
  induction ds generalizing siblings with
  | nil =>
    cases h
    rfl
  | cons d ds ih =>
    rw [placeAllWith_cons] at h
    cases hp : placeWith unite siblings d with
    | error e => rw [hp] at h; cases h
    | ok placed =>
      rw [hp] at h
      rw [ih h, keys_placeWith hkeep hp, keys_cons, addNew]
      split <;> rfl

/-- The siblings of the target come first, then the new ones, all as they were first seen. -/
theorem keys_children_merge {t i r : Decl} (h : merge t i = .ok r) :
    keys r.children =
      (keys t.children).eraseDups ++
        ((keys i.children).filter (· ∉ keys t.children)).eraseDups := by
  rw [merge_eq] at h
  have hgrouped {cs ds es : List Decl} (hg : coalesceWith merge (cs ++ ds) = .ok es) :
      keys es = (keys cs).eraseDups ++ ((keys ds).filter (· ∉ keys cs)).eraseDups := by
    have hfirst : addNew [] (keys cs) = (keys cs).eraseDups := by
      rw [addNew_eq, List.nil_append, List.filter_eq_self.mpr (by simp)]
    rw [keys_placeAllWith keepsKey_merge hg, keys_nil, keys_append, addNew_append, hfirst, addNew_eq]
    simp only [List.mem_eraseDups]
  rcases mergeStep_cases h with ⟨-, -, -, -, -, hg⟩ | ⟨hleaf, rfl, rfl⟩
  · exact hgrouped hg
  · cases r with
    | namespaceDecl | classDecl => cases hleaf
    | _ => rfl

/-- **Merging neither loses nor invents declarations.** It succeeds both ways round or not at all,
and its outcome says what either side says and nothing else; the siblings of the target come first
and then the new ones, each in the order in which they were first seen. -/
theorem merge_facts (t i : Decl) :
    ((∃ r, merge t i = .ok r) ↔ ∃ r, merge i t = .ok r) ∧
      ∀ r, merge t i = .ok r →
        (∀ f, f ∈ r.facts ↔ f ∈ t.facts ∨ f ∈ i.facts) ∧
        keys r.children =
          (keys t.children).eraseDups ++
            ((keys i.children).filter (· ∉ keys t.children)).eraseDups :=
  ⟨merge_ok_comm t i, fun _ h => ⟨joinsFacts_merge h [], keys_children_merge h⟩⟩

namespace Sample

def member (name : String) : FieldInfo where
  name := name
  attrs := .none
  type := "int"
  isStatic := false
  isMember := true

/-- A scope in which the class `A` stands twice, once with a private member. -/
def opened : Decl :=
  .namespaceDecl "" .none
    [.classDecl "A" .none { fields := { pub := [member "x"] } } [],
     .enumDecl { name := "Color", attrs := .none, items := ["red"] },
     .classDecl "A" .none { fields := { priv := [member "y"] } } []]

/-- A scope with a namespace and with the class `A` again. -/
def reopened : Decl :=
  .namespaceDecl "" .none
    [.namespaceDecl "N" .none [],
     .classDecl "A" .none { fields := { pub := [member "x", member "z"] } } []]

/-- Both scopes in one. -/
def merged : Decl :=
  .namespaceDecl "" .none
    [.classDecl "A" .none
      { fields := { pub := [member "x", member "z"], priv := [member "y"] } } [],
     .enumDecl { name := "Color", attrs := .none, items := ["red"] },
     .namespaceDecl "N" .none []]

end Sample

/-- A class that is defined three times becomes one, at its first place. -/
theorem merge_facts_reopened :
    merge Sample.opened Sample.reopened = .ok Sample.merged ∧
      (∃ r, merge Sample.reopened Sample.opened = .ok r) ∧
      (∀ f, f ∈ Sample.merged.facts ↔ f ∈ Sample.opened.facts ∨ f ∈ Sample.reopened.facts) ∧
      keys Sample.merged.children =
        (keys Sample.opened.children).eraseDups ++
          ((keys Sample.reopened.children).filter (· ∉ keys Sample.opened.children)).eraseDups := by
  have hmerge : merge Sample.opened Sample.reopened = .ok Sample.merged := by rfl
  obtain ⟨hcomm, hfacts⟩ := merge_facts Sample.opened Sample.reopened
  exact ⟨hmerge, hcomm.mp ⟨_, hmerge⟩, hfacts _ hmerge⟩

end Decl

end HeaderReflect
