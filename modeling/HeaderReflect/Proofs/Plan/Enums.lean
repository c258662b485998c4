import HeaderReflect.Proofs.Plan.Classes

/-!
The enums of a declaration tree, and with them all of a plan. An enum stands in a scope by itself or
is a public member of a class; in the first case it has a binding of its own, in the second only if
the class has none. A plan lists the wanted classes and enums of a tree in walk order, each exactly
once (`plan_documents`).
-/

namespace HeaderReflect

/-- An enum with the names of the scopes around it, outermost first. If it is a public member of a
class, `owner` is what the class asks for. -/
structure PlacedEnum where
  scopes : List String
  info : EnumInfo
  owner : Option Attributes := none

namespace PlacedEnum

/-- Whether the binding of a class binds the enum along with the class. -/
def isInline (e : PlacedEnum) : Bool := e.owner.any (·.wantsScript)

def doc (e : PlacedEnum) : EnumDoc := Plan.enumDoc (Plan.scopeName e.scopes) e.info

end PlacedEnum

/-- The public enums of a class. -/
def PlacedClass.enums (p : PlacedClass) : List PlacedEnum :=
  p.members.enums.pub.map fun info =>
    { scopes := p.scopes ++ [p.name], info, owner := some p.attrs }

namespace Decl

/-! ## Walk order -/

/-- The enums among a scope's children. -/
def scopeEnums (scopes : List String) : List Decl → List PlacedEnum
  | [] => []
  | .enumDecl info :: rest => { scopes, info } :: scopeEnums scopes rest
  | _ :: rest => scopeEnums scopes rest

mutual

/-- The enums in a declaration that stands in the given scopes. In each scope the public enums of a
class come first, then the enums among the children, then what the other children hold. -/
def enums (scopes : List String) : Decl → List PlacedEnum
  | .namespaceDecl name _ children =>
    scopeEnums (scopes ++ [name]) children ++ nestedEnums (scopes ++ [name]) children
  | .classDecl name attrs members children =>
    PlacedClass.enums { scopes, name, attrs, members } ++
      (scopeEnums (scopes ++ [name]) children ++ nestedEnums (scopes ++ [name]) children)
  | .enumDecl info => [{ scopes, info }]
  | _ => []

def nestedEnums (scopes : List String) : List Decl → List PlacedEnum
  | [] => []
  | .enumDecl _ :: rest => nestedEnums scopes rest
  | d :: rest => enums scopes d ++ nestedEnums scopes rest

end

/-! ## Every declaration once -/

mutual

/-- All declarations of a tree in the given scopes, each with the names of the scopes around it. -/
def listing (scopes : List String) : Decl → List (List String × Decl)
  | .namespaceDecl name attrs children =>
    (scopes, .namespaceDecl name attrs children) :: listingAll (scopes ++ [name]) children
  | .classDecl name attrs members children =>
    (scopes, .classDecl name attrs members children) :: listingAll (scopes ++ [name]) children
  | d => [(scopes, d)]

def listingAll (scopes : List String) : List Decl → List (List String × Decl)
  | [] => []
  | d :: rest => listing scopes d ++ listingAll scopes rest

end

/-- The class that stands at a place, if there is one. -/
def classAt? : List String × Decl → Option PlacedClass
  | (scopes, .classDecl name attrs members _) => some { scopes, name, attrs, members }
  | _ => none

/-- The enums at a place: an enum itself, or the public ones of a class. -/
def enumsAt : List String × Decl → List PlacedEnum
  | (scopes, .classDecl name attrs members _) =>
    PlacedClass.enums { scopes, name, attrs, members }
  | (scopes, .enumDecl info) => [{ scopes, info }]
  | _ => []

mutual

theorem classes_perm_listing : ∀ (d : Decl) (scopes : List String),
    (d.classes scopes).Perm ((d.listing scopes).filterMap classAt?)
  | .namespaceDecl name _ cs, scopes => classesAll_perm_listingAll cs (scopes ++ [name])
  | .classDecl name _ _ cs, scopes => by
    have hnested := classesAll_perm_listingAll cs (scopes ++ [name])
    exact List.perm_append_comm.trans (hnested.cons _)
  | .enumDecl _, _ | .fieldDecl _, _ | .methodDecl _, _ | .ctorDecl _, _ => .refl _

theorem classesAll_perm_listingAll : ∀ (ds : List Decl) (scopes : List String),
    (classesAll scopes ds).Perm ((listingAll scopes ds).filterMap classAt?)
  | [], _ => .refl _
  | d :: ds, scopes => by
    rw [classesAll, listingAll, List.filterMap_append]
    exact (classes_perm_listing d scopes).append (classesAll_perm_listingAll ds scopes)

end

mutual

theorem enums_perm_listing : ∀ (d : Decl) (scopes : List String),
    (d.enums scopes).Perm ((d.listing scopes).flatMap enumsAt)
  | .namespaceDecl name _ cs, scopes => enums_perm_listingAll cs (scopes ++ [name])
  | .classDecl name _ _ cs, scopes =>
    (enums_perm_listingAll cs (scopes ++ [name])).append_left _
  | .enumDecl _, _ | .fieldDecl _, _ | .methodDecl _, _ | .ctorDecl _, _ => .refl _

theorem enums_perm_listingAll : ∀ (ds : List Decl) (scopes : List String),
    (scopeEnums scopes ds ++ nestedEnums scopes ds).Perm ((listingAll scopes ds).flatMap enumsAt)
  | [], _ => .refl _
  | d :: ds, scopes => by
    have hd := enums_perm_listing d scopes
    have hds := enums_perm_listingAll ds scopes
    rw [listingAll, List.flatMap_append]
    cases d with
    | enumDecl e => exact hds.cons _
    | _ =>
      -- What is nested in `d` comes after the enums that stand beside it.
      refine List.Perm.trans ?_ (hd.append hds)
      exact List.perm_append_comm_assoc ..

end

/-- The enums that belong to a class are the public enums of the classes. -/
theorem ownedEnums_perm (d : Decl) (scopes : List String) :
    ((d.enums scopes).filter (·.owner.isSome)).Perm
      ((d.classes scopes).flatMap PlacedClass.enums) := by
  have hat (places : List (List String × Decl)) :
      (places.flatMap enumsAt).filter (·.owner.isSome) =
        (places.filterMap classAt?).flatMap PlacedClass.enums := by
    induction places with
    | nil => rfl
    | cons place rest ih =>
      obtain ⟨around, e⟩ := place
      rw [List.flatMap_cons, List.filter_append, ih]
      cases e with
      | classDecl name attrs members cs =>
        have howned (p : PlacedClass) : p.enums.filter (·.owner.isSome) = p.enums :=
          List.filter_eq_self.mpr (by simp [PlacedClass.enums])
        exact congrArg (· ++ _) (howned { scopes := around, name, attrs, members })
      | _ => rfl
  calc ((d.enums scopes).filter (·.owner.isSome)).Perm
        (((d.listing scopes).flatMap enumsAt).filter (·.owner.isSome)) :=
        (enums_perm_listing d scopes).filter _
    _ = ((d.listing scopes).filterMap classAt?).flatMap PlacedClass.enums := hat _
    _ |>.Perm ((d.classes scopes).flatMap PlacedClass.enums) :=
        (classes_perm_listing d scopes).symm.flatMap_right _

end Decl

namespace Plan

/-! ## Enum documents -/

@[simp] theorem reflEnums_append (a b : Fragments) :
    (a ++ b).reflEnums = a.reflEnums ++ b.reflEnums := rfl

@[simp] theorem bindingEnums_append (a b : Fragments) :
    (a ++ b).bindingEnums = a.bindingEnums ++ b.bindingEnums := rfl

/-- The enum documents that the enums ask for, in order. -/
def EnumDocs (enums : List PlacedEnum) (f : Fragments) : Prop :=
  f.reflEnums = (enums.filter (·.info.attrs.wantsReflection)).map PlacedEnum.doc ∧
    f.bindingEnums =
      (enums.filter fun e => e.info.attrs.wantsScript && !e.isInline).map PlacedEnum.doc

theorem EnumDocs.nil : EnumDocs [] {} := ⟨rfl, rfl⟩

theorem EnumDocs.append {es es' : List PlacedEnum} {f g : Fragments} (hf : EnumDocs es f)
    (hg : EnumDocs es' g) : EnumDocs (es ++ es') (f ++ g) := by
  obtain ⟨hfr, hfb⟩ := hf
  obtain ⟨hgr, hgb⟩ := hg
  exact ⟨by simp [hfr, hgr], by simp [hfb, hgb]⟩

theorem enumDocs_scopeEnum (scopes : List String) (e : EnumInfo) :
    EnumDocs [{ scopes, info := e }] (scopeEnum (scopeName scopes) e) := by
  constructor
  · cases h : e.attrs.wantsReflection <;> simp [scopeEnum, h, PlacedEnum.doc]
  · cases h : e.attrs.wantsScript <;> simp [scopeEnum, h, PlacedEnum.doc, PlacedEnum.isInline]

theorem enumDocs_classEnum (scopes : List String) (owner : Attributes) (e : EnumInfo) :
    EnumDocs [{ scopes, info := e, owner := some owner }]
      (classEnum owner (scopeName scopes) e) := by
  constructor
  · cases h : e.attrs.wantsReflection <;> simp [classEnum, h, PlacedEnum.doc]
  · cases h : e.attrs.wantsScript <;> cases ho : owner.wantsScript <;>
      simp [classEnum, h, ho, PlacedEnum.doc, PlacedEnum.isInline]

/-- The documents of the public enums of a class, apart from those bound along with it. -/
theorem enumDocs_classEnums (p : PlacedClass) :
    EnumDocs p.enums
      (concat (p.members.enums.pub.map (classEnum p.attrs (scopeName (p.scopes ++ [p.name]))))) := by
  unfold PlacedClass.enums
  induction p.members.enums.pub with
  | nil => exact EnumDocs.nil
  | cons e es ih => exact (enumDocs_classEnum (p.scopes ++ [p.name]) p.attrs e).append ih

/-- The documents of the enums among a scope's children. -/
theorem enumDocs_scopeEnums (scopes : List String) (ds : List Decl) :
    EnumDocs (Decl.scopeEnums scopes ds)
      (concat ((enumsOf ds).map (scopeEnum (scopeName scopes)))) := by
  induction ds with
  | nil => exact EnumDocs.nil
  | cons d ds ih =>
    cases d with
    | enumDecl e => exact (enumDocs_scopeEnum scopes e).append ih
    | _ => exact ih

mutual

theorem enumDocs_walk (memberPrefix : String) : ∀ (d : Decl) (scopes : List String),
    EnumDocs (d.enums scopes) (walk memberPrefix (scopeName scopes) d)
  | .namespaceDecl name _ cs, scopes => by
    have h := enumDocs_walkScope memberPrefix cs (scopes ++ [name])
    rw [scopeName_append] at h
    exact h
  | .classDecl name attrs members cs, scopes => by
    have hpublic := enumDocs_classEnums { scopes, name, attrs, members }
    have hin := enumDocs_walkScope memberPrefix cs (scopes ++ [name])
    rw [scopeName_append] at hpublic hin
    have hown : EnumDocs [] (classOwn memberPrefix (qualify (scopeName scopes) name) name attrs
      members) := ⟨rfl, rfl⟩
    have hall := (hpublic.append hin).append hown
    rw [List.append_nil] at hall
    exact hall
  | .enumDecl e, scopes => enumDocs_scopeEnum scopes e
  | .fieldDecl _, _ | .methodDecl _, _ | .ctorDecl _, _ => EnumDocs.nil

/-- The enum documents of all that stands in a scope. -/
theorem enumDocs_walkScope (memberPrefix : String) : ∀ (ds : List Decl) (scopes : List String),
    EnumDocs (Decl.scopeEnums scopes ds ++ Decl.nestedEnums scopes ds)
      (concat ((enumsOf ds).map (scopeEnum (scopeName scopes)))
        ++ walkNested memberPrefix (scopeName scopes) ds) := fun ds scopes =>
  (enumDocs_scopeEnums scopes ds).append (enumDocs_walkNested memberPrefix ds scopes)

theorem enumDocs_walkNested (memberPrefix : String) : ∀ (ds : List Decl) (scopes : List String),
    EnumDocs (Decl.nestedEnums scopes ds) (walkNested memberPrefix (scopeName scopes) ds)
  | [], _ => EnumDocs.nil
  | d :: ds, scopes => by
    have hd := enumDocs_walk memberPrefix d scopes
    have hds := enumDocs_walkNested memberPrefix ds scopes
    cases d with
    | enumDecl e => exact hds
    | _ => exact hd.append hds

end

/-! ## Bindings of enums -/

/-- The binding of a class holds its scripted public enums. -/
theorem enums_bindingDocOf (memberPrefix : String) (p : PlacedClass) :
    (bindingDocOf memberPrefix p).enums =
      (p.enums.filter (·.info.attrs.wantsScript)).map PlacedEnum.doc := by
  simp [bindingDocOf, classBindingDoc, PlacedClass.enums, PlacedEnum.doc, List.filter_map,
    Function.comp_def]

/-- All that the bindings of the scripted classes hold. -/
theorem flatMap_enums_bindingDocOf (memberPrefix : String) (ps : List PlacedClass) :
    ((ps.filter (·.attrs.wantsScript)).map (bindingDocOf memberPrefix)).flatMap (·.enums) =
      ((ps.flatMap PlacedClass.enums).filter fun e =>
        e.info.attrs.wantsScript && e.isInline).map PlacedEnum.doc := by
  induction ps with
  | nil => rfl
  | cons p ps ih =>
    have hp : (p.enums.filter fun e => e.info.attrs.wantsScript && e.isInline) =
        if p.attrs.wantsScript then p.enums.filter (·.info.attrs.wantsScript) else [] := by
      cases h : p.attrs.wantsScript <;>
        simp [PlacedClass.enums, PlacedEnum.isInline, List.filter_map, Function.comp_def, h]
    rw [List.flatMap_cons, List.filter_append, List.map_append, ← ih, hp]
    cases h : p.attrs.wantsScript with
    | true => simp [h, enums_bindingDocOf]
    | false => simp [h]

/-- Every scripted enum is bound once, by itself or along with its class. -/
theorem bindings_perm (memberPrefix : String) (d : Decl) (scopes : List String) :
    ((walk memberPrefix (scopeName scopes) d).bindingEnums
        ++ (walk memberPrefix (scopeName scopes) d).bindingClasses.flatMap (·.enums)).Perm
      (((d.enums scopes).filter (·.info.attrs.wantsScript)).map PlacedEnum.doc) := by
  have halone := (enumDocs_walk memberPrefix d scopes).2
  have hclasses := (classDocs_walk memberPrefix d scopes).2
  have hinline : (((d.classes scopes).flatMap PlacedClass.enums).filter fun e =>
      e.info.attrs.wantsScript && e.isInline).Perm
        ((d.enums scopes).filter fun e => e.info.attrs.wantsScript && e.isInline) := by
    have howned := (d.ownedEnums_perm scopes).symm.filter
      fun e => e.info.attrs.wantsScript && e.isInline
    rw [List.filter_filter] at howned
    refine howned.trans (.of_eq (List.filter_congr fun e _ => ?_))
    cases h : e.owner <;> simp [PlacedEnum.isInline, h]
  have hsplit := List.filter_append_perm (fun e : PlacedEnum => !e.isInline)
    ((d.enums scopes).filter (·.info.attrs.wantsScript))
  simp only [List.filter_filter, Bool.not_not] at hsplit
  rw [halone, hclasses, flatMap_enums_bindingDocOf, ← List.map_append]
  refine ((hinline.append_left _).trans ?_).map _
  simpa only [Bool.and_comm] using hsplit

end Plan

/-- **A plan holds the documents of all wanted declarations, each once and in walk order.** The
classes and enums of a tree in walk order are all that there are, each once. The class documents of
either stream are those of the classes that want one, a class after all that is nested in it. The
reflection documents of enums are those of all enums that want one. An enum that wants a binding has
it by itself, or, if it is a public member of a scripted class, along with that class, and all these
bindings together are one for each such enum. -/
theorem plan_documents (memberPrefix path : String) (root : Decl) :
    let classes := root.classes []
    let enums := root.enums []
    let plan := (planFile memberPrefix path root).fragments
    classes.Perm ((root.listing []).filterMap Decl.classAt?) ∧
      enums.Perm ((root.listing []).flatMap Decl.enumsAt) ∧
      plan.reflClasses =
        (classes.filter (·.attrs.wantsReflection)).map (Plan.reflDocOf memberPrefix) ∧
      plan.bindingClasses =
        (classes.filter (·.attrs.wantsScript)).map (Plan.bindingDocOf memberPrefix) ∧
      plan.reflEnums = (enums.filter (·.info.attrs.wantsReflection)).map PlacedEnum.doc ∧
      plan.bindingEnums =
        (enums.filter fun e => e.info.attrs.wantsScript && !e.isInline).map PlacedEnum.doc ∧
      (∀ p ∈ classes, (Plan.bindingDocOf memberPrefix p).enums =
        (p.enums.filter (·.info.attrs.wantsScript)).map PlacedEnum.doc) ∧
      (plan.bindingEnums ++ plan.bindingClasses.flatMap (·.enums)).Perm
        ((enums.filter (·.info.attrs.wantsScript)).map PlacedEnum.doc) := by
  intro classes enums plan
  obtain ⟨hreflClasses, hbindingClasses⟩ := Plan.classDocs_walk memberPrefix root []
  obtain ⟨hreflEnums, hbindingEnums⟩ := Plan.enumDocs_walk memberPrefix root []
  exact ⟨root.classes_perm_listing [], root.enums_perm_listing [], hreflClasses, hbindingClasses,
    hreflEnums, hbindingEnums, fun p _ => Plan.enums_bindingDocOf memberPrefix p,
    Plan.bindings_perm memberPrefix root []⟩

end HeaderReflect
