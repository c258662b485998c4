import HeaderReflect.Plan.Basic

/-!
The classes of a declaration tree, each with the names of the scopes around it, and the class
documents of a plan: they are the documents of the classes that want one, nested classes before the
class around them (`classDocs_walk`).
-/

namespace HeaderReflect

/-- A class with the names of the scopes around it, outermost first. -/
structure PlacedClass where
  scopes : List String
  name : String
  attrs : Attributes
  members : Members

namespace PlacedClass

/-- What tells the classes of a header apart. -/
def path (p : PlacedClass) : List String × String := (p.scopes, p.name)

end PlacedClass

namespace Decl

mutual

/-- The classes in a declaration that stands in the given scopes. -/
def classes (scopes : List String) : Decl → List PlacedClass
  | .namespaceDecl name _ children => classesAll (scopes ++ [name]) children
  | .classDecl name attrs members children =>
    classesAll (scopes ++ [name]) children ++ [{ scopes, name, attrs, members }]
  | _ => []

def classesAll (scopes : List String) : List Decl → List PlacedClass
  | [] => []
  | d :: rest => classes scopes d ++ classesAll scopes rest

end

theorem classesAll_append (scopes : List String) (ds es : List Decl) :
    classesAll scopes (ds ++ es) = classesAll scopes ds ++ classesAll scopes es := by
  induction ds with
  | nil => rfl
  | cons d ds ih => simp only [List.cons_append, classesAll, ih, List.append_assoc]

mutual

/-- What holds a class that wants something has to be recorded. -/
theorem needsRecording_of_mem_classes : ∀ (d : Decl) (scopes : List String) (p : PlacedClass),
    p ∈ d.classes scopes → p.attrs.anyNeed = true → d.needsRecording = true
  | .namespaceDecl _ _ cs, _, p, hp, hn => by
    simp only [needsRecording]
    exact anyNeedsRecording_of_mem_classesAll cs _ p hp hn
  | .classDecl _ _ _ cs, _, p, hp, hn => by
    simp only [classes, List.mem_append, List.mem_singleton] at hp
    rcases hp with hp | rfl
    · simp [needsRecording, anyNeedsRecording_of_mem_classesAll cs _ p hp hn]
    · simp only [needsRecording, hn, Bool.true_or]
  | .enumDecl _, _, _, hp, _ | .fieldDecl _, _, _, hp, _ | .methodDecl _, _, _, hp, _
  | .ctorDecl _, _, _, hp, _ => by simp [classes] at hp

theorem anyNeedsRecording_of_mem_classesAll : ∀ (ds : List Decl) (scopes : List String)
    (p : PlacedClass), p ∈ classesAll scopes ds → p.attrs.anyNeed = true →
      anyNeedsRecording ds = true
  | [], _, _, hp, _ => by simp [classesAll] at hp
  | d :: rest, scopes, p, hp, hn => by
    simp only [classesAll, List.mem_append] at hp
    rcases hp with hp | hp
    · simp [anyNeedsRecording, needsRecording_of_mem_classes d scopes p hp hn]
    · simp [anyNeedsRecording, anyNeedsRecording_of_mem_classesAll rest scopes p hp hn]

end

end Decl

namespace Plan

/-- The name of a scope, given the names of the scopes down to it. -/
def scopeName (scopes : List String) : String := scopes.foldl qualify ""

theorem scopeName_append (scopes : List String) (name : String) :
    scopeName (scopes ++ [name]) = qualify (scopeName scopes) name := by
  simp [scopeName, List.foldl_append]

/-- The reflection document of a class in a tree. -/
def reflDocOf (memberPrefix : String) (p : PlacedClass) : ClassReflDoc :=
  classReflDoc memberPrefix (scopeName (p.scopes ++ [p.name])) p.name p.members

/-- The binding document of a class in a tree. -/
def bindingDocOf (memberPrefix : String) (p : PlacedClass) : ClassBindingDoc :=
  classBindingDoc memberPrefix (scopeName (p.scopes ++ [p.name])) p.name p.members

@[simp] theorem reflClasses_append (a b : Fragments) :
    (a ++ b).reflClasses = a.reflClasses ++ b.reflClasses := rfl

@[simp] theorem bindingClasses_append (a b : Fragments) :
    (a ++ b).bindingClasses = a.bindingClasses ++ b.bindingClasses := rfl

/-- The class documents that the classes ask for, in order. -/
def ClassDocs (memberPrefix : String) (classes : List PlacedClass) (f : Fragments) : Prop :=
  f.reflClasses = (classes.filter (·.attrs.wantsReflection)).map (reflDocOf memberPrefix) ∧
    f.bindingClasses = (classes.filter (·.attrs.wantsScript)).map (bindingDocOf memberPrefix)

theorem ClassDocs.nil (memberPrefix : String) : ClassDocs memberPrefix [] {} := ⟨rfl, rfl⟩

theorem ClassDocs.append {memberPrefix : String} {ps qs : List PlacedClass} {f g : Fragments}
    (hf : ClassDocs memberPrefix ps f) (hg : ClassDocs memberPrefix qs g) :
    ClassDocs memberPrefix (ps ++ qs) (f ++ g) := by
  obtain ⟨hfr, hfb⟩ := hf
  obtain ⟨hgr, hgb⟩ := hg
  exact ⟨by simp [hfr, hgr], by simp [hfb, hgb]⟩

/-- Enums bring no class documents. -/
theorem ClassDocs.enums (memberPrefix : String) {α : Type} (f : α → Fragments) (es : List α)
    (h : ∀ e, ClassDocs memberPrefix [] (f e)) :
    ClassDocs memberPrefix [] (concat (es.map f)) := by
  induction es with
  | nil => exact ClassDocs.nil memberPrefix
  | cons e es ih => exact (h e).append ih

theorem classDocs_classOwn (memberPrefix : String) (p : PlacedClass) :
    ClassDocs memberPrefix [p]
      (classOwn memberPrefix (scopeName (p.scopes ++ [p.name])) p.name p.attrs p.members) := by
  constructor
  · cases h : p.attrs.wantsReflection <;> simp [classOwn, h, reflDocOf]
  · cases h : p.attrs.wantsScript <;> simp [classOwn, h, bindingDocOf]

mutual

theorem classDocs_walk (memberPrefix : String) : ∀ (d : Decl) (scopes : List String),
    ClassDocs memberPrefix (d.classes scopes) (walk memberPrefix (scopeName scopes) d)
  | .namespaceDecl name _ cs, scopes => by
    have h := classDocs_walkScope memberPrefix cs (scopes ++ [name])
    rw [scopeName_append] at h
    exact h
  | .classDecl name attrs members cs, scopes => by
    have hin := classDocs_walkScope memberPrefix cs (scopes ++ [name])
    have hown := classDocs_classOwn memberPrefix { scopes, name, attrs, members }
    have henums := ClassDocs.enums memberPrefix (classEnum attrs (qualify (scopeName scopes) name))
      members.enums.pub (fun e => ⟨rfl, rfl⟩)
    rw [scopeName_append] at hin hown
    exact (henums.append hin).append hown
  | .enumDecl _, _ => ⟨rfl, rfl⟩
  | .fieldDecl _, _ | .methodDecl _, _ | .ctorDecl _, _ => ClassDocs.nil memberPrefix

/-- The class documents of all that stands in a scope. -/
theorem classDocs_walkScope (memberPrefix : String) : ∀ (ds : List Decl) (scopes : List String),
    ClassDocs memberPrefix (Decl.classesAll scopes ds)
      (concat ((enumsOf ds).map (scopeEnum (scopeName scopes)))
        ++ walkNested memberPrefix (scopeName scopes) ds) := by
  intro ds scopes
  have henums := ClassDocs.enums memberPrefix (scopeEnum (scopeName scopes)) (enumsOf ds)
    (fun e => ⟨rfl, rfl⟩)
  exact henums.append (classDocs_walkNested memberPrefix ds scopes)

theorem classDocs_walkNested (memberPrefix : String) : ∀ (ds : List Decl) (scopes : List String),
    ClassDocs memberPrefix (Decl.classesAll scopes ds)
      (walkNested memberPrefix (scopeName scopes) ds)
  | [], _ => ClassDocs.nil memberPrefix
  | .enumDecl _ :: rest, scopes => classDocs_walkNested memberPrefix rest scopes
  | .namespaceDecl n a cs :: rest, scopes =>
    (classDocs_walk memberPrefix (.namespaceDecl n a cs) scopes).append
      (classDocs_walkNested memberPrefix rest scopes)
  | .classDecl n a m cs :: rest, scopes =>
    (classDocs_walk memberPrefix (.classDecl n a m cs) scopes).append
      (classDocs_walkNested memberPrefix rest scopes)
  | .fieldDecl f :: rest, scopes =>
    (classDocs_walk memberPrefix (.fieldDecl f) scopes).append
      (classDocs_walkNested memberPrefix rest scopes)
  | .methodDecl m :: rest, scopes =>
    (classDocs_walk memberPrefix (.methodDecl m) scopes).append
      (classDocs_walkNested memberPrefix rest scopes)
  | .ctorDecl c :: rest, scopes =>
    (classDocs_walk memberPrefix (.ctorDecl c) scopes).append
      (classDocs_walkNested memberPrefix rest scopes)

end

end Plan

end HeaderReflect
