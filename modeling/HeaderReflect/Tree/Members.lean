import HeaderReflect.Attributes

/-!
Members of a class: data members, member functions, nested enums and constructors, each kept in
three lists by access.
-/

namespace HeaderReflect

inductive Access where
  | isPublic
  | isProtected
  | isPrivate
deriving DecidableEq, Repr, Inhabited

/-- Three lists in declaration order, one for each access. -/
structure ByAccess (α : Type) where
  pub : List α := []
  prot : List α := []
  priv : List α := []
deriving DecidableEq, Repr, Inhabited

namespace ByAccess

variable {α : Type}

def empty : ByAccess α := {}

def get (lists : ByAccess α) : Access → List α
  | .isPublic => lists.pub
  | .isProtected => lists.prot
  | .isPrivate => lists.priv

def push (lists : ByAccess α) (access : Access) (item : α) : ByAccess α :=
  match access with
  | .isPublic => { lists with pub := lists.pub ++ [item] }
  | .isProtected => { lists with prot := lists.prot ++ [item] }
  | .isPrivate => { lists with priv := lists.priv ++ [item] }

def size (lists : ByAccess α) : Nat :=
  lists.pub.length + lists.prot.length + lists.priv.length

def isEmpty (lists : ByAccess α) : Bool :=
  lists.size == 0

theorem get_push (lists : ByAccess α) (access other : Access) (item : α) :
    (lists.push access item).get other =
      if other = access then lists.get other ++ [item] else lists.get other := by
  cases access <;> cases other <;> rfl

end ByAccess

/-- Appends the items of the second list one by one, leaving out those already present. -/
def addNew {α : Type} [DecidableEq α] : List α → List α → List α
  | known, [] => known
  | known, item :: rest =>
    if item ∈ known then addNew known rest else addNew (known ++ [item]) rest

/-- Adds the new items of `other`, list by list. -/
def ByAccess.absorb {α : Type} [DecidableEq α] (lists other : ByAccess α) : ByAccess α where
  pub := addNew lists.pub other.pub
  prot := addNew lists.prot other.prot
  priv := addNew lists.priv other.priv

structure EnumInfo where
  name : String
  attrs : Attributes
  items : List String
deriving DecidableEq, Repr, Inhabited

/-- A data member with the spelling of its type. -/
structure FieldInfo where
  name : String
  attrs : Attributes
  type : String
  isStatic : Bool
  isMember : Bool
deriving DecidableEq, Repr, Inhabited

/-- A member function with the spellings of its parameter types, its result type and its whole
declared type. -/
structure MethodInfo where
  name : String
  attrs : Attributes
  params : List String
  returnType : String
  isStatic : Bool
  declaredType : String
deriving DecidableEq, Repr, Inhabited

structure CtorInfo where
  attrs : Attributes
  params : List String
deriving DecidableEq, Repr, Inhabited

structure Members where
  fields : ByAccess FieldInfo := {}
  methods : ByAccess MethodInfo := {}
  enums : ByAccess EnumInfo := {}
  ctors : ByAccess CtorInfo := {}
deriving DecidableEq, Repr, Inhabited

/-- The members of one class definition together with the new ones of another. -/
def Members.absorb (members other : Members) : Members where
  fields := members.fields.absorb other.fields
  methods := members.methods.absorb other.methods
  enums := members.enums.absorb other.enums
  ctors := members.ctors.absorb other.ctors

end HeaderReflect
