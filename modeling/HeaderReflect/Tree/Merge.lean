import HeaderReflect.Tree.Decl

/-!
Merging declaration trees. Two declarations of one name and kind become one: scopes unite what is
nested in them, and anything else has to agree. Siblings keep the order in which they were first
seen, and a scope keeps the attributes it was first seen with. A merge groups what is nested with
an index of slots; a declaration that is recorded looks for its sibling one by one.

A failed merge still leaves something in the target's place; `Decl.residue` and `recordResidue`
say what.
-/

namespace HeaderReflect

inductive MergeError where
  | kindMismatch (name : String) (target incoming : Kind)
  | conflict (name : String) (kind : Kind)
  | notAScopeChild (name : String) (kind : Kind)
deriving DecidableEq, Repr

def MergeError.message : MergeError → String
  | .kindMismatch name target incoming =>
    "cannot merge " ++ incoming.label ++ " `" ++ name ++ "` into " ++ target.label ++ " `" ++ name
      ++ "`"
  | .conflict name kind => "conflicting " ++ kind.label ++ " declarations named `" ++ name ++ "`"
  | .notAScopeChild name kind => kind.label ++ " `" ++ name ++ "` cannot be a scope child"

namespace Decl

/-- Whether a declaration may stand directly in a scope. -/
def isScopeChild (d : Decl) : Bool :=
  match d.kind with
  | .namespaceScope | .classScope | .enumeration => true
  | _ => false

/-- Applies `f` to the first sibling of the given key, if there is one. -/
def updateFirst? (key : String × Kind) (f : Decl → Except MergeError Decl) :
    List Decl → Option (Except MergeError (List Decl))
  | [] => none
  | d :: rest =>
    if d.key = key then some ((f d).map (· :: rest))
    else (updateFirst? key f rest).map (Except.map (d :: ·))

/-- Puts a declaration among its siblings: into the one of its key by `unite`, or at the end. -/
def placeWith (unite : Decl → Decl → Except MergeError Decl) (siblings : List Decl) (d : Decl) :
    Except MergeError (List Decl) :=
  if d.isScopeChild then
    (updateFirst? d.key (unite · d) siblings).getD (.ok (siblings ++ [d]))
  else .error (.notAScopeChild d.name d.kind)

/-- Declarations grouped so far, with the slot at which each key stands among them. -/
structure Groups where
  placed : List Decl := []
  slots : List ((String × Kind) × Nat) := []
  inRange : ∀ entry ∈ slots, entry.2 < placed.length := by simp

namespace Groups

theorem slot_lt (g : Groups) {key : String × Kind} {slot : Nat}
    (h : g.slots.lookup key = some slot) : slot < g.placed.length := by
  obtain ⟨before, after, hslots, -⟩ := List.lookup_eq_some_iff.mp h
  exact g.inRange (key, slot) (by simp [hslots])

/-- Another declaration in the slot of one that is there. -/
def put (g : Groups) (slot : Nat) (d : Decl) : Groups where
  placed := g.placed.set slot d
  slots := g.slots
  inRange := by simpa using g.inRange

/-- A declaration in a new slot at the end. -/
def push (g : Groups) (d : Decl) : Groups where
  placed := g.placed ++ [d]
  slots := (d.key, g.placed.length) :: g.slots
  inRange := by
    intro entry h
    rw [List.length_append, List.length_singleton]
    rcases List.mem_cons.mp h with rfl | h
    · exact Nat.lt_succ_self _
    · exact Nat.lt_succ_of_lt (g.inRange entry h)

/-- Puts a declaration into the group of its key by `unite`, or opens a group for it. -/
def add (unite : Decl → Decl → Except MergeError Decl) (g : Groups) (d : Decl) :
    Except MergeError Groups :=
  if d.isScopeChild then
    match h : g.slots.lookup d.key with
    | some slot => (unite (g.placed.get ⟨slot, g.slot_lt h⟩) d).map (g.put slot)
    | none => .ok (g.push d)
  else .error (.notAScopeChild d.name d.kind)

end Groups

/-- Groups declarations by key in first-seen order and unites each group in its slot. -/
def groupWith (unite : Decl → Decl → Except MergeError Decl) (ds : List Decl) :
    Except MergeError (List Decl) :=
  (ds.foldlM (Groups.add unite) {}).map (·.placed)

/-- One level of a merge, where `coalesce` unites what is nested. -/
def mergeStep (coalesce : List Decl → Except MergeError (List Decl)) (target incoming : Decl) :
    Except MergeError Decl :=
  if target.name = incoming.name ∧ target.kind = incoming.kind then
    match target, incoming with
    | .namespaceDecl n a cs, .namespaceDecl _ _ ds =>
      (coalesce (cs ++ ds)).map (.namespaceDecl n a ·)
    | .classDecl n a m cs, .classDecl _ _ k ds =>
      (coalesce (cs ++ ds)).map (.classDecl n a (m.absorb k) ·)
    | .enumDecl d, .enumDecl e => agree (d = e)
    | .fieldDecl d, .fieldDecl e => agree (d = e)
    | .methodDecl d, .methodDecl e => agree (d = e)
    | .ctorDecl d, .ctorDecl e => agree (d = e)
    | _, _ => agree False
  else .error (.kindMismatch incoming.name target.kind incoming.kind)
where
  /-- Declarations that are no scopes merge only with their equals. -/
  agree (same : Prop) [Decidable same] : Except MergeError Decl :=
    if same then .ok target else .error (.conflict target.name target.kind)

/-- A merge that looks at most `depth` levels down. -/
def mergeWithin : (depth : Nat) → Decl → Decl → Except MergeError Decl
  | 0 => fun target _ => .ok target
  | depth + 1 => mergeStep (groupWith (mergeWithin depth))

/-- Merges `incoming` into `target`, all the way down. -/
def merge (target incoming : Decl) : Except MergeError Decl :=
  mergeWithin (max target.height incoming.height) target incoming

/-- Groups declarations by key in first-seen order and merges each group. -/
def coalesce (ds : List Decl) : Except MergeError (List Decl) :=
  groupWith (mergeWithin (heightAll ds)) ds

/-- What stands in the target's place after a merge failed: a scope that was entered has lost
what was nested in it, and a class has taken in the other's members. -/
def residue (target incoming : Decl) : Decl :=
  match target, incoming with
  | .namespaceDecl n a _, .namespaceDecl m _ _ => if n = m then .namespaceDecl n a [] else target
  | .classDecl n a k _, .classDecl m _ l _ =>
    if n = m then .classDecl n a (k.absorb l) [] else target
  | _, _ => target

end Decl

/-- Records a declaration in a scope. A namespace without children is left out; a sibling of the
same key takes the declaration in. -/
def record (siblings : List Decl) (d : Decl) : Except MergeError (List Decl) :=
  if d.kind = .namespaceScope ∧ d.isEmpty then .ok siblings
  else Decl.placeWith Decl.merge siblings d

/-- Records declarations one after another and stops at the first failure. -/
def recordAll : List Decl → List Decl → Except MergeError (List Decl)
  | siblings, [] => .ok siblings
  | siblings, d :: rest => do recordAll (← record siblings d) rest

/-- What is left of a scope when recording `d` in it failed. -/
def recordResidue (siblings : List Decl) (d : Decl) : List Decl :=
  match Decl.updateFirst? d.key (fun e => .ok (e.residue d)) siblings with
  | some (.ok left) => left
  | _ => siblings

end HeaderReflect
