import HeaderReflect.Blob.Item
import HeaderReflect.Blob.Writer

/-!
Reading a stored cache. Fields may come in any order, but each exactly once, and bytes behind the
cache are not looked at. Of a key that occurs twice among the entries the last one counts.
-/

namespace HeaderReflect.Blob

/-- Levels of nesting that a stored cache may have. -/
def nestingLimit : Nat := 256

def readTexts (budget : Nat) : Reader (List String) :=
  readListWith budget fun _ => readText

structure AttributesParts where
  wantsReflection : Option Bool := none
  forceNoReflection : Option Bool := none
  wantsScript : Option Bool := none
  forceNoScript : Option Bool := none

def attributesFields : FieldReaders AttributesParts :=
  [("wants_reflection", fun _ p =>
      readInto p.wantsReflection readBool fun v => { p with wantsReflection := v }),
   ("force_no_reflection", fun _ p =>
      readInto p.forceNoReflection readBool fun v => { p with forceNoReflection := v }),
   ("wants_script", fun _ p =>
      readInto p.wantsScript readBool fun v => { p with wantsScript := v }),
   ("force_no_script", fun _ p =>
      readInto p.forceNoScript readBool fun v => { p with forceNoScript := v })]

def readAttributes (budget : Nat) : Reader Attributes := fun input => do
  let (p, rest) ← readFields attributesFields budget {} input
  return ({ wantsReflection := ← required p.wantsReflection,
            forceNoReflection := ← required p.forceNoReflection,
            wantsScript := ← required p.wantsScript,
            forceNoScript := ← required p.forceNoScript }, rest)

structure ByAccessParts (α : Type) where
  pub : Option (List α) := none
  prot : Option (List α) := none
  priv : Option (List α) := none

def byAccessFields {α : Type} (element : Nat → Reader α) : FieldReaders (ByAccessParts α) :=
  [("public", fun budget p =>
      readInto p.pub (readListWith budget element) fun v => { p with pub := v }),
   ("protected", fun budget p =>
      readInto p.prot (readListWith budget element) fun v => { p with prot := v }),
   ("private", fun budget p =>
      readInto p.priv (readListWith budget element) fun v => { p with priv := v })]

def readByAccess {α : Type} (element : Nat → Reader α) (budget : Nat) : Reader (ByAccess α) :=
  fun input => do
    let (p, rest) ← readFields (byAccessFields element) budget {} input
    return ({ pub := ← required p.pub, prot := ← required p.prot, priv := ← required p.priv },
      rest)

structure EnumParts where
  name : Option String := none
  attrs : Option Attributes := none
  items : Option (List String) := none

def enumFields : FieldReaders EnumParts :=
  [("name", fun _ p => readInto p.name readText fun v => { p with name := v }),
   ("attrs", fun budget p =>
      readInto p.attrs (readAttributes budget) fun v => { p with attrs := v }),
   ("items", fun budget p => readInto p.items (readTexts budget) fun v => { p with items := v })]

def readEnum (budget : Nat) : Reader EnumInfo := fun input => do
  let (p, rest) ← readFields enumFields budget {} input
  return ({ name := ← required p.name, attrs := ← required p.attrs, items := ← required p.items },
    rest)

structure FieldParts where
  name : Option String := none
  attrs : Option Attributes := none
  type : Option String := none
  isStatic : Option Bool := none
  isMember : Option Bool := none

def fieldFields : FieldReaders FieldParts :=
  [("name", fun _ p => readInto p.name readText fun v => { p with name := v }),
   ("attrs", fun budget p =>
      readInto p.attrs (readAttributes budget) fun v => { p with attrs := v }),
   ("ty", fun _ p => readInto p.type readText fun v => { p with type := v }),
   ("is_static", fun _ p => readInto p.isStatic readBool fun v => { p with isStatic := v }),
   ("is_member", fun _ p => readInto p.isMember readBool fun v => { p with isMember := v })]

def readFieldInfo (budget : Nat) : Reader FieldInfo := fun input => do
  let (p, rest) ← readFields fieldFields budget {} input
  return ({ name := ← required p.name, attrs := ← required p.attrs, type := ← required p.type,
            isStatic := ← required p.isStatic, isMember := ← required p.isMember }, rest)

structure MethodParts where
  name : Option String := none
  attrs : Option Attributes := none
  params : Option (List String) := none
  returnType : Option String := none
  isStatic : Option Bool := none
  declaredType : Option String := none

def methodFields : FieldReaders MethodParts :=
  [("name", fun _ p => readInto p.name readText fun v => { p with name := v }),
   ("attrs", fun budget p =>
      readInto p.attrs (readAttributes budget) fun v => { p with attrs := v }),
   ("params", fun budget p =>
      readInto p.params (readTexts budget) fun v => { p with params := v }),
   ("return_type", fun _ p => readInto p.returnType readText fun v => { p with returnType := v }),
   ("is_static", fun _ p => readInto p.isStatic readBool fun v => { p with isStatic := v }),
   ("declared_type", fun _ p =>
      readInto p.declaredType readText fun v => { p with declaredType := v })]

def readMethod (budget : Nat) : Reader MethodInfo := fun input => do
  let (p, rest) ← readFields methodFields budget {} input
  return ({ name := ← required p.name, attrs := ← required p.attrs, params := ← required p.params,
            returnType := ← required p.returnType, isStatic := ← required p.isStatic,
            declaredType := ← required p.declaredType }, rest)

structure CtorParts where
  attrs : Option Attributes := none
  params : Option (List String) := none

def ctorFields : FieldReaders CtorParts :=
  [("attrs", fun budget p =>
      readInto p.attrs (readAttributes budget) fun v => { p with attrs := v }),
   ("params", fun budget p =>
      readInto p.params (readTexts budget) fun v => { p with params := v })]

def readCtor (budget : Nat) : Reader CtorInfo := fun input => do
  let (p, rest) ← readFields ctorFields budget {} input
  return ({ attrs := ← required p.attrs, params := ← required p.params }, rest)

structure NamespaceParts where
  name : Option String := none
  attrs : Option Attributes := none
  children : Option (List Decl) := none

def namespaceFields (child : Reader Decl) : FieldReaders NamespaceParts :=
  [("name", fun _ p => readInto p.name readText fun v => { p with name := v }),
   ("attrs", fun budget p =>
      readInto p.attrs (readAttributes budget) fun v => { p with attrs := v }),
   ("children", fun budget p =>
      readInto p.children (readListWith budget fun _ => child) fun v => { p with children := v })]

def readNamespace (child : Reader Decl) (budget : Nat) : Reader Decl := fun input => do
  let (p, rest) ← readFields (namespaceFields child) budget {} input
  return (.namespaceDecl (← required p.name) (← required p.attrs) (← required p.children), rest)

structure ClassParts where
  name : Option String := none
  attrs : Option Attributes := none
  fields : Option (ByAccess FieldInfo) := none
  methods : Option (ByAccess MethodInfo) := none
  enums : Option (ByAccess EnumInfo) := none
  ctors : Option (ByAccess CtorInfo) := none
  children : Option (List Decl) := none

def classFields (child : Reader Decl) : FieldReaders ClassParts :=
  [("name", fun _ p => readInto p.name readText fun v => { p with name := v }),
   ("attrs", fun budget p =>
      readInto p.attrs (readAttributes budget) fun v => { p with attrs := v }),
   ("fields", fun budget p =>
      readInto p.fields (readByAccess readFieldInfo budget) fun v => { p with fields := v }),
   ("methods", fun budget p =>
      readInto p.methods (readByAccess readMethod budget) fun v => { p with methods := v }),
   ("enums", fun budget p =>
      readInto p.enums (readByAccess readEnum budget) fun v => { p with enums := v }),
   ("ctors", fun budget p =>
      readInto p.ctors (readByAccess readCtor budget) fun v => { p with ctors := v }),
   ("children", fun budget p =>
      readInto p.children (readListWith budget fun _ => child) fun v => { p with children := v })]

def readClass (child : Reader Decl) (budget : Nat) : Reader Decl := fun input => do
  let (p, rest) ← readFields (classFields child) budget {} input
  let members : Members :=
    { fields := ← required p.fields, methods := ← required p.methods,
      enums := ← required p.enums, ctors := ← required p.ctors }
  return (.classDecl (← required p.name) (← required p.attrs) members (← required p.children),
    rest)

/-- The kind stored under a name. -/
def kindOfName? (name : Bytes) : Option Kind :=
  [Kind.namespaceScope, .classScope, .enumeration, .dataMember, .memberFunction,
    .constructor].find? fun k => Text.utf8 k.tag == name

/-- Reads a declaration's body. `child` reads what is nested in a scope. -/
def readBody (child : Reader Decl) (budget : Nat) : Kind → Reader Decl
  | .namespaceScope => readNamespace child budget
  | .classScope => readClass child budget
  | .enumeration => mapped .enumDecl (readEnum budget)
  | .dataMember => mapped .fieldDecl (readFieldInfo budget)
  | .memberFunction => mapped .methodDecl (readMethod budget)
  | .constructor => mapped .ctorDecl (readCtor budget)
where
  mapped {α : Type} (f : α → Decl) (read : Reader α) : Reader Decl := fun input =>
    (read input).map fun (v, rest) => (f v, rest)

/-- Reads the name of a kind and the body after it. -/
def readVariant (child : Reader Decl) (budget : Nat) : Reader Decl := fun input => do
  let (name, rest) ← readName input
  match kindOfName? name with
  | some kind => readBody child budget kind rest
  | none => .error .unexpected

/-- Reads a declaration: a map of one entry from its kind to its body. The two may also follow one
another without the map around them. -/
def readDeclWith (child : Reader Decl) (budget : Nat) : Reader Decl := fun input => do
  let input ← dropTags input
  match ← readHead input with
  | (.map (some 1), rest) => descend budget (readVariant child) rest
  | (.text _, _) => descend budget (readVariant child) input
  | _ => .error .unexpected

/-- Reads a declaration. From one declaration to those nested in it are three levels: the kind, the
body and the list. -/
def readDecl : (budget : Nat) → Reader Decl
  | budget + 3 => readDeclWith (readDecl budget) (budget + 3)
  | few => readDeclWith (fun _ => .error .tooDeep) few

structure StampParts where
  secs : Option Nat := none
  nanos : Option Nat := none

def stampFields : FieldReaders StampParts :=
  [("secs", fun _ p => readInto p.secs (readNat UInt64.size) fun v => { p with secs := v }),
   ("nanos", fun _ p => readInto p.nanos (readNat UInt32.size) fun v => { p with nanos := v })]

def readStamp (budget : Nat) : Reader Stamp := fun input => do
  let (p, rest) ← readFields stampFields budget {} input
  return ({ secs := UInt64.ofNat (← required p.secs), nanos := UInt32.ofNat (← required p.nanos) },
    rest)

structure EntryParts where
  stamp : Option Stamp := none
  root : Option Decl := none

def entryFields : FieldReaders EntryParts :=
  [("stamp", fun budget p => readInto p.stamp (readStamp budget) fun v => { p with stamp := v }),
   ("root", fun budget p => readInto p.root (readDecl budget) fun v => { p with root := v })]

def readEntry (budget : Nat) : Reader CacheEntry := fun input => do
  let (p, rest) ← readFields entryFields budget {} input
  return ({ stamp := ← required p.stamp, root := ← required p.root }, rest)

/-- Reads the entries, each a key and what is cached for it. -/
def readEntries (budget : Nat) : Reader Entries := fun input => do
  match ← readItemHead input with
  | (.map length, rest) =>
    descend budget
      (fun below => forEach length
        (fun entries input => do
          let (key, rest) ← readText input
          let (entry, rest) ← readEntry below rest
          return (Entries.insert key entry entries, rest)) []) rest
  | _ => .error .unexpected

structure CacheParts where
  fingerprint : Option String := none
  entries : Option Entries := none

def cacheFields : FieldReaders CacheParts :=
  [("fingerprint", fun _ p =>
      readInto p.fingerprint readText fun v => { p with fingerprint := v }),
   ("entries", fun budget p =>
      readInto p.entries (readEntries budget) fun v => { p with entries := v })]

def readCache (budget : Nat) : Reader Cache := fun input => do
  let (p, rest) ← readFields cacheFields budget {} input
  return ({ fingerprint := ← required p.fingerprint, entries := ← required p.entries }, rest)

/-- The cache stored in a blob. -/
def decode (blob : Bytes) : Except Fault Cache :=
  (readCache nestingLimit blob).map (·.1)

end HeaderReflect.Blob
