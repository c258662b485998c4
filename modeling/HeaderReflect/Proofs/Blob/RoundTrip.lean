import HeaderReflect.Proofs.Blob.Reads
import HeaderReflect.Proofs.Cache.Sorted

/-!
A stored cache is read back as it was, unless its stored form has a fault: one statement for each
type that occurs in a cache, up to the cache itself (`decode_ofCache`).
-/

namespace HeaderReflect.Blob

open Template (Value)

theorem reads_texts (budget : Nat) (texts : List String) :
    Reads (readTexts budget) (ofValue (Value.ofTexts texts)) (fault? budget (Value.ofTexts texts))
      texts := by
  refine reads_list fun below _ s _ => ?_
  rw [ofValue, fault?]
  exact reads_text s

theorem reads_boolValue (b : Bool) (budget : Nat) :
    Reads readBool (ofValue (.bool b)) (fault? budget (.bool b)) b := by
  rw [ofValue, fault?]
  exact reads_bool b

theorem reads_textValue (s : String) (budget : Nat) :
    Reads readText (ofValue (.text s)) (fault? budget (.text s)) s := by
  rw [ofValue, fault?]
  exact reads_text s

/-! ## Members -/

theorem reads_attributes (budget : Nat) (a : Attributes) :
    Reads (readAttributes budget) (ofValue a.toValue) (fault? budget a.toValue) a := by
  refine reads_structure ⟨some a.wantsReflection, some a.forceNoReflection, some a.wantsScript,
    some a.forceNoScript⟩ (fun below _ => ?_) fun rest => rfl
  refine reads_fields_cons (by decide) rfl rfl (reads_boolValue _ _) ?_
  refine reads_fields_cons (by decide) rfl rfl (reads_boolValue _ _) ?_
  refine reads_fields_cons (by decide) rfl rfl (reads_boolValue _ _) ?_
  refine reads_fields_cons (by decide) rfl rfl (reads_boolValue _ _) ?_
  exact reads_fields_nil

theorem reads_byAccess {α : Type} {element : Nat → Reader α} {val : α → Value}
    (h : ∀ budget x, Reads (element budget) (ofValue (val x)) (fault? budget (val x)) x)
    (budget : Nat) (lists : ByAccess α) :
    Reads (readByAccess element budget) (ofValue (lists.toValue val))
      (fault? budget (lists.toValue val)) lists := by
  refine reads_structure ⟨some lists.pub, some lists.prot, some lists.priv⟩ (fun below _ => ?_)
    fun rest => rfl
  refine reads_fields_cons (by decide) rfl rfl (reads_list fun b _ x _ => h b x) ?_
  refine reads_fields_cons (by decide) rfl rfl (reads_list fun b _ x _ => h b x) ?_
  refine reads_fields_cons (by decide) rfl rfl (reads_list fun b _ x _ => h b x) ?_
  exact reads_fields_nil

theorem reads_enum (budget : Nat) (e : EnumInfo) :
    Reads (readEnum budget) (ofValue e.toValue) (fault? budget e.toValue) e := by
  refine reads_structure ⟨some e.name, some e.attrs, some e.items⟩ (fun below _ => ?_)
    fun rest => rfl
  refine reads_fields_cons (by decide) rfl rfl (reads_textValue _ _) ?_
  refine reads_fields_cons (by decide) rfl rfl (reads_attributes _ _) ?_
  refine reads_fields_cons (by decide) rfl rfl (reads_texts _ _) ?_
  exact reads_fields_nil

theorem reads_fieldInfo (budget : Nat) (f : FieldInfo) :
    Reads (readFieldInfo budget) (ofValue f.toValue) (fault? budget f.toValue) f := by
  refine reads_structure ⟨some f.name, some f.attrs, some f.type, some f.isStatic,
    some f.isMember⟩ (fun below _ => ?_) fun rest => rfl
  refine reads_fields_cons (by decide) rfl rfl (reads_textValue _ _) ?_
  refine reads_fields_cons (by decide) rfl rfl (reads_attributes _ _) ?_
  refine reads_fields_cons (by decide) rfl rfl (reads_textValue _ _) ?_
  refine reads_fields_cons (by decide) rfl rfl (reads_boolValue _ _) ?_
  refine reads_fields_cons (by decide) rfl rfl (reads_boolValue _ _) ?_
  exact reads_fields_nil

theorem reads_method (budget : Nat) (m : MethodInfo) :
    Reads (readMethod budget) (ofValue m.toValue) (fault? budget m.toValue) m := by
  refine reads_structure ⟨some m.name, some m.attrs, some m.params, some m.returnType,
    some m.isStatic, some m.declaredType⟩ (fun below _ => ?_) fun rest => rfl
  refine reads_fields_cons (by decide) rfl rfl (reads_textValue _ _) ?_
  refine reads_fields_cons (by decide) rfl rfl (reads_attributes _ _) ?_
  refine reads_fields_cons (by decide) rfl rfl (reads_texts _ _) ?_
  refine reads_fields_cons (by decide) rfl rfl (reads_textValue _ _) ?_
  refine reads_fields_cons (by decide) rfl rfl (reads_boolValue _ _) ?_
  refine reads_fields_cons (by decide) rfl rfl (reads_textValue _ _) ?_
  exact reads_fields_nil

theorem reads_ctor (budget : Nat) (c : CtorInfo) :
    Reads (readCtor budget) (ofValue c.toValue) (fault? budget c.toValue) c := by
  refine reads_structure ⟨some c.attrs, some c.params⟩ (fun below _ => ?_) fun rest => rfl
  refine reads_fields_cons (by decide) rfl rfl (reads_attributes _ _) ?_
  refine reads_fields_cons (by decide) rfl rfl (reads_texts _ _) ?_
  exact reads_fields_nil

/-! ## Declarations -/

theorem toValues_eq_map (ds : List Decl) : Decl.toValues ds = ds.map Decl.toValue := by
  induction ds with
  | nil => rfl
  | cons d ds ih => rw [Decl.toValues, ih]; rfl

/-- What is nested in a scope is two levels below its body. -/
theorem reads_children {child : Reader Decl} {below : Nat} (ds : List Decl)
    (h : ∀ b, below = b + 1 → ∀ d : Decl, Reads child (ofValue d.toValue) (fault? b d.toValue) d) :
    Reads (readListWith below fun _ => child) (ofValue (.list (Decl.toValues ds)))
      (fault? below (.list (Decl.toValues ds))) ds := by
  rw [toValues_eq_map]
  exact reads_list fun b hb d _ => h b hb d

theorem reads_body {child : Reader Decl} {budget : Nat}
    (h : ∀ b, budget = b + 2 → ∀ d : Decl, Reads child (ofValue d.toValue) (fault? b d.toValue) d)
    (d : Decl) :
    Reads (readBody child budget d.kind) (ofValue d.body) (fault? budget d.body) d := by
  have mapped {α : Type} {f : α → Decl} {read : Reader α} {bytes : Bytes} {fault : Option Fault}
      {a : α} (hr : Reads read bytes fault a) :
      Reads (readBody.mapped f read) bytes fault (f a) := by
    refine ⟨fun rest => ?_, fun part hpart hlt => ?_⟩
    · rw [readBody.mapped, hr.whole]
      cases fault <;> rfl
    · obtain ⟨e, he⟩ := hr.cut part hpart hlt
      exact ⟨e, by rw [readBody.mapped, he]; rfl⟩
  cases d with
  | namespaceDecl name attrs children =>
    rw [Decl.body]
    refine reads_structure ⟨some name, some attrs, some children⟩ (fun below hbelow => ?_)
      fun rest => rfl
    refine reads_fields_cons (by decide) rfl rfl (reads_textValue _ _) ?_
    refine reads_fields_cons (by decide) rfl rfl (reads_attributes _ _) ?_
    refine reads_fields_cons (by decide) rfl rfl (reads_children children ?_) reads_fields_nil
    exact fun b hb => h b (by omega)
  | classDecl name attrs members children =>
    rw [Decl.body]
    refine reads_structure ⟨some name, some attrs, some members.fields, some members.methods,
      some members.enums, some members.ctors, some children⟩ (fun below hbelow => ?_) fun rest => rfl
    refine reads_fields_cons (by decide) rfl rfl (reads_textValue _ _) ?_
    refine reads_fields_cons (by decide) rfl rfl (reads_attributes _ _) ?_
    refine reads_fields_cons (by decide) rfl rfl (reads_byAccess reads_fieldInfo _ _) ?_
    refine reads_fields_cons (by decide) rfl rfl (reads_byAccess reads_method _ _) ?_
    refine reads_fields_cons (by decide) rfl rfl (reads_byAccess reads_enum _ _) ?_
    refine reads_fields_cons (by decide) rfl rfl (reads_byAccess reads_ctor _ _) ?_
    refine reads_fields_cons (by decide) rfl rfl (reads_children children ?_) reads_fields_nil
    exact fun b hb => h b (by omega)
  | enumDecl e =>
    rw [Decl.body]
    exact mapped (reads_enum budget e)
  | fieldDecl f =>
    rw [Decl.body]
    exact mapped (reads_fieldInfo budget f)
  | methodDecl m =>
    rw [Decl.body]
    exact mapped (reads_method budget m)
  | ctorDecl c =>
    rw [Decl.body]
    exact mapped (reads_ctor budget c)

theorem kindOfName?_tag (k : Kind) : kindOfName? (Text.utf8 k.tag) = some k := by
  cases k <;> rfl

/-- The name of a kind, and the body. -/
theorem reads_variant {child : Reader Decl} {budget : Nat}
    (h : ∀ b, budget = b + 2 → ∀ d : Decl, Reads child (ofValue d.toValue) (fault? b d.toValue) d)
    (d : Decl) :
    Reads (readVariant child budget) (ofText d.kind.tag ++ ofValue d.body) (fault? budget d.body)
      d := by
  have hshort : (Text.utf8 d.kind.tag).length ≤ window := by cases d.kind <;> decide
  refine (reads_name hshort).bind fun _ => ?_
  simpa only [kindOfName?_tag] using reads_body h d

theorem reads_declWith {child : Reader Decl} {budget : Nat}
    (h : ∀ b, budget = b + 3 → ∀ d : Decl, Reads child (ofValue d.toValue) (fault? b d.toValue) d)
    (d : Decl) :
    Reads (readDeclWith child budget) (ofValue d.toValue) (fault? budget d.toValue) d := by
  have hfits : textFault? d.kind.tag = none := by cases d.kind <;> decide
  have hbytes : ofValue d.toValue = 0xA1 :: (ofText d.kind.tag ++ ofValue d.body) := by
    simp [Decl.toValue, ofValue, ofFields, ofNamedValues, head]
  have hfault : fault? budget d.toValue = deeper budget fun below => fault? below d.body := by
    simp [Decl.toValue, fault?, namedFaults?, hfits, sizeFault?]
  have hinner : Reads (descend budget (readVariant child))
      (ofText d.kind.tag ++ ofValue d.body) (fault? budget d.toValue) d := by
    rw [hfault]
    exact Reads.descend fun below hbelow => reads_variant (fun b hb => h b (by omega)) d
  rw [hbytes]
  refine hinner.cons ⟨.cutShort, ?_⟩ fun rest => ?_
  · rw [readDeclWith, dropTags]
    rfl
  · have hhead : readHead (0xA1 :: rest) = .ok (.map (some 1), rest) := rfl
    rw [readDeclWith, dropTags_of_head hhead (by simp)]
    simp only [bind, Except.bind, hhead]

/-- A declaration is read back at any budget: what is nested in it is three levels down. -/
theorem reads_decl (budget : Nat) (d : Decl) :
    Reads (readDecl budget) (ofValue d.toValue) (fault? budget d.toValue) d := by
  fun_induction readDecl budget generalizing d with
  | case1 budget ih =>
    refine reads_declWith (fun b hb => ?_) d
    obtain rfl : budget = b := by omega
    exact ih
  | case2 few hfew =>
    refine reads_declWith (fun b hb => ?_) d
    exact absurd hb (hfew b)

/-! ## The cache -/

theorem reads_stamp (budget : Nat) (s : Stamp) :
    Reads (readStamp budget) (ofValue s.toValue) (fault? budget s.toValue) s := by
  have hnum (n bound b : Nat) (hn : n < bound) (hbound : bound ≤ UInt64.size) :
      Reads (readNat bound) (ofValue (.int n)) (fault? b (.int n)) n := by
    rw [ofValue, fault?, if_pos (by omega), Int.toNat_natCast, sizeFault?_of_lt (by omega)]
    exact reads_nat hn hbound
  have hsecs : s.secs.toNat < UInt64.size := s.secs.toNat_lt
  have hnanos : s.nanos.toNat < UInt32.size := s.nanos.toNat_lt
  refine reads_structure ⟨some s.secs.toNat, some s.nanos.toNat⟩ (fun below _ => ?_) fun rest => ?_
  · refine reads_fields_cons (by decide) rfl rfl (hnum _ _ _ hsecs (le_refl _)) ?_
    exact reads_fields_cons (by decide) rfl rfl (hnum _ _ _ hnanos (by decide)) reads_fields_nil
  · show Except.ok (({ secs := .ofNat s.secs.toNat, nanos := .ofNat s.nanos.toNat } : Stamp), rest) = _
    rw [UInt64.ofNat_toNat, UInt32.ofNat_toNat]

theorem reads_entry (budget : Nat) (e : CacheEntry) :
    Reads (readEntry budget) (ofValue e.toValue) (fault? budget e.toValue) e := by
  refine reads_structure ⟨some e.stamp, some e.root⟩ (fun below _ => ?_) fun rest => rfl
  refine reads_fields_cons (by decide) rfl rfl (reads_stamp _ _) ?_
  exact reads_fields_cons (by decide) rfl rfl (reads_decl _ _) reads_fields_nil

/-- The entries as fields of an object. -/
def entryFieldsOf (entries : Entries) : List (String × Value) :=
  entries.map fun e => (e.1, e.2.toValue)

/-- The step that reads one entry into its place. -/
def readEntryInto (below : Nat) (entries : Entries) : Reader Entries := fun input => do
  let (key, rest) ← readText input
  let (entry, rest) ← readEntry below rest
  return (Entries.insert key entry entries, rest)

theorem reads_entryInto (below : Nat) (entries : Entries) (key : String) (e : CacheEntry) :
    Reads (readEntryInto below entries) (ofText key ++ ofValue e.toValue)
      ((textFault? key).or (fault? below e.toValue)) (Entries.insert key e entries) :=
  (reads_text key).bind fun _ => (reads_entry below e).map fun _ => rfl

/-- Sorted entries go to the end of those before them, one after another. -/
theorem reads_entriesInto (below : Nat) (front entries : Entries)
    (hs : (front ++ entries).Sorted) :
    Reads (repeatCounted (readEntryInto below) entries.length front)
      (fieldBytes (entryFieldsOf entries)) (namedFaults? below (entryFieldsOf entries))
      (front ++ entries) := by
  induction entries generalizing front with
  | nil =>
    rw [List.append_nil]
    exact reads_repeat_nil
  | cons e entries ih =>
    obtain ⟨key, entry⟩ := e
    have hlt : ∀ f ∈ front, f.1 < key := fun f hf =>
      (List.pairwise_append.mp hs).2.2 f hf (key, entry) (List.mem_cons_self ..)
    have hone := reads_entryInto below front key entry
    rw [Entries.insert_of_lt hlt] at hone
    have hmore := ih (front ++ [(key, entry)]) (by simpa using hs)
    simpa [entryFieldsOf, fieldBytes, ofNamedValues, namedFaults?]
      using reads_repeat_cons hone hmore

theorem reads_entries (budget : Nat) (entries : Entries) (hs : entries.Sorted) :
    Reads (readEntries budget) (ofValue (.object (entryFieldsOf entries)))
      (fault? budget (.object (entryFieldsOf entries))) entries := by
  have hhead : Reads readItemHead (head 5 (entryFieldsOf entries).length)
      (sizeFault? (entryFieldsOf entries).length) (.map (some (entryFieldsOf entries).length)) :=
    (reads_head (by decide) fun _ => rfl).itemHead fun _ => nofun
  have hinner : Reads (descend budget fun below =>
        forEach (some (entryFieldsOf entries).length) (readEntryInto below) [])
      (fieldBytes (entryFieldsOf entries))
      (deeper budget fun below => namedFaults? below (entryFieldsOf entries)) ([] ++ entries) := by
    refine Reads.descend fun below _ => ?_
    rw [entryFieldsOf, List.length_map]
    exact reads_entriesInto below [] entries hs
  rw [ofValue, ofFields, length_ofNamedValues, fault?]
  exact hhead.bind fun _ => hinner

theorem reads_cache (budget : Nat) (c : Cache) (hs : c.entries.Sorted) :
    Reads (readCache budget) (ofCache c) (fault? budget c.toValue) c := by
  refine reads_structure ⟨some c.fingerprint, some c.entries⟩ (fun below _ => ?_) fun rest => rfl
  refine reads_fields_cons (by decide) rfl rfl (reads_textValue _ _) ?_
  exact reads_fields_cons (by decide) rfl rfl (reads_entries _ _ hs) reads_fields_nil

/-- **A stored cache is read back**, unless its stored form has a fault. -/
theorem decode_ofCache (c : Cache) (hs : c.entries.Sorted) :
    decode (ofCache c) =
      match fault? nestingLimit c.toValue with
      | some e => .error e
      | none => .ok c := by
  have hwhole := (reads_cache nestingLimit c hs).whole []
  rw [List.append_nil] at hwhole
  rw [decode, hwhole]
  cases fault? nestingLimit c.toValue <;> rfl

end HeaderReflect.Blob
