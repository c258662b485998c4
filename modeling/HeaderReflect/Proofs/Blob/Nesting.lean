import HeaderReflect.Proofs.Blob.RoundTrip

/-!
Which stored caches can be read back. A blob that is short enough for any length to have a head has
no fault but its nesting, so a cache is read back exactly if its nesting stays within the limit, and
any other one is found too deep (`decode_ofCache_append`).
-/

namespace HeaderReflect

namespace Template.Value

mutual

/-- How many lists and objects stand inside one another at most. -/
def nesting : Value → Nat
  | .list items => nestingAll items + 1
  | .object fields => nestingNamed fields + 1
  | _ => 0

def nestingAll : List Value → Nat
  | [] => 0
  | v :: rest => max v.nesting (nestingAll rest)

def nestingNamed : List (String × Value) → Nat
  | [] => 0
  | (_, v) :: rest => max v.nesting (nestingNamed rest)

end

mutual

/-- All numbers in a value. -/
def numbers : Value → List Int
  | .int n => [n]
  | .list items => numbersAll items
  | .object fields => numbersNamed fields
  | _ => []

def numbersAll : List Value → List Int
  | [] => []
  | v :: rest => v.numbers ++ numbersAll rest

def numbersNamed : List (String × Value) → List Int
  | [] => []
  | (_, v) :: rest => v.numbers ++ numbersNamed rest

end

theorem numbersAll_eq_nil {items : List Value} (h : ∀ v ∈ items, v.numbers = []) :
    numbersAll items = [] := by
  induction items with
  | nil => rfl
  | cons v rest ih =>
    rw [numbersAll, h v (List.mem_cons_self ..), List.nil_append]
    exact ih fun w hw => h w (List.mem_cons_of_mem _ hw)

/-- Natural numbers below 2⁶⁴. -/
def AreWords (ns : List Int) : Prop := ∀ n ∈ ns, 0 ≤ n ∧ n < UInt64.size

theorem AreWords.append {ms ns : List Int} : AreWords (ms ++ ns) ↔ AreWords ms ∧ AreWords ns :=
  List.forall_mem_append

end Template.Value

open Template (Value)

namespace Blob

/-! ## Sizes -/

theorem length_head_pos (major n : Nat) : 0 < (head major n).length := by
  unfold head
  split_ifs <;> simp

theorem length_head_of_lt {major n : Nat} (h : n < 24) : (head major n).length = 1 := by
  rw [head, if_pos h, List.length_singleton]

theorem length_ofText_pos (s : String) : 0 < (ofText s).length := by
  have := length_head_pos 3 (Text.utf8 s).length
  simp only [ofText, List.length_append]
  omega

theorem length_ofValue_pos (v : Value) : 0 < (ofValue v).length := by
  cases v with
  | null => simp [ofValue]
  | bool b => simp [ofValue, ofBool]
  | int n =>
    rw [ofValue, ofInt]
    split_ifs
    · exact length_head_pos ..
    · exact length_head_pos ..
  | text s =>
    rw [ofValue]
    exact length_ofText_pos s
  | list items =>
    have := length_head_pos 4 (ofValues items).length
    simp only [ofValue, ofList, List.length_append]
    omega
  | object fields =>
    have := length_head_pos 5 (ofNamedValues fields).length
    simp only [ofValue, ofFields, List.length_append]
    omega

/-- A text is no longer than its stored form. -/
theorem textFault?_of_short {s : String} (h : (ofText s).length < UInt64.size) :
    textFault? s = none := by
  simp only [ofText, List.length_append] at h
  exact sizeFault?_of_lt (by omega)

theorem length_le_flatten (items : List Value) :
    items.length ≤ (ofValues items).flatten.length := by
  induction items with
  | nil => exact Nat.le_refl _
  | cons v rest ih =>
    have := length_ofValue_pos v
    simp only [ofValues, List.flatten_cons, List.length_append, List.length_cons]
    omega

theorem fieldBytes_cons (name : String) (v : Value) (rest : List (String × Value)) :
    fieldBytes ((name, v) :: rest) = ofText name ++ ofValue v ++ fieldBytes rest := by
  simp [fieldBytes, ofNamedValues]

theorem length_le_fieldBytes (fields : List (String × Value)) :
    fields.length ≤ (fieldBytes fields).length := by
  induction fields with
  | nil => exact Nat.le_refl _
  | cons f rest ih =>
    obtain ⟨name, v⟩ := f
    have := length_ofValue_pos v
    rw [fieldBytes_cons]
    simp only [List.length_append, List.length_cons]
    omega

/-! ## Faults -/

/-- The fault of a nesting for which too few levels are left. -/
def depthFault? (nesting budget : Nat) : Option Fault :=
  if nesting ≤ budget then none else some .tooDeep

theorem depthFault?_or (m n budget : Nat) :
    (depthFault? m budget).or (depthFault? n budget) = depthFault? (max m n) budget := by
  unfold depthFault?
  by_cases hm : m ≤ budget <;> by_cases hn : n ≤ budget <;> simp [hm, hn]

theorem deeper_depthFault? (nesting budget : Nat) :
    deeper budget (depthFault? nesting) = depthFault? (nesting + 1) budget := by
  cases budget with
  | zero => simp [deeper, depthFault?]
  | succ below => simp [deeper, depthFault?]

mutual

/-- A value of which the stored form is short has no fault but its nesting. -/
theorem fault?_eq (budget : Nat) (v : Value) (hnumbers : Value.AreWords v.numbers)
    (hshort : (ofValue v).length < UInt64.size) : fault? budget v = depthFault? v.nesting budget := by
  cases v with
  | null => rfl
  | bool b => rfl
  | int n =>
    obtain ⟨hn, hlt⟩ := hnumbers n (by simp [Value.numbers])
    rw [fault?, if_pos hn, sizeFault?_of_lt (by omega)]
    rfl
  | text s =>
    rw [fault?, textFault?_of_short (by rwa [ofValue] at hshort)]
    rfl
  | list items =>
    rw [ofValue, ofList, List.length_append] at hshort
    have hcount := length_le_flatten items
    have hitems (below : Nat) : faults? below items = depthFault? (Value.nestingAll items) below :=
      faults?_eq below items (by rwa [Value.numbers] at hnumbers) (by omega)
    rw [fault?, sizeFault?_of_lt (by omega), Option.none_or, funext hitems, deeper_depthFault?]
    rfl
  | object fields =>
    rw [ofValue, ofFields, List.length_append] at hshort
    change _ + (fieldBytes fields).length < _ at hshort
    have hcount := length_le_fieldBytes fields
    have hfields (below : Nat) :
        namedFaults? below fields = depthFault? (Value.nestingNamed fields) below :=
      namedFaults?_eq below fields (by rwa [Value.numbers] at hnumbers) (by omega)
    rw [fault?, sizeFault?_of_lt (by omega), Option.none_or, funext hfields, deeper_depthFault?]
    rfl

theorem faults?_eq (budget : Nat) (items : List Value)
    (hnumbers : Value.AreWords (Value.numbersAll items))
    (hshort : (ofValues items).flatten.length < UInt64.size) :
    faults? budget items = depthFault? (Value.nestingAll items) budget := by
  cases items with
  | nil => rfl
  | cons v rest =>
    rw [Value.numbersAll, Value.AreWords.append] at hnumbers
    rw [ofValues, List.flatten_cons, List.length_append] at hshort
    rw [faults?, fault?_eq budget v hnumbers.1 (by omega),
      faults?_eq budget rest hnumbers.2 (by omega), depthFault?_or]
    rfl

theorem namedFaults?_eq (budget : Nat) (fields : List (String × Value))
    (hnumbers : Value.AreWords (Value.numbersNamed fields))
    (hshort : (fieldBytes fields).length < UInt64.size) :
    namedFaults? budget fields = depthFault? (Value.nestingNamed fields) budget := by
  match fields with
  | [] => rfl
  | (name, v) :: rest =>
    rw [Value.numbersNamed, Value.AreWords.append] at hnumbers
    rw [fieldBytes_cons, List.length_append, List.length_append] at hshort
    rw [namedFaults?, textFault?_of_short (by omega), Option.none_or,
      fault?_eq budget v hnumbers.1 (by omega), namedFaults?_eq budget rest hnumbers.2 (by omega),
      depthFault?_or]
    rfl

end

end Blob

/-! ## Caches -/

@[simp] theorem numbers_ofTexts (texts : List String) : (Value.ofTexts texts).numbers = [] := by
  rw [Value.ofTexts, Value.numbers]
  refine Value.numbersAll_eq_nil fun v hv => ?_
  obtain ⟨s, -, rfl⟩ := List.mem_map.mp hv
  rfl

@[simp] theorem Attributes.numbers_toValue (a : Attributes) : a.toValue.numbers = [] := rfl

theorem ByAccess.numbers_toValue {α : Type} {item : α → Value} (h : ∀ x, (item x).numbers = [])
    (lists : ByAccess α) : (lists.toValue item).numbers = [] := by
  have hlist (xs : List α) : Value.numbersAll (xs.map item) = [] := by
    refine Value.numbersAll_eq_nil fun v hv => ?_
    obtain ⟨x, -, rfl⟩ := List.mem_map.mp hv
    exact h x
  simp [toValue, Value.numbers, Value.numbersNamed, hlist]

@[simp] theorem EnumInfo.numbers_toValue (e : EnumInfo) : e.toValue.numbers = [] := by
  simp [toValue, Value.numbers, Value.numbersNamed]

@[simp] theorem FieldInfo.numbers_toValue (f : FieldInfo) : f.toValue.numbers = [] := by
  simp [toValue, Value.numbers, Value.numbersNamed]

@[simp] theorem MethodInfo.numbers_toValue (m : MethodInfo) : m.toValue.numbers = [] := by
  simp [toValue, Value.numbers, Value.numbersNamed]

@[simp] theorem CtorInfo.numbers_toValue (c : CtorInfo) : c.toValue.numbers = [] := by
  simp [toValue, Value.numbers, Value.numbersNamed]

mutual

theorem Decl.numbers_body (d : Decl) : d.body.numbers = [] := by
  cases d with
  | namespaceDecl name attrs children =>
    simp [Decl.body, Value.numbers, Value.numbersNamed, Decl.numbers_toValues children]
  | classDecl name attrs members children =>
    simp [Decl.body, Value.numbers, Value.numbersNamed, Decl.numbers_toValues children,
      ByAccess.numbers_toValue]
  | enumDecl e => exact e.numbers_toValue
  | fieldDecl f => exact f.numbers_toValue
  | methodDecl m => exact m.numbers_toValue
  | ctorDecl c => exact c.numbers_toValue

theorem Decl.numbers_toValues (ds : List Decl) : Value.numbersAll (Decl.toValues ds) = [] := by
  cases ds with
  | nil => rfl
  | cons d rest =>
    simp [Decl.toValues, Value.numbersAll, Value.numbers, Value.numbersNamed, Decl.numbers_body d,
      Decl.numbers_toValues rest]

end

/-- The numbers in a stored entry are those of its stamp. -/
theorem CacheEntry.areWords_toValue (e : CacheEntry) : Value.AreWords e.toValue.numbers := by
  have hsecs : e.stamp.secs.toNat < UInt64.size := e.stamp.secs.toNat_lt
  have hnanos : e.stamp.nanos.toNat < UInt64.size :=
    Nat.lt_trans e.stamp.nanos.toNat_lt (by decide)
  have hnumbers : e.toValue.numbers = [(e.stamp.secs.toNat : Int), (e.stamp.nanos.toNat : Int)] := by
    simp [toValue, Stamp.toValue, Decl.toValue, Value.numbers, Value.numbersNamed,
      Decl.numbers_body]
  rw [hnumbers]
  intro n hn
  simp only [List.mem_cons, List.not_mem_nil, or_false] at hn
  omega

theorem Cache.areWords_toValue (c : Cache) : Value.AreWords c.toValue.numbers := by
  have hentries (entries : Entries) :
      Value.AreWords (Value.numbersNamed (entries.map fun e => (e.1, e.2.toValue))) := by
    induction entries with
    | nil => exact fun n hn => nomatch hn
    | cons e rest ih =>
      rw [List.map_cons, Value.numbersNamed, Value.AreWords.append]
      exact ⟨e.2.areWords_toValue, ih⟩
  simpa [toValue, Value.numbers, Value.numbersNamed] using hentries c.entries

/-- Levels of the stored form: one each for the cache, its entries and an entry, and within an entry
for every structure, every list and the kind of every declaration. -/
def Cache.nesting (c : Cache) : Nat := c.toValue.nesting

/-- **A stored cache is read back unless it nests too deeply**, whatever stands behind it. -/
theorem Blob.decode_ofCache_append {c : Cache} (hs : c.entries.Sorted)
    (hshort : (ofCache c).length < UInt64.size) (rest : Bytes) :
    decode (ofCache c ++ rest) =
      if c.nesting ≤ nestingLimit then .ok c else .error .tooDeep := by
  have hwhole := (reads_cache nestingLimit c hs).whole rest
  rw [fault?_eq nestingLimit c.toValue c.areWords_toValue hshort] at hwhole
  rw [decode, hwhole, depthFault?, Cache.nesting]
  split_ifs <;> rfl

/-- No part of a stored cache that ends early is read. -/
theorem Blob.decode_part {c : Cache} (hs : c.entries.Sorted) {part : Bytes}
    (hpart : part <+: ofCache c) (hcut : part.length < (ofCache c).length) :
    ∃ fault, decode part = .error fault := by
  obtain ⟨fault, hfault⟩ := (reads_cache nestingLimit c hs).cut part hpart hcut
  exact ⟨fault, by rw [decode, hfault]; rfl⟩

end HeaderReflect
