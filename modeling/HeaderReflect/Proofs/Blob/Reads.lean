import HeaderReflect.Blob.Reader
import Mathlib.Data.Nat.Digits.Defs

/-!
What the readers of a stored cache make of what the writers put down. `Reads` says it once for all
readers: with anything behind a stored form the reader gives the value and leaves what is behind, or
meets a fault that the value alone decides; and no part of the form that ends early is accepted.
The values with a fault are those that nest too deeply and those with an argument for which there is
no head.
-/

namespace HeaderReflect.Blob

/-- The fault if there is one, else the value and what stands behind it. -/
def answer {α : Type} (fault? : Option Fault) (a : α) (rest : Bytes) : Except Fault (α × Bytes) :=
  match fault? with
  | some e => .error e
  | none => .ok (a, rest)

/-- The bytes are a stored form of the value to the reader, up to a fault. -/
structure Reads {α : Type} (read : Reader α) (bytes : Bytes) (fault? : Option Fault) (a : α) :
    Prop where
  whole : ∀ rest, read (bytes ++ rest) = answer fault? a rest
  cut : ∀ part, part <+: bytes → part.length < bytes.length → ∃ e, read part = .error e

/-- A part of two stored forms ends in the first, or holds it and ends in the second. -/
theorem cut_append {part a b : Bytes} (h : part <+: a ++ b)
    (hlt : part.length < (a ++ b).length) :
    (part <+: a ∧ part.length < a.length) ∨
      ∃ q, part = a ++ q ∧ q <+: b ∧ q.length < b.length := by
  obtain ⟨more, hmore⟩ := h
  rcases List.append_eq_append_iff.mp hmore with ⟨d, rfl, hd⟩ | ⟨d, rfl, hd⟩
  · rcases d with _ | ⟨c, d⟩
    · refine .inr ⟨[], by simp, List.nil_prefix, ?_⟩
      simpa using hlt
    · exact .inl ⟨List.prefix_append .., by simp⟩
  · refine .inr ⟨d, rfl, ⟨more, hd.symm⟩, ?_⟩
    simpa using hlt

namespace Reads

variable {α β : Type} {read : Reader α} {a : α}

/-- One reader after another. -/
theorem bind {bytes more : Bytes} {f g : Option Fault} {b : β}
    {next : α × Bytes → Except Fault (β × Bytes)} (h : Reads read bytes f a)
    (hnext : f = none → Reads (fun input => next (a, input)) more g b) :
    Reads (fun input => read input >>= next) (bytes ++ more) (f.or g) b := by
  refine ⟨fun rest => ?_, fun part hpart hlt => ?_⟩
  · show read (bytes ++ more ++ rest) >>= next = _
    rw [List.append_assoc, h.whole]
    cases f with
    | some e => rfl
    | none => exact (hnext rfl).whole rest
  · show ∃ e, read part >>= next = .error e
    rcases cut_append hpart hlt with ⟨hp, hl⟩ | ⟨q, rfl, hp, hl⟩
    · obtain ⟨e, he⟩ := h.cut part hp hl
      exact ⟨e, by rw [he]; rfl⟩
    · rw [h.whole]
      cases f with
      | some e => exact ⟨e, rfl⟩
      | none => exact (hnext rfl).cut q hp hl

/-- Making something else of what was read. -/
theorem map {bytes : Bytes} {f : Option Fault} {b : β}
    {next : α × Bytes → Except Fault (β × Bytes)} (h : Reads read bytes f a)
    (hnext : ∀ rest, next (a, rest) = .ok (b, rest)) :
    Reads (fun input => read input >>= next) bytes f b := by
  have hpure : Reads (fun input => next (a, input)) [] none b :=
    ⟨hnext, fun part _ hlt => absurd hlt (by simp)⟩
  simpa using h.bind fun _ => hpure

/-- A first byte that leads over to another reader. -/
theorem cons {lead : UInt8} {bytes : Bytes} {f : Option Fault} {inner : Reader α}
    (h : Reads inner bytes f a) (hempty : ∃ e, read [] = .error e)
    (hlead : ∀ rest, read (lead :: rest) = inner rest) : Reads read (lead :: bytes) f a := by
  refine ⟨fun rest => (hlead _).trans (h.whole rest), fun part hpart hlt => ?_⟩
  cases part with
  | nil => exact hempty
  | cons c part =>
    obtain ⟨rfl, hp⟩ := List.cons_prefix_cons.mp hpart
    rw [hlead]
    exact h.cut part hp (by simpa using hlt)

end Reads

/-! ## Heads -/

theorem foldl_bigEndian (width n acc : Nat) :
    (bigEndian width n).foldl (fun n b => 256 * n + b.toNat) acc =
      acc * 256 ^ width + n % 256 ^ width := by
  induction width generalizing acc with
  | zero => simp [bigEndian, Nat.mod_one]
  | succ width ih =>
    have hbyte : (UInt8.ofNat ((n >>> (8 * width)) % 256)).toNat = n / 256 ^ width % 256 := by
      rw [UInt8.toNat_ofNat', Nat.shiftRight_eq_div_pow, pow_mul]
      exact Nat.mod_eq_of_lt (Nat.mod_lt _ (by decide))
    rw [bigEndian, List.foldl_cons, ih, hbyte, Nat.mod_pow_succ]
    ring

theorem length_bigEndian (width n : Nat) : (bigEndian width n).length = width := by
  induction width with
  | zero => rfl
  | succ width ih => simp [bigEndian, ih]

theorem ofBigEndian_bigEndian {width n : Nat} (h : n < 256 ^ width) :
    ofBigEndian (bigEndian width n) = n := by
  rw [ofBigEndian, foldl_bigEndian, Nat.mod_eq_of_lt h]
  omega

/-- The fault of an argument for which there is no head. -/
def sizeFault? (n : Nat) : Option Fault :=
  if n < UInt64.size then none else some .malformed

theorem sizeFault?_of_lt {n : Nat} (h : n < UInt64.size) : sizeFault? n = none := if_pos h

/-- The first byte of a head holds the major type and five bits more. -/
theorem lead_parts {major info : Nat} (hm : major < 8) (hi : info < 32) :
    (UInt8.ofNat (32 * major + info)).toNat / 32 = major ∧
      (UInt8.ofNat (32 * major + info)).toNat % 32 = info := by
  rw [UInt8.toNat_ofNat', Nat.mod_eq_of_lt (by omega)]
  omega

/-- An argument in bytes of its own, as many as the first byte says. -/
theorem reads_argument {major n width info : Nat} {h : Head} (hm : major < 8)
    (hh : ∀ info, Head.of? major info (some n) = some h) (hi : 24 ≤ info ∧ info < 28)
    (hwidth : 1 <<< (info - 24) = width) (hn : n < 256 ^ width) :
    Reads readHead (UInt8.ofNat (32 * major + info) :: bigEndian width n) none h := by
  obtain ⟨hmajor, hinfo⟩ := lead_parts hm (show info < 32 by omega)
  have hargument : ∀ rest, readArgument info rest =
      (take width rest).map fun r => (some (ofBigEndian r.1), r.2) := fun rest => by
    rw [readArgument, if_neg (by omega), if_pos hi.2, hwidth]
  refine ⟨fun rest => ?_, fun part hpart hlt => ?_⟩
  · have htake : take width (bigEndian width n ++ rest) = .ok (bigEndian width n, rest) := by
      rw [take, if_pos (by simp [length_bigEndian]), List.take_left' (length_bigEndian ..),
        List.drop_left' (length_bigEndian ..)]
    rw [List.cons_append, readHead, hmajor, hinfo, hargument, htake]
    simp only [Except.map, ofBigEndian_bigEndian hn, hh]
    rfl
  · cases part with
    | nil => exact ⟨_, rfl⟩
    | cons c part =>
      obtain ⟨rfl, hp⟩ := List.cons_prefix_cons.mp hpart
      have hshort : take width part = .error .cutShort := by
        rw [take, if_neg]
        simp only [List.length_cons, length_bigEndian] at hlt
        omega
      rw [readHead, hmajor, hinfo, hargument, hshort]
      exact ⟨_, rfl⟩

/-- A head that is a single byte. -/
theorem reads_lead {major info : Nat} {f : Option Fault} {h : Head} (hm : major < 8)
    (hi : info < 32)
    (hread : ∀ rest, (readArgument info rest).bind (fun (argument, rest) =>
      match Head.of? major info argument with
      | some h => .ok (h, rest)
      | none => .error .malformed) = answer f h rest) :
    Reads readHead [UInt8.ofNat (32 * major + info)] f h := by
  obtain ⟨hmajor, hinfo⟩ := lead_parts hm hi
  refine ⟨fun rest => ?_, fun part hpart hlt => ?_⟩
  · rw [List.cons_append, List.nil_append, readHead, hmajor, hinfo, ← hread]
    cases readArgument info rest <;> rfl
  · have hnil : part = [] := List.length_eq_zero_iff.mp (by simpa using hlt)
    exact ⟨_, by rw [hnil]; rfl⟩

/-- A written head is read back. -/
theorem reads_head {major n : Nat} {h : Head} (hm : major < 8)
    (hh : ∀ info, Head.of? major info (some n) = some h) :
    Reads readHead (head major n) (sizeFault? n) h := by
  by_cases h64 : n < UInt64.size
  · rw [sizeFault?_of_lt h64]
    by_cases h5 : n < 24
    · rw [head, if_pos h5]
      refine reads_lead hm (by omega) fun rest => ?_
      simp [readArgument, h5, Except.bind, hh, answer]
    by_cases h8 : n < UInt8.size
    · rw [head, if_neg h5, if_pos h8]
      exact reads_argument hm hh (by decide) rfl h8
    by_cases h16 : n < UInt16.size
    · rw [head, if_neg h5, if_neg h8, if_pos h16]
      exact reads_argument hm hh (by decide) rfl h16
    by_cases h32 : n < UInt32.size
    · rw [head, if_neg h5, if_neg h8, if_neg h16, if_pos h32]
      exact reads_argument hm hh (by decide) rfl h32
    · rw [head, if_neg h5, if_neg h8, if_neg h16, if_neg h32, if_pos h64]
      exact reads_argument hm hh (by decide) rfl h64
  · have hover (bound : Nat) (hbound : bound ≤ UInt64.size) : ¬n < bound :=
      fun hn => h64 (lt_of_lt_of_le hn hbound)
    rw [sizeFault?, if_neg h64, head, if_neg (hover _ (by decide)), if_neg (hover _ (by decide)),
      if_neg (hover _ (by decide)), if_neg (hover _ (by decide)), if_neg h64]
    exact reads_lead hm (by decide) fun rest => rfl

/-- Without a tag in front the next item is right there. -/
theorem dropTags_of_head {input rest : Bytes} {h : Head} (hr : readHead input = .ok (h, rest))
    (htag : ∀ t, h ≠ .tag t) : dropTags input = .ok input := by
  rw [dropTags]
  split
  · rename_i heq
    rw [hr] at heq
    cases heq
  · rename_i heq
    rw [hr] at heq
    cases heq
    exact absurd rfl (htag _)
  · rfl

theorem readItemHead_of_error {input : Bytes} {e : Fault} (hr : readHead input = .error e) :
    readItemHead input = .error e := by
  have hdrop : dropTags input = .error e := by
    rw [dropTags]
    split
    · rename_i heq
      rw [hr] at heq
      cases heq
      rfl
    all_goals
      rename_i heq
      rw [hr] at heq
      cases heq
  rw [readItemHead, hdrop]
  rfl

/-- Behind no tags the head of an item is the head itself. -/
theorem Reads.itemHead {bytes : Bytes} {f : Option Fault} {h : Head} (hr : Reads readHead bytes f h)
    (htag : ∀ t, h ≠ .tag t) : Reads readItemHead bytes f h := by
  refine ⟨fun rest => ?_, fun part hpart hlt => ?_⟩
  · have hwhole := hr.whole rest
    cases f with
    | some e => exact readItemHead_of_error hwhole
    | none =>
      rw [readItemHead, dropTags_of_head hwhole htag]
      exact hwhole
  · obtain ⟨e, he⟩ := hr.cut part hpart hlt
    exact ⟨e, readItemHead_of_error he⟩

/-! ## Texts, numbers and truth values -/

theorem reads_textOf (s : String) : Reads (readTextOf (Text.utf8 s).length) (Text.utf8 s) none s := by
  refine ⟨fun rest => ?_, fun part _ hlt => ?_⟩
  · rw [readTextOf, if_pos (by simp), List.take_left, List.drop_left, Text.ofUtf8?_utf8]
    rfl
  · rw [readTextOf, if_neg (by omega)]
    split
    · exact ⟨_, rfl⟩
    · exact ⟨_, rfl⟩

/-- The fault of a text that is too long for any head. -/
def textFault? (s : String) : Option Fault := sizeFault? (Text.utf8 s).length

theorem reads_text (s : String) : Reads readText (ofText s) (textFault? s) s := by
  have hhead : Reads readItemHead (head 3 (Text.utf8 s).length) (textFault? s) _ :=
    (reads_head (by decide) fun _ => rfl).itemHead fun _ => nofun
  have hall : Reads readText (ofText s) ((textFault? s).or none) s :=
    hhead.bind fun _ => reads_textOf s
  rwa [Option.or_none] at hall

/-- A short name is read as its bytes. -/
theorem reads_name {name : String} (h : (Text.utf8 name).length ≤ window) :
    Reads readName (ofText name) none (Text.utf8 name) := by
  have hhead : Reads readItemHead (head 3 (Text.utf8 name).length) none
      (.text (some (Text.utf8 name).length)) := by
    rw [← sizeFault?_of_lt (lt_of_le_of_lt h (show window < UInt64.size by decide))]
    exact (reads_head (by decide) fun _ => rfl).itemHead fun _ => nofun
  refine hhead.bind fun _ => ⟨fun rest => ?_, fun part _ hlt => ?_⟩
  · have htake : take (Text.utf8 name).length (Text.utf8 name ++ rest) =
        .ok (Text.utf8 name, rest) := by
      rw [take, if_pos (by simp), List.take_left, List.drop_left]
    simp only [h, ↓reduceIte, htake]
    show (if (Text.ofUtf8? (Text.utf8 name)).isSome then _ else _) = _
    rw [Text.ofUtf8?_utf8]
    rfl
  · have hshort : take (Text.utf8 name).length part = .error .cutShort := by
      rw [take, if_neg (by omega)]
    simp only [h, ↓reduceIte, hshort]
    exact ⟨_, rfl⟩

theorem reads_bool (b : Bool) : Reads readBool (ofBool b) none b := by
  have hempty : ∃ e, readBool [] = .error e := ⟨_, by
    rw [readBool, readItemHead_of_error rfl]
    rfl⟩
  have hdone : Reads (fun rest => .ok (b, rest)) [] none b :=
    ⟨fun _ => rfl, fun part _ hlt => absurd hlt (by simp)⟩
  cases b with
  | false =>
    refine hdone.cons hempty fun rest => ?_
    rw [readBool, readItemHead, dropTags_of_head (h := .simple 20) rfl fun _ => nofun]
    rfl
  | true =>
    refine hdone.cons hempty fun rest => ?_
    rw [readBool, readItemHead, dropTags_of_head (h := .simple 21) rfl fun _ => nofun]
    rfl

/-- A number below a bound that is no higher than that of heads. -/
theorem reads_nat {n bound : Nat} (hn : n < bound) (hbound : bound ≤ UInt64.size) :
    Reads (readNat bound) (ofInt n) none n := by
  have hbytes : ofInt n = head 0 n := by simp [ofInt]
  have hhead : Reads readHead (head 0 n) none (.unsigned n) := by
    rw [← sizeFault?_of_lt (lt_of_lt_of_le hn hbound)]
    exact reads_head (by decide) fun _ => rfl
  have hint : Reads readInt (head 0 n) none (n : Int) := by
    refine ⟨fun rest => ?_, fun part hpart hlt => ?_⟩
    · have hwhole := hhead.whole rest
      rw [readInt]
      split <;> simp_all [answer]
    · obtain ⟨e, he⟩ := hhead.cut part hpart hlt
      refine ⟨e, ?_⟩
      rw [readInt]
      split <;> simp_all
  rw [hbytes]
  refine hint.map fun rest => ?_
  simp [hn]
  rfl

/-! ## Lists and structures -/

/-- The fault of what lies one level down, if that level is still within the budget. -/
def deeper (budget : Nat) (f : Nat → Option Fault) : Option Fault :=
  match budget with
  | 0 => some .tooDeep
  | below + 1 => f below

mutual

/-- The first fault met in the stored form of a value when so many levels are left. -/
def fault? (budget : Nat) : Template.Value → Option Fault
  | .null => none
  | .bool _ => none
  | .int n => sizeFault? (if 0 ≤ n then n.toNat else (-1 - n).toNat)
  | .text s => textFault? s
  | .list items => (sizeFault? items.length).or (deeper budget fun below => faults? below items)
  | .object fields =>
    (sizeFault? fields.length).or (deeper budget fun below => namedFaults? below fields)

def faults? (budget : Nat) : List Template.Value → Option Fault
  | [] => none
  | v :: rest => (fault? budget v).or (faults? budget rest)

def namedFaults? (budget : Nat) : List (String × Template.Value) → Option Fault
  | [] => none
  | (name, v) :: rest => ((textFault? name).or (fault? budget v)).or (namedFaults? budget rest)

end

theorem Reads.descend {α : Type} {budget : Nat} {inner : Nat → Reader α} {bytes : Bytes}
    {f : Nat → Option Fault} {a : α}
    (h : ∀ below, budget = below + 1 → Reads (inner below) bytes (f below) a) :
    Reads (Blob.descend budget inner) bytes (deeper budget f) a := by
  cases budget with
  | zero => exact ⟨fun rest => rfl, fun part _ _ => ⟨_, rfl⟩⟩
  | succ below => exact h below rfl

theorem reads_repeat_nil {σ : Type} {step : σ → Reader σ} {s : σ} :
    Reads (repeatCounted step 0 s) [] none s :=
  ⟨fun _ => rfl, fun part _ hlt => absurd hlt (by simp)⟩

/-- One step, and as many as are left. -/
theorem reads_repeat_cons {σ : Type} {step : σ → Reader σ} {count : Nat} {s t u : σ}
    {bytes more : Bytes} {f g : Option Fault} (h : Reads (step s) bytes f t)
    (hmore : Reads (repeatCounted step count t) more g u) :
    Reads (repeatCounted step (count + 1) s) (bytes ++ more) (f.or g) u :=
  h.bind fun _ => hmore

theorem length_ofValues (items : List Template.Value) : (ofValues items).length = items.length := by
  induction items with
  | nil => rfl
  | cons v rest ih => simp [ofValues, ih]

theorem length_ofNamedValues (fields : List (String × Template.Value)) :
    (ofNamedValues fields).length = fields.length := by
  induction fields with
  | nil => rfl
  | cons f rest ih => simp [ofNamedValues, ih]

/-- The elements of a list, with those before them in front. -/
theorem reads_items {α : Type} {below : Nat} {element : Reader α} {val : α → Template.Value}
    {items : List α} (front : List α)
    (h : ∀ x ∈ items, Reads element (ofValue (val x)) (fault? below (val x)) x) :
    Reads (repeatCounted (fun items input => do
        let (item, rest) ← element input
        return (item :: items, rest)) items.length front)
      (ofValues (items.map val)).flatten (faults? below (items.map val))
      (items.reverse ++ front) := by
  induction items generalizing front with
  | nil => exact reads_repeat_nil
  | cons x items ih =>
    have hx : Reads (fun input => do
        let (item, rest) ← element input
        return (item :: front, rest)) _ _ (x :: front) :=
      (h x (List.mem_cons_self ..)).map fun _ => rfl
    have hmore := ih (x :: front) fun y hy => h y (List.mem_cons_of_mem _ hy)
    simpa [ofValues, faults?] using reads_repeat_cons hx hmore

/-- A list is read back where its elements are. -/
theorem reads_list {α : Type} {budget : Nat} {element : Nat → Reader α} {val : α → Template.Value}
    {items : List α}
    (h : ∀ below, budget = below + 1 → ∀ x ∈ items,
      Reads (element below) (ofValue (val x)) (fault? below (val x)) x) :
    Reads (readListWith budget element) (ofValue (.list (items.map val)))
      (fault? budget (.list (items.map val))) items := by
  have hhead : Reads readItemHead (head 4 (items.map val).length)
      (sizeFault? (items.map val).length) (.array (some (items.map val).length)) :=
    (reads_head (by decide) fun _ => rfl).itemHead fun _ => nofun
  have hitems : Reads (descend budget fun below => forEach (some (items.map val).length)
        (fun items input => do
          let (item, rest) ← element below input
          return (item :: items, rest)) [])
      (ofValues (items.map val)).flatten (deeper budget fun below => faults? below (items.map val))
      (items.reverse ++ []) := by
    refine Reads.descend fun below hbelow => ?_
    rw [List.length_map]
    exact reads_items [] (h below hbelow)
  rw [ofValue, ofList, length_ofValues, fault?]
  refine hhead.bind fun _ => hitems.map fun rest => ?_
  show Except.ok ((items.reverse ++ []).reverse, rest) = _
  rw [List.append_nil, List.reverse_reverse]

/-! A structure is read field by field, each into its place. -/

/-- The fields of an object one after another. -/
def fieldBytes (fields : List (String × Template.Value)) : Bytes :=
  (ofNamedValues fields).flatMap fun f => ofText f.1 ++ f.2

theorem utf8_beq (a b : String) : (Text.utf8 a == Text.utf8 b) = (a == b) := by
  have hinj : Text.utf8 a = Text.utf8 b → a = b := fun h => by
    have hb := Text.ofUtf8?_utf8 b
    rw [← h, Text.ofUtf8?_utf8] at hb
    exact Option.some.inj hb
  by_cases h : a = b
  · simp [h]
  · simp [h, mt hinj h]

/-- A place that is free takes what is read. -/
theorem Reads.into {α σ : Type} {read : Reader α} {bytes : Bytes} {f : Option Fault} {a : α}
    {place : Option α} {put : α → σ} (h : Reads read bytes f a) (hfree : place = none) :
    Reads (readInto place read put) bytes f (put a) := by
  have hinto (input : Bytes) : readInto place read put input =
      (read input).map fun (v, rest) => (put v, rest) := by
    rw [hfree]
    rfl
  refine ⟨fun rest => ?_, fun part hpart hlt => ?_⟩
  · rw [hinto, h.whole]
    cases f <;> rfl
  · obtain ⟨e, he⟩ := h.cut part hpart hlt
    exact ⟨e, by rw [hinto, he]; rfl⟩

theorem reads_field {α σ : Type} {fields : FieldReaders σ} {below : Nat} {s : σ}
    {name known : String} {v : Template.Value} {a : α} {place : σ → Option α}
    {read : Nat → Reader α} {put : σ → α → σ} (hname : (Text.utf8 name).length ≤ window)
    (hfind : (fields.find? fun f => f.1 == name) =
      some (known, fun budget s => readInto (place s) (read budget) (put s)))
    (hfree : place s = none) (h : Reads (read below) (ofValue v) (fault? below v) a) :
    Reads (readField fields below s) (ofText name ++ ofValue v) (fault? below v) (put s a) := by
  have hfind' : (fields.find? fun f => Text.utf8 f.1 == Text.utf8 name) =
      some (known, fun budget s => readInto (place s) (read budget) (put s)) := by
    simpa only [utf8_beq] using hfind
  refine (reads_name hname).bind fun _ => ?_
  simpa only [hfind'] using h.into hfree

theorem reads_fields_nil {σ : Type} {fields : FieldReaders σ} {below : Nat} {s : σ} :
    Reads (repeatCounted (readField fields below) ([] : List (String × Template.Value)).length s)
      (fieldBytes []) (namedFaults? below []) s :=
  reads_repeat_nil

/-- A field that goes into its place, and the fields behind it. -/
theorem reads_fields_cons {α σ : Type} {fields : FieldReaders σ} {below : Nat} {s t : σ}
    {name known : String} {v : Template.Value} {more : List (String × Template.Value)} {a : α}
    {place : σ → Option α} {read : Nat → Reader α} {put : σ → α → σ}
    (hname : (Text.utf8 name).length ≤ window)
    (hfind : (fields.find? fun f => f.1 == name) =
      some (known, fun budget s => readInto (place s) (read budget) (put s)))
    (hfree : place s = none) (h : Reads (read below) (ofValue v) (fault? below v) a)
    (hmore : Reads (repeatCounted (readField fields below) more.length (put s a))
      (fieldBytes more) (namedFaults? below more) t) :
    Reads (repeatCounted (readField fields below) ((name, v) :: more).length s)
      (fieldBytes ((name, v) :: more)) (namedFaults? below ((name, v) :: more)) t := by
  have hfits : textFault? name = none :=
    sizeFault?_of_lt (lt_of_le_of_lt hname (show window < UInt64.size by decide))
  have hall := reads_repeat_cons (reads_field hname hfind hfree h) hmore
  simpa [fieldBytes, ofNamedValues, namedFaults?, hfits] using hall

/-- A structure is read back where its fields are. -/
theorem reads_structure {α σ : Type} {fields : FieldReaders σ} {budget : Nat} {start : σ}
    {named : List (String × Template.Value)} {a : α} (parts : σ)
    {finish : σ × Bytes → Except Fault (α × Bytes)}
    (h : ∀ below, budget = below + 1 →
      Reads (repeatCounted (readField fields below) named.length start) (fieldBytes named)
        (namedFaults? below named) parts)
    (hfinish : ∀ rest, finish (parts, rest) = .ok (a, rest)) :
    Reads (fun input => readFields fields budget start input >>= finish)
      (ofValue (.object named)) (fault? budget (.object named)) a := by
  have hhead : Reads readItemHead (head 5 named.length) (sizeFault? named.length)
      (.map (some named.length)) :=
    (reads_head (by decide) fun _ => rfl).itemHead fun _ => nofun
  have hfields : Reads (readFields fields budget start) (head 5 named.length ++ fieldBytes named)
      (fault? budget (.object named)) parts := by
    rw [fault?]
    exact hhead.bind fun _ => Reads.descend h
  rw [ofValue, ofFields, length_ofNamedValues]
  exact hfields.map hfinish

end HeaderReflect.Blob
