import HeaderReflect.Text.Bytes

/-!
Reading CBOR items where the type of the next item is known beforehand: heads, texts, integers,
lists and maps. Tags in front of an item are passed over. Every list, map and kind wrapper takes
one level of a budget for nesting.

The first fault met is the one reported: the data ends early, the encoding itself is malformed,
an item is well formed but is not what is expected, or the nesting is too deep.
-/

namespace HeaderReflect.Blob

inductive Fault where
  | cutShort
  | malformed
  | unexpected
  | tooDeep
deriving DecidableEq, Repr

/-- Reads something off the front of the bytes and leaves the rest. -/
abbrev Reader (α : Type) := Bytes → Except Fault (α × Bytes)

/-- The head of an item. A length that is missing is ended by a stop later. -/
inductive Head where
  | unsigned (n : Nat)
  | negative (n : Nat)
  | bytes (length : Option Nat)
  | text (length : Option Nat)
  | array (length : Option Nat)
  | map (length : Option Nat)
  | tag (n : Nat)
  | simple (n : Nat)
  | float
  | stop
deriving DecidableEq, Repr

/-- The first `n` bytes, which have to be there. -/
def take (n : Nat) : Reader Bytes := fun input =>
  if n ≤ input.length then .ok (input.take n, input.drop n) else .error .cutShort

def ofBigEndian (bytes : Bytes) : Nat :=
  bytes.foldl (fun n b => 256 * n + b.toNat) 0

/-- Reads the argument of a head from the low five bits of its first byte and what follows. -/
def readArgument (info : Nat) : Reader (Option Nat) := fun input =>
  if info < 24 then .ok (some info, input)
  else if info < 28 then
    (take (1 <<< (info - 24)) input).map fun (bytes, rest) => (some (ofBigEndian bytes), rest)
  else if info < 31 then .error .malformed
  else .ok (none, input)

/-- The head of a major type, the low bits of its first byte and its argument. -/
def Head.of? (major info : Nat) (argument : Option Nat) : Option Head :=
  match major with
  | 0 => argument.map .unsigned
  | 1 => argument.map .negative
  | 2 => some (.bytes argument)
  | 3 => some (.text argument)
  | 4 => some (.array argument)
  | 5 => some (.map argument)
  | 6 => argument.map .tag
  | _ =>
    match argument with
    | none => some .stop
    | some n => some (if info < 25 then .simple n else .float)

/-- Reads a head. Integers and tags cannot do without an argument. -/
def readHead : Reader Head
  | [] => .error .cutShort
  | b :: rest =>
    match readArgument (b.toNat % 32) rest with
    | .error fault => .error fault
    | .ok (argument, rest) =>
      match Head.of? (b.toNat / 32) (b.toNat % 32) argument with
      | some h => .ok (h, rest)
      | none => .error .malformed

theorem take_length_le {n : Nat} {input bytes rest : Bytes} (h : take n input = .ok (bytes, rest)) :
    rest.length ≤ input.length := by
  unfold take at h
  split at h
  · cases h; simp
  · cases h

theorem readArgument_length_le {info : Nat} {input : Bytes} {argument : Option Nat} {rest : Bytes}
    (h : readArgument info input = .ok (argument, rest)) : rest.length ≤ input.length := by
  unfold readArgument at h
  split at h
  · cases h; exact Nat.le_refl _
  · split at h
    · cases ht : take (1 <<< (info - 24)) input with
      | error fault => rw [ht] at h; cases h
      | ok r => rw [ht] at h; cases h; exact take_length_le ht
    · split at h <;> cases h
      exact Nat.le_refl _

/-- A head takes at least one byte. -/
theorem readHead_length_lt {input : Bytes} {h : Head} {rest : Bytes}
    (hr : readHead input = .ok (h, rest)) : rest.length < input.length := by
  cases input with
  | nil => cases hr
  | cons b tail =>
    simp only [readHead] at hr
    cases harg : readArgument (b.toNat % 32) tail with
    | error fault => rw [harg] at hr; cases hr
    | ok r =>
      have := readArgument_length_le harg
      simp only [harg] at hr
      split at hr <;> cases hr
      simp only [List.length_cons]
      omega

/-- The input at the next item behind its tags. -/
def dropTags (input : Bytes) : Except Fault Bytes :=
  match _h : readHead input with
  | .error fault => .error fault
  | .ok (.tag _, rest) => dropTags rest
  | .ok _ => .ok input
termination_by input.length
decreasing_by exact readHead_length_lt _h

/-- Reads the head of the next item behind its tags. -/
def readItemHead : Reader Head := fun input => do readHead (← dropTags input)

/-- Size of the window through which long texts are checked, and limit for names. -/
def window : Nat := 4096

/-- Whether a text that is cut short is found malformed before its end is missed: some full window
holds a bad sequence that does not reach the window's end. At most `limit` windows are looked
at. -/
def faultInWindows : (limit : Nat) → Bytes → Bool
  | 0, _ => false
  | limit + 1, input =>
    if input.length < window then false
    else
      let good := Text.wellFormedLength window (input.take window)
      if good + 3 < window then true else faultInWindows limit (input.drop good)

/-- Reads a text of known length. -/
def readTextOf (n : Nat) : Reader String := fun input =>
  if n ≤ input.length then
    match Text.ofUtf8? (input.take n) with
    | some s => .ok (s, input.drop n)
    | none => .error .malformed
  else if faultInWindows input.length input then .error .malformed
  else .error .cutShort

/-- Reads the chunks of a string of unknown length up to its stop; `chunk` adds one of known length
to what was read before. Strings of unknown length may stand inside one another; `depth` counts
those still open. At most `limit` heads are read. -/
def readChunks {σ : Type} (lengthOf : Head → Option (Option Nat)) (chunk : Nat → σ → Reader σ) :
    (limit depth : Nat) → σ → Reader σ
  | 0, _, _, _ => .error .cutShort
  | _ + 1, 0, s, input => .ok (s, input)
  | limit + 1, depth + 1, s, input => do
    let (h, rest) ← readHead input
    if h = .stop then readChunks lengthOf chunk limit depth s rest
    else
      match lengthOf h with
      | none => .error .malformed
      | some none => readChunks lengthOf chunk limit (depth + 2) s rest
      | some (some n) => do
        let (s, rest) ← chunk n s rest
        readChunks lengthOf chunk limit (depth + 1) s rest

def Head.textLength? : Head → Option (Option Nat)
  | .text n => some n
  | _ => none

def Head.bytesLength? : Head → Option (Option Nat)
  | .bytes n => some n
  | _ => none

/-- Reads the rest of a text after its head. -/
def readTextBody : Option Nat → Reader String
  | some n => readTextOf n
  | none => fun input =>
    readChunks Head.textLength?
      (fun n s input => (readTextOf n input).map fun (t, rest) => (s ++ t, rest))
      (input.length + 2) 1 "" input

/-- Reads the rest of a byte string after its head. -/
def readBytesBody : Option Nat → Reader Bytes
  | some n => take n
  | none => fun input =>
    readChunks Head.bytesLength?
      (fun n s input => (take n input).map fun (bytes, rest) => (s ++ bytes, rest))
      (input.length + 2) 1 [] input

/-- Reads a text. -/
def readText : Reader String := fun input => do
  match ← readItemHead input with
  | (.text n, rest) => readTextBody n rest
  | _ => .error .unexpected

/-- Reads a field name or the name of a kind: a short text or byte string of known length. -/
def readName : Reader Bytes := fun input => do
  match ← readItemHead input with
  | (.text (some n), rest) =>
    if n ≤ window then
      let (bytes, rest) ← take n rest
      if (Text.ofUtf8? bytes).isSome then return (bytes, rest) else .error .malformed
    else .error .unexpected
  | (.bytes (some n), rest) => if n ≤ window then take n rest else .error .unexpected
  | _ => .error .unexpected

def readBool : Reader Bool := fun input => do
  match ← readItemHead input with
  | (.simple 20, rest) => return (false, rest)
  | (.simple 21, rest) => return (true, rest)
  | _ => .error .unexpected

/-- The digits of a big number, in base 256 without zeros in front, together with more of its
bytes. There may be at most sixteen. -/
def addDigits : (digits : Bytes) → Bytes → Except Fault Bytes
  | digits, [] => .ok digits
  | digits, b :: rest =>
    if digits.length = 16 then .error .unexpected
    else if digits.isEmpty ∧ b = 0 then addDigits digits rest
    else addDigits (digits ++ [b]) rest

/-- Reads `n` bytes of a big number, sixteen at a time. -/
def readDigits (n : Nat) (digits : Bytes) : Reader Bytes := fun input => do
  if n = 0 then return (digits, input)
  else
    let (bytes, rest) ← take (min 16 n) input
    readDigits (n - 16) (← addDigits digits bytes) rest
termination_by n

/-- Reads the value of a big number behind its tag. -/
def readBigNumber : Reader Nat := fun input => do
  match ← readHead input with
  | (.bytes (some n), rest) =>
    let (digits, rest) ← readDigits n [] rest
    return (ofBigEndian digits, rest)
  | (.bytes none, rest) =>
    let (digits, rest) ← readChunks Head.bytesLength? readDigits (rest.length + 2) 1 [] rest
    return (ofBigEndian digits, rest)
  | _ => .error .unexpected

/-- Reads an integer, also one written as a big number. -/
def readInt (input : Bytes) : Except Fault (Int × Bytes) :=
  match _h : readHead input with
  | .error fault => .error fault
  | .ok (.unsigned n, rest) => .ok (n, rest)
  | .ok (.negative n, rest) => .ok (-1 - n, rest)
  | .ok (.tag 2, rest) => (readBigNumber rest).map fun (n, rest) => ((n : Int), rest)
  | .ok (.tag 3, rest) => (readBigNumber rest).map fun (n, rest) => (-1 - (n : Int), rest)
  | .ok (.tag _, rest) => readInt rest
  | .ok _ => .error .unexpected
termination_by input.length
decreasing_by exact readHead_length_lt _h

/-- Reads a number below `bound`. -/
def readNat (bound : Nat) : Reader Nat := fun input => do
  let (n, rest) ← readInt input
  if 0 ≤ n ∧ n < bound then return (n.toNat, rest) else .error .unexpected

/-- Goes one level down. -/
def descend {α : Type} (budget : Nat) (inner : Nat → Reader α) : Reader α :=
  match budget with
  | 0 => fun _ => .error .tooDeep
  | below + 1 => inner below

/-- Takes `count` steps. -/
def repeatCounted {σ : Type} (step : σ → Reader σ) : (count : Nat) → σ → Reader σ
  | 0, s, input => .ok (s, input)
  | count + 1, s, input => do
    let (s, rest) ← step s input
    repeatCounted step count s rest

/-- Takes steps up to a stop, at most `limit` of them. -/
def repeatToStop {σ : Type} (step : σ → Reader σ) : (limit : Nat) → σ → Reader σ
  | 0, _, _ => .error .cutShort
  | limit + 1, s, input => do
    let (h, rest) ← readHead input
    if h = .stop then return (s, rest)
    else
      let (s, rest) ← step s input
      repeatToStop step limit s rest

/-- Takes a step for each element of a list or map of the given length. -/
def forEach {σ : Type} (length : Option Nat) (step : σ → Reader σ) (s : σ) : Reader σ :=
  fun input =>
    match length with
    | some count => repeatCounted step count s input
    | none => repeatToStop step (input.length + 1) s input

/-- Passes over any item. `nested` goes one level down: given how the whole is made up of items, it
passes over it. Tagged items count as nested here, except for big numbers. -/
def skipWith (nested : (Reader Unit → Reader Unit) → Reader Unit) : Reader Unit := fun input => do
  match ← readHead input with
  | (.bytes n, rest) => return ((), (← readBytesBody n rest).2)
  | (.text n, rest) => return ((), (← readTextBody n rest).2)
  | (.array n, rest) => nested (fun item => forEach n (fun _ => item) ()) rest
  | (.map n, rest) =>
    nested (fun item => forEach n (fun _ => repeatCounted (fun _ => item) 2 ()) ()) rest
  | (.tag 2, rest) => return ((), (← readBigNumber rest).2)
  | (.tag 3, rest) =>
    let (n, rest) ← readBigNumber rest
    if n < 1 <<< 127 then return ((), rest) else .error .unexpected
  | (.tag _, rest) => nested id rest
  | (.simple n, rest) => if 20 ≤ n ∧ n < 24 then return ((), rest) else .error .unexpected
  | (.stop, _) => .error .unexpected
  | (_, rest) => return ((), rest)

/-- Passes over any item that needs no more than `budget` levels. -/
def skipItem : (budget : Nat) → Reader Unit
  | 0 => skipWith fun _ _ => .error .tooDeep
  | budget + 1 => skipWith fun whole => whole (skipItem budget)

/-- Reads a list. A byte string counts as a list of small numbers, so only the empty one passes
for a list of anything else. -/
def readListWith {α : Type} (budget : Nat) (element : Nat → Reader α) : Reader (List α) :=
  fun input => do
    match ← readItemHead input with
    | (.array length, rest) =>
      let (items, rest) ← descend budget
        (fun below => forEach length
          (fun items input => do
            let (item, rest) ← element below input
            return (item :: items, rest)) []) rest
      return (items.reverse, rest)
    | (.bytes length, rest) =>
      let (bytes, rest) ← readBytesBody length rest
      if bytes.isEmpty then return ([], rest) else .error .unexpected
    | _ => .error .unexpected

/-- The known fields of a structure by name. Each reader, given the levels left, adds its field to
what was read before. -/
abbrev FieldReaders (σ : Type) := List (String × (Nat → σ → Reader σ))

/-- Reads a named field, or passes over one that is unknown. -/
def readField {σ : Type} (fields : FieldReaders σ) (budget : Nat) (s : σ) : Reader σ :=
  fun input => do
    let (name, rest) ← readName input
    match fields.find? fun f => Text.utf8 f.1 == name with
    | some (_, read) => read budget s rest
    | none => return (s, (← skipItem budget rest).2)

/-- Reads the fields of a structure in any order. -/
def readFields {σ : Type} (fields : FieldReaders σ) (budget : Nat) (start : σ) : Reader σ :=
  fun input => do
    match ← readItemHead input with
    | (.map length, rest) =>
      descend budget (fun below => forEach length (readField fields below) start) rest
    | _ => .error .unexpected

/-- Reads a field into its place, which has to be free. -/
def readInto {α σ : Type} (place : Option α) (read : Reader α) (put : α → σ) : Reader σ :=
  fun input =>
    if place.isSome then .error .unexpected
    else (read input).map fun (v, rest) => (put v, rest)

/-- A field that has to be there. -/
def required {α : Type} (place : Option α) : Except Fault α :=
  match place with
  | some v => .ok v
  | none => .error .unexpected

end HeaderReflect.Blob
