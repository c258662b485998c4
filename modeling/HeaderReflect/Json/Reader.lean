import HeaderReflect.Text.Bytes

/-!
Reading JSON where the type of the next value is known beforehand. The text is read from the
front, and the first fault met is the one reported: the text is malformed, it is well formed but
holds something else than expected, or it ends too early.
-/

namespace HeaderReflect.Json

inductive Fault where
  | malformed
  | mistyped
  | cutShort
deriving DecidableEq, Repr

/-- Reads something off the front of the bytes and leaves the rest. -/
abbrev Reader (α : Type) := Bytes → Except Fault (α × Bytes)

def byte (c : Char) : UInt8 := c.toNat.toUInt8

def isBlankByte (b : UInt8) : Bool :=
  b == byte ' ' || b == byte '\n' || b == byte '\t' || b == byte '\r'

def dropBlanks (input : Bytes) : Bytes := input.dropWhile isBlankByte

def isDigitByte (b : UInt8) : Bool := byte '0' ≤ b && b ≤ byte '9'

/-- Reads the remaining characters of a literal such as `null`. -/
def readWord : List Char → Bytes → Except Fault Bytes
  | [], input => .ok input
  | _ :: _, [] => .error .cutShort
  | c :: cs, b :: input => if b = byte c then readWord cs input else .error .malformed

/-- The number that four hexadecimal digits at the front stand for. -/
def readHex4 (input : Bytes) : Except Fault Nat :=
  if input.length < 4 then .error .cutShort
  else
    match (input.take 4).mapM fun b => Text.hexValue? (Char.ofNat b.toNat) with
    | some digits => .ok (digits.foldl (16 * · + ·) 0)
    | none => .error .malformed

def isHighSurrogate (n : Nat) : Bool := 0xD800 ≤ n && n ≤ 0xDBFF

def isLowSurrogate (n : Nat) : Bool := 0xDC00 ≤ n && n ≤ 0xDFFF

/-- The character of a `\u` escape and the number of bytes after the `u` that it takes. A high
surrogate has to be followed by the escape of a low one. -/
def readUnicodeEscape (input : Bytes) : Except Fault (Char × Nat) := do
  let n ← readHex4 input
  if isLowSurrogate n then .error .malformed
  else if isHighSurrogate n then
    let rest ← readWord ['\\', 'u'] (input.drop 4)
    let low ← readHex4 rest
    if isLowSurrogate low then
      return (Char.ofNat (0x10000 + (n - 0xD800) * 0x400 + (low - 0xDC00)), 10)
    else .error .malformed
  else return (Char.ofNat n, 4)

/-- The character an escape stands for and the number of bytes after the backslash it takes. -/
def readEscape : Bytes → Except Fault (Char × Nat)
  | [] => .error .cutShort
  | b :: rest =>
    if b = byte '"' then .ok ('"', 1)
    else if b = byte '\\' then .ok ('\\', 1)
    else if b = byte '/' then .ok ('/', 1)
    else if b = byte 'b' then .ok ('\x08', 1)
    else if b = byte 'f' then .ok ('\x0c', 1)
    else if b = byte 'n' then .ok ('\n', 1)
    else if b = byte 'r' then .ok ('\r', 1)
    else if b = byte 't' then .ok ('\t', 1)
    else if b = byte 'u' then (readUnicodeEscape rest).map fun (c, n) => (c, n + 1)
    else .error .malformed

/-- Reads a string after its opening quote. `read` holds its bytes so far, last first; they have
to be UTF-8 once the string is complete. -/
def readQuoted (read : Bytes) : Reader String
  | [] => .error .cutShort
  | b :: rest =>
    if b = byte '"' then
      match Text.ofUtf8? read.reverse with
      | some s => .ok (s, rest)
      | none => .error .malformed
    else if b = byte '\\' then
      match readEscape rest with
      | .ok (c, n) =>
        readQuoted ((Text.utf8 (String.singleton c)).reverse ++ read) (rest.drop n)
      | .error fault => .error fault
    else if b < 0x20 then .error .malformed
    else readQuoted (b :: read) rest
termination_by input => input.length
decreasing_by
  · simp only [List.length_drop, List.length_cons]; omega
  · simp

/-- The least number that is rounded beyond the largest double. -/
def doubleBound : Nat := (1 <<< 1024) - (1 <<< 970)

/-- Whether `digits · 10 ^ exponent` is too large for a double. The number of decimal places
settles all but the close cases. -/
def isOutOfRange (digits : Nat) (exponent : Int) : Bool :=
  let places : Int := (Nat.toDigits 10 digits).length + exponent
  if digits = 0 ∨ places < 300 then false
  else if 400 < places then true
  else if 0 ≤ exponent then doubleBound ≤ digits * Nat.pow 10 exponent.toNat
  else doubleBound * Nat.pow 10 (-exponent).toNat ≤ digits

def digitsValue (digits : Bytes) : Nat :=
  digits.foldl (fun n b => 10 * n + (b.toNat - (byte '0').toNat)) 0

/-- The fault at the exponent of a number, after the `e`. -/
def exponentFault (digits : Nat) (exponent : Int) (input : Bytes) : Fault :=
  let (negative, input) :=
    match input with
    | b :: rest =>
      if b = byte '-' then (true, rest) else if b = byte '+' then (false, rest) else (false, input)
    | [] => (false, [])
  match input with
  | [] => .cutShort
  | b :: _ =>
    if isDigitByte b then
      let value : Int := digitsValue (input.takeWhile isDigitByte)
      if isOutOfRange digits (exponent + if negative then -value else value) then .malformed
      else .mistyped
    else .malformed

/-- The fault at what follows the integer part of a number. -/
def fractionFault (digits : Bytes) (input : Bytes) : Fault :=
  let plain (digits : Bytes) (exponent : Int) : Fault :=
    if isOutOfRange (digitsValue digits) exponent then .malformed else .mistyped
  let isExponent (b : UInt8) : Bool := b == byte 'e' || b == byte 'E'
  match input with
  | [] => plain digits 0
  | b :: rest =>
    if b = byte '.' then
      let fraction := rest.takeWhile isDigitByte
      match fraction, rest.dropWhile isDigitByte with
      | [], [] => .cutShort
      | [], _ :: _ => .malformed
      | _, [] => plain (digits ++ fraction) (-fraction.length)
      | _, c :: rest =>
        if isExponent c then
          exponentFault (digitsValue (digits ++ fraction)) (-fraction.length) rest
        else plain (digits ++ fraction) (-fraction.length)
    else if isExponent b then exponentFault (digitsValue digits) 0 rest
    else plain digits 0

/-- The fault at a number that is not expected: it is read to its end first. -/
def numberFault (input : Bytes) : Fault :=
  match input with
  | [] => .cutShort
  | b :: rest =>
    if b = byte '0' then
      if (rest.head?.map isDigitByte).getD false then .malformed else fractionFault [b] rest
    else if isDigitByte b then
      fractionFault (input.takeWhile isDigitByte) (input.dropWhile isDigitByte)
    else .malformed

/-- The fault at a value that is not expected. A scalar is read to its end first, and a fault in
it comes before its being unexpected. -/
def unexpectedFault (input : Bytes) : Fault :=
  let word (cs : List Char) (rest : Bytes) : Fault :=
    match readWord cs rest with
    | .ok _ => .mistyped
    | .error fault => fault
  match input with
  | [] => .cutShort
  | b :: rest =>
    if b = byte 'n' then word ['u', 'l', 'l'] rest
    else if b = byte 't' then word ['r', 'u', 'e'] rest
    else if b = byte 'f' then word ['a', 'l', 's', 'e'] rest
    else if b = byte '-' then numberFault rest
    else if isDigitByte b then numberFault input
    else if b = byte '"' then
      match readQuoted [] rest with
      | .ok _ => .mistyped
      | .error fault => fault
    else if b = byte '[' ∨ b = byte '\x7b' then .mistyped
    else .malformed

/-- Reads a string. -/
def readText : Reader String := fun input =>
  match dropBlanks input with
  | [] => .error .cutShort
  | b :: rest => if b = byte '"' then readQuoted [] rest else .error (unexpectedFault (b :: rest))

/-- Reads a value or `null`. -/
def readOptional {α : Type} (read : Reader α) : Reader (Option α) := fun input =>
  match dropBlanks input with
  | [] => .error .cutShort
  | b :: rest =>
    if b = byte 'n' then (readWord ['u', 'l', 'l'] rest).map fun rest => (none, rest)
    else (read (b :: rest)).map fun (v, rest) => (some v, rest)

/-- Steps to the next element of a list: whether there is one, and the input at it. -/
def nextElement (first : Bool) (input : Bytes) : Except Fault (Bool × Bytes) :=
  match dropBlanks input with
  | [] => .error .cutShort
  | b :: rest =>
    if b = byte ']' then .ok (false, b :: rest)
    else if first then .ok (true, b :: rest)
    else if b = byte ',' then
      match dropBlanks rest with
      | [] => .error .cutShort
      | c :: rest => if c = byte ']' then .error .malformed else .ok (true, c :: rest)
    else .error .malformed

/-- Reads the end of a list whose wanted elements have all been read. -/
def readListEnd (input : Bytes) : Except Fault Bytes :=
  match dropBlanks input with
  | [] => .error .cutShort
  | b :: rest => if b = byte ']' then .ok rest else .error .malformed

/-- Reads elements up to the end of their list, at most `limit` of them. -/
def readElements {α : Type} (read : Reader α) : (limit : Nat) → (first : Bool) → Reader (List α)
  | 0, _, _ => .error .malformed
  | limit + 1, first, input => do
    let (more, input) ← nextElement first input
    if more then
      let (v, input) ← read input
      let (vs, input) ← readElements read limit false input
      return (v :: vs, input)
    else return ([], ← readListEnd input)

/-- Reads a list. An element takes at least one byte, so the bytes bound their number. -/
def readList {α : Type} (read : Reader α) : Reader (List α) := fun input =>
  match dropBlanks input with
  | [] => .error .cutShort
  | b :: rest =>
    if b = byte '[' then readElements read (rest.length + 1) true rest
    else .error (unexpectedFault (b :: rest))

/-- Steps to the next field of an object: the input after the opening quote of its name, if there
is one, or after the object. -/
def nextField (first : Bool) (input : Bytes) : Except Fault (Bool × Bytes) :=
  let name (b : UInt8) (rest : Bytes) : Except Fault (Bool × Bytes) :=
    if b = byte '"' then .ok (true, rest) else .error .malformed
  match dropBlanks input with
  | [] => .error .cutShort
  | b :: rest =>
    if b = byte '\x7d' then .ok (false, rest)
    else if first then name b rest
    else if b = byte ',' then
      match dropBlanks rest with
      | [] => .error .cutShort
      | c :: rest => name c rest
    else .error .malformed

/-- Reads the colon between a field's name and its value. -/
def readColon (input : Bytes) : Except Fault Bytes :=
  match dropBlanks input with
  | [] => .error .cutShort
  | b :: rest => if b = byte ':' then .ok rest else .error .malformed

end HeaderReflect.Json
