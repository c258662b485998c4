/-!
Byte strings, the UTF-8 form of a text, and hexadecimal digits.
-/

namespace HeaderReflect

abbrev Bytes := List UInt8

namespace Text

def utf8 (s : String) : Bytes :=
  s.toByteArray.data.toList

/-- The text whose UTF-8 form the bytes are, if they are well formed. -/
def ofUtf8? (bytes : Bytes) : Option String :=
  String.fromUTF8? ⟨bytes.toArray⟩

theorem ofUtf8?_utf8 (s : String) : ofUtf8? (utf8 s) = some s := by
  simp [ofUtf8?, utf8, String.fromUTF8?, s.isValidUTF8, String.fromUTF8]

/-- Length of a UTF-8 sequence as its first byte announces it. -/
def sequenceLength (lead : UInt8) : Nat :=
  if lead < 0x80 then 1 else if lead < 0xE0 then 2 else if lead < 0xF0 then 3 else 4

/-- Number of bytes before the first sequence that is not well formed. The bytes are looked at
sequence by sequence, at most `limit` of them. -/
def wellFormedLength : (limit : Nat) → Bytes → Nat
  | 0, _ => 0
  | _, [] => 0
  | limit + 1, lead :: rest =>
    let n := sequenceLength lead
    let sequence := (lead :: rest).take n
    if sequence.length = n ∧ (ofUtf8? sequence).isSome then
      n + wellFormedLength limit ((lead :: rest).drop n)
    else 0

def hexDigit (n : Nat) : Char :=
  (Nat.toDigits 16 (n % 16)).headD '0'

/-- Two lower-case hexadecimal digits for each byte. -/
def hex (bytes : Bytes) : String :=
  String.ofList (bytes.flatMap fun b => [hexDigit (b.toNat / 16), hexDigit (b.toNat % 16)])

def hexValue? (c : Char) : Option Nat :=
  if '0' ≤ c ∧ c ≤ '9' then some (c.toNat - '0'.toNat)
  else if 'a' ≤ c ∧ c ≤ 'f' then some (c.toNat - 'a'.toNat + 10)
  else if 'A' ≤ c ∧ c ≤ 'F' then some (c.toNat - 'A'.toNat + 10)
  else none

/-- The bytes that pairs of hexadecimal digits stand for. -/
def ofHex? : List Char → Option Bytes
  | [] => some []
  | [_] => none
  | a :: b :: rest => do
    return UInt8.ofNat (16 * (← hexValue? a) + (← hexValue? b)) :: (← ofHex? rest)

end Text

end HeaderReflect
