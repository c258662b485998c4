import HeaderReflect.Cache.Value
import HeaderReflect.Text.Bytes

/-!
The stored form of the cache: CBOR with definite lengths and the shortest heads. An object is a map
from the names of its fields, in order.
-/

namespace HeaderReflect.Blob

/-- The lowest `width` bytes of a number, highest first. -/
def bigEndian : (width : Nat) → Nat → Bytes
  | 0, _ => []
  | width + 1, n => UInt8.ofNat ((n >>> (8 * width)) % 256) :: bigEndian width n

/-- The head of an item: its major type and its argument in the fewest bytes. There is no head for an
argument of more than eight bytes; a reserved one, which no reader accepts, stands in for it. -/
def head (major : Nat) (n : Nat) : Bytes :=
  if n < 24 then [UInt8.ofNat (32 * major + n)]
  else if n < UInt8.size then UInt8.ofNat (32 * major + 24) :: bigEndian 1 n
  else if n < UInt16.size then UInt8.ofNat (32 * major + 25) :: bigEndian 2 n
  else if n < UInt32.size then UInt8.ofNat (32 * major + 26) :: bigEndian 4 n
  else if n < UInt64.size then UInt8.ofNat (32 * major + 27) :: bigEndian 8 n
  else [UInt8.ofNat (32 * major + 28)]

def ofInt (n : Int) : Bytes := if 0 ≤ n then head 0 n.toNat else head 1 (-1 - n).toNat

def ofBool (b : Bool) : Bytes := [if b then 0xF5 else 0xF4]

def ofText (s : String) : Bytes := head 3 (Text.utf8 s).length ++ Text.utf8 s

def ofList (items : List Bytes) : Bytes := head 4 items.length ++ items.flatten

/-- A map with text keys. -/
def ofFields (fields : List (String × Bytes)) : Bytes :=
  head 5 fields.length ++ fields.flatMap fun f => ofText f.1 ++ f.2

mutual

/-- The stored form of any value. -/
def ofValue : Template.Value → Bytes
  | .null => [0xF6]
  | .bool b => ofBool b
  | .int n => ofInt n
  | .text s => ofText s
  | .list items => ofList (ofValues items)
  | .object fields => ofFields (ofNamedValues fields)

def ofValues : List Template.Value → List Bytes
  | [] => []
  | v :: rest => ofValue v :: ofValues rest

def ofNamedValues : List (String × Template.Value) → List (String × Bytes)
  | [] => []
  | (name, v) :: rest => (name, ofValue v) :: ofNamedValues rest

end

/-- The stored form of a cache. -/
def ofCache (c : Cache) : Bytes := ofValue c.toValue

end HeaderReflect.Blob
