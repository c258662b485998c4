import HeaderReflect.Cache.Entries
import HeaderReflect.Tree.Value

/-!
The cache as a plain value.
-/

namespace HeaderReflect

open Template (Value)

def Stamp.toValue (s : Stamp) : Value :=
  .object [("secs", .int s.secs.toNat), ("nanos", .int s.nanos.toNat)]

def CacheEntry.toValue (e : CacheEntry) : Value :=
  .object [("stamp", e.stamp.toValue), ("root", e.root.toValue)]

def Cache.toValue (c : Cache) : Value :=
  .object
    [("fingerprint", .text c.fingerprint),
     ("entries", .object (c.entries.map fun e => (e.1, e.2.toValue)))]

end HeaderReflect
