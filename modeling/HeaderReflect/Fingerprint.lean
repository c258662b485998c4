import HeaderReflect.Config.Basic
import HeaderReflect.Digest
import HeaderReflect.Renderer

/-!
The fingerprint of a generator: a digest of everything besides the headers that shapes its output.
A cache is of use only under the fingerprint it was made with.
-/

namespace HeaderReflect

def generatorVersion : String := "0.1.0"

/-- The texts that go into the fingerprint, in order. -/
def fingerprintParts (r : Renderer) (c : Config) : List String :=
  [generatorVersion] ++ r.imprint ++ [c.marker, c.memberPrefix] ++ c.parserArgs

/-- The bytes that are digested: each text with a zero byte behind it. -/
def fingerprintInput (r : Renderer) (c : Config) : Bytes :=
  (fingerprintParts r c).flatMap fun part => Text.utf8 part ++ [0]

def fingerprint (r : Renderer) (c : Config) : String :=
  Text.hex (digest (fingerprintInput r c))

end HeaderReflect
