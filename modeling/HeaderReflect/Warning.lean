/-!
What a run warns about without giving up.
-/

namespace HeaderReflect

inductive Warning where
  | unreadableBlob
  | visitFailed (key : String)
  | vanished (path : String)
  | sameIdentifier (identifier first second : String)
deriving DecidableEq, Repr

def Warning.message : Warning → String
  | .unreadableBlob => "cache blob is unreadable; starting from an empty cache"
  | .visitFailed _ => "visit failed; recording no metadata for this file"
  | .vanished _ => "header disappeared before it could be stamped; skipping"
  | .sameIdentifier .. => "two headers derive the same identifier"

end HeaderReflect
