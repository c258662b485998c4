import HeaderReflect.Visit

/-!
Cursors by script: prepared answers for single headers. A header without an answer cannot be
parsed.
-/

namespace HeaderReflect

/-- Prepared answers by path, the latest first. -/
abbrev CursorScript := List (String × Except String Cursor)

namespace CursorScript

/-- Prepares the answer for a header; an earlier one no longer counts. -/
def prepare (script : CursorScript) (path : String) (answer : Except String Cursor) :
    CursorScript :=
  (path, answer) :: script

def source (script : CursorScript) : CursorSource := fun path =>
  match script.find? fun s => Path.samePlace path s.1 with
  | some (_, answer) => answer
  | none => .error "no scripted translation unit"

end CursorScript

end HeaderReflect
