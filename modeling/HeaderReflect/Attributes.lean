import HeaderReflect.Text.Blank
import HeaderReflect.Text.Pieces

/-!
What a declaration asks for: reflection, a script binding, or a veto on either. An annotation
`nickel(tag, ...)` gives a declaration's own wishes, and a scope hands its wishes down: a need is
inherited unless some veto stands on the way.
-/

namespace HeaderReflect

structure Attributes where
  wantsReflection : Bool := false
  forceNoReflection : Bool := false
  wantsScript : Bool := false
  forceNoScript : Bool := false
deriving DecidableEq, Repr, Inhabited

namespace Attributes

/-- No wish and no veto. -/
def none : Attributes := {}

def anyNeed (a : Attributes) : Bool :=
  a.wantsReflection || a.wantsScript

/-- Characters an annotation starts with. -/
def opening : List Char := "nickel(".toList

/-- What one tag adds; an unknown tag adds nothing. -/
def addTag (a : Attributes) (tag : List Char) : Attributes :=
  if tag = "refl".toList then { a with wantsReflection := true }
  else if tag = "norefl".toList then { a with forceNoReflection := true }
  else if tag = "script".toList then { a with wantsScript := true }
  else if tag = "noscript".toList then { a with forceNoScript := true }
  else a

/-- The text between the parentheses of an annotation. -/
def body? (text : List Char) : Option (List Char) :=
  (Text.after? opening (Text.trimBlanks text)).bind (Text.beforeLast? ')')

/-- The tags of an annotation's body: its pieces between commas, trimmed. -/
def tags (body : List Char) : List (List Char) :=
  (body.splitOnP (· == ',')).map Text.trimBlanks

/-- The wishes an annotation states. A text that is no annotation of ours states none. -/
def parse (text : String) : Attributes :=
  match body? text.toList with
  | some body => (tags body).foldl addTag none
  | .none => none

/-- The wishes of a declaration inside a scope: vetoes add up, and a need of either side counts
where no veto stands. -/
def effective (own scope : Attributes) : Attributes :=
  let vetoReflection := own.forceNoReflection || scope.forceNoReflection
  let vetoScript := own.forceNoScript || scope.forceNoScript
  { wantsReflection := !vetoReflection && (own.wantsReflection || scope.wantsReflection)
    forceNoReflection := vetoReflection
    wantsScript := !vetoScript && (own.wantsScript || scope.wantsScript)
    forceNoScript := vetoScript }

end Attributes

end HeaderReflect
