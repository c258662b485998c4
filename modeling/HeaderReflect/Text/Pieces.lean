/-!
Taking text apart and putting it together: a literal at the front or the end, a literal anywhere,
and pieces joined by a separator.
-/

namespace HeaderReflect.Text

/-- What follows `lead`, if the characters start with it. -/
def after? : List Char → List Char → Option (List Char)
  | [], cs => some cs
  | _ :: _, [] => none
  | l :: lead, c :: cs => if l = c then after? lead cs else none

/-- What comes before the last character, if that is `close`. -/
def beforeLast? (close : Char) (cs : List Char) : Option (List Char) :=
  if cs.getLast? = some close then some cs.dropLast else none

/-- Whether `part` occurs in the characters as one block. The empty block occurs everywhere. -/
def occurs (part : List Char) : List Char → Bool
  | [] => part.isEmpty
  | c :: cs => part.isPrefixOf (c :: cs) || occurs part cs

/-- What follows the last `mark`, if there is one. -/
def afterLast? (mark : Char) (cs : List Char) : Option (List Char) :=
  if cs.contains mark then some (cs.reverse.takeWhile (· != mark)).reverse else none

/-- The texts in order with `separator` between neighbours. -/
def joinWith (separator : String) : List String → String
  | [] => ""
  | [s] => s
  | s :: t :: rest => s ++ separator ++ joinWith separator (t :: rest)

end HeaderReflect.Text
