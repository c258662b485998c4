/-!
The values a template is rendered with, and what templates ask of a value: an attribute, its
truth, its elements, its text.
-/

namespace HeaderReflect.Template

inductive Value where
  | null
  | bool (b : Bool)
  | int (n : Int)
  | text (s : String)
  | list (items : List Value)
  | object (fields : List (String × Value))
deriving Repr, Inhabited

namespace Value

/-- The attribute of an object; nothing else has attributes. -/
def attribute? (name : String) : Value → Option Value
  | .object fields => fields.lookup name
  | _ => none

/-- Null, zero and whatever is empty count as false. -/
def isTrue : Value → Bool
  | .null => false
  | .bool b => b
  | .int n => n != 0
  | .text s => s != ""
  | .list items => !items.isEmpty
  | .object fields => !fields.isEmpty

/-- What a loop over the value runs through: elements of a list, characters of a text, keys of an
object, and nothing for null. Other values cannot be looped over. -/
def elements? : Value → Option (List Value)
  | .null => some []
  | .list items => some items
  | .text s => some (s.toList.map fun c => .text (String.singleton c))
  | .object fields => some (fields.map fun f => .text f.1)
  | _ => none

/-- A text between quotes, as it appears inside a printed list or object. -/
def quoted (s : String) : String :=
  String.ofList ('"' :: s.toList.flatMap escape ++ ['"'])
where
  escape : Char → List Char
    | '"' => ['\\', '"']
    | '\\' => ['\\', '\\']
    | '\n' => ['\\', 'n']
    | '\r' => ['\\', 'r']
    | '\t' => ['\\', 't']
    | c => [c]

mutual

/-- The text of a value inside a list or an object. -/
def inner : Value → String
  | .null => "none"
  | .bool b => if b then "true" else "false"
  | .int n => toString n
  | .text s => quoted s
  | .list items => "[" ++ innerList true items ++ "]"
  | .object fields => "\x7b" ++ innerFields true fields ++ "\x7d"

def innerList (first : Bool) : List Value → String
  | [] => ""
  | v :: rest => (if first then "" else ", ") ++ v.inner ++ innerList false rest

def innerFields (first : Bool) : List (String × Value) → String
  | [] => ""
  | (k, v) :: rest =>
    (if first then "" else ", ") ++ quoted k ++ ": " ++ v.inner ++ innerFields false rest

end

/-- The text a value is printed as. A text stands for itself, without escaping. -/
def print : Value → String
  | .text s => s
  | v => v.inner

end Value

end HeaderReflect.Template
