/-!
Patterns for file names: `?` stands for any character, `*` for any text, `[..]` and `[!..]` for a
character of a class or outside of it, and `**` as a whole name for any number of directories.
Everything else stands for itself.
-/

namespace HeaderReflect.Glob

/-- The characters from `low` to `high`; a single one is a range of its own. -/
structure CharRange where
  low : Char
  high : Char
deriving DecidableEq, Repr

inductive Token where
  | literal (c : Char)
  | anyChar
  | anyText
  | anyPath
  | oneOf (ranges : List CharRange)
  | noneOf (ranges : List CharRange)
deriving DecidableEq, Repr

abbrev Pattern := List Token

/-- The characters of a class: `a-z` is a range. -/
def classRanges : List Char → List CharRange
  | low :: '-' :: high :: rest => ⟨low, high⟩ :: classRanges rest
  | c :: rest => ⟨c, c⟩ :: classRanges rest
  | [] => []

mutual

/-- The tokens of a pattern, unless it is malformed. `**` has to be a whole name, so `fresh` tells
whether a name starts here. -/
def tokens? (fresh : Bool) : List Char → Option Pattern
  | [] => some []
  | '?' :: rest => (tokens? false rest).map (.anyChar :: ·)
  | '*' :: '*' :: [] => if fresh then some [.anyPath] else none
  | '*' :: '*' :: '/' :: rest => if fresh then (tokens? true rest).map (.anyPath :: ·) else none
  | '*' :: '*' :: _ => none
  | '*' :: rest => (tokens? false rest).map (.anyText :: ·)
  | '[' :: '!' :: c :: rest => classTokens? .noneOf [c] rest
  | '[' :: '!' :: [] => none
  | '[' :: c :: rest => classTokens? .oneOf [c] rest
  | '[' :: [] => none
  | c :: rest => (tokens? (c == '/') rest).map (.literal c :: ·)

/-- The rest of a class whose characters so far are given last first, and what follows it. -/
def classTokens? (token : List CharRange → Token) (body : List Char) : List Char → Option Pattern
  | [] => none
  | c :: rest =>
    if c = ']' then (tokens? false rest).map (token (classRanges body.reverse) :: ·)
    else classTokens? token (c :: body) rest

end

def Pattern.parse? (text : List Char) : Option Pattern := tokens? true text

/-- The pattern that only `text` matches. -/
def escape (text : List Char) : List Char :=
  text.flatMap fun c => if c ∈ ['?', '*', '[', ']'] then ['[', c, ']'] else [c]

def CharRange.contains (r : CharRange) (c : Char) : Bool := r.low ≤ c && c ≤ r.high

/-- Whether a token that stands for one character stands for this one. -/
def Token.accepts (c : Char) : Token → Bool
  | .literal d => c == d
  | .anyChar => true
  | .oneOf ranges => ranges.any (·.contains c)
  | .noneOf ranges => !ranges.any (·.contains c)
  | .anyText => false
  | .anyPath => false

/-- Whether some end of the text, or the whole of it, passes. -/
def anySuffix (test : List Char → Bool) : List Char → Bool
  | [] => test []
  | c :: rest => test (c :: rest) || anySuffix test rest

/-- Whether the pattern matches the name as a whole. -/
def Pattern.matches : Pattern → List Char → Bool
  | [], name => name.isEmpty
  | .anyText :: rest, name => anySuffix (Pattern.matches rest) name
  | .anyPath :: rest, name => anySuffix (Pattern.matches rest) name
  | _ :: _, [] => false
  | token :: rest, c :: name => token.accepts c && Pattern.matches rest name

/-- The one name a pattern stands for, if it has literal characters only. -/
def Pattern.literal? : Pattern → Option (List Char)
  | [] => some []
  | .literal c :: rest => (Pattern.literal? rest).map (c :: ·)
  | _ :: _ => none

/-- Whether the pattern stands for any number of directories. -/
def Pattern.isRecursive (p : Pattern) : Bool := p == [.anyPath]

end HeaderReflect.Glob
