import HeaderReflect.Text.Blank

/-!
The surface of a template: text between tags. A tag is an output, a block or a comment; it opens
with a brace and a second character and closes with the counterpart. A block or comment that is
alone in front of its line takes the blanks before it along, and takes the end of its line along
if it stands there, so that lines of blocks leave nothing behind.

The source is read character by character in one pass.
-/

namespace HeaderReflect.Template

/-- Why a template is rejected or cannot be rendered. -/
inductive Fault where
  | malformed
  | badEscape
  | undefinedValue
  | notIterable
deriving DecidableEq, Repr

inductive Word where
  | name (text : String)
  | literal (text : String)
  | number (value : Nat)
  | dot
deriving DecidableEq, Repr

inductive Piece where
  | text (text : String)
  | output (words : List Word)
  | block (words : List Word)
deriving DecidableEq, Repr

def isLineEnd (c : Char) : Bool := c == '\n' || c == '\r'

def isNameStart (c : Char) : Bool :=
  ('a' ≤ c && c ≤ 'z') || ('A' ≤ c && c ≤ 'Z') || c == '_'

def isDigit (c : Char) : Bool := '0' ≤ c && c ≤ '9'

def isNameChar (c : Char) : Bool := isNameStart c || isDigit c

/-- What a block has just left behind: whether an end of line may still be dropped. -/
inductive Trim where
  | nothing
  | lineEnd
  | newline
deriving DecidableEq, Repr

/-- The state at the reading position inside a tag: between words, in an unfinished word, whose
characters stand last first, or in the closing of the tag. -/
inductive Partial where
  | between
  | name (read : List Char)
  | number (value : Nat)
  | literal (quote : Char) (read : List Char)
  | escaped (quote : Char) (read : List Char)
  | closing
deriving Repr

/-- The words read so far, last first, with the unfinished one completed. -/
def Partial.close (words : List Word) : Partial → List Word
  | .name read => .name (String.ofList read.reverse) :: words
  | .number value => .number value :: words
  | _ => words

/-- The character that an escape in a literal stands for. -/
def unescape? : Char → Option Char
  | 'n' => some '\n'
  | 'r' => some '\r'
  | 't' => some '\t'
  | 'b' => some '\x08'
  | 'f' => some '\x0c'
  | '\\' => some '\\'
  | '/' => some '/'
  | '\'' => some '\''
  | '"' => some '"'
  | _ => none

/-- The first character of a tag's closing. -/
def closingMark (isOutput : Bool) : Char := if isOutput then '\x7d' else '%'

/-- Goes on with a character that belongs to no unfinished word. -/
def startWord (isOutput : Bool) (words : List Word) (c : Char) :
    Except Fault (List Word × Partial) :=
  if c = closingMark isOutput then .ok (words, .closing)
  else if isNameStart c then .ok (words, .name [c])
  else if isDigit c then .ok (words, .number (c.toNat - '0'.toNat))
  else if c = '\'' ∨ c = '"' then .ok (words, .literal c [])
  else if c = '.' then .ok (.dot :: words, .between)
  else if Text.isBlank c then .ok (words, .between)
  else .error .malformed

/-- One character inside a tag, before the last one of its closing. -/
def stepTag (isOutput : Bool) (words : List Word) (current : Partial) (c : Char) :
    Except Fault (List Word × Partial) :=
  match current with
  | .literal quote read =>
    if c = quote then .ok (.literal (String.ofList read.reverse) :: words, .between)
    else if c = '\\' then .ok (words, .escaped quote read)
    else .ok (words, .literal quote (c :: read))
  | .escaped quote read =>
    match unescape? c with
    | some d => .ok (words, .literal quote (d :: read))
    | none => .error .badEscape
  | .name read =>
    if isNameChar c then .ok (words, .name (c :: read))
    else startWord isOutput (current.close words) c
  | .number value =>
    if isDigit c then .ok (words, .number (10 * value + (c.toNat - '0'.toNat)))
    else startWord isOutput (current.close words) c
  | .between => startWord isOutput words c
  | .closing => .error .malformed

/-- A text read last first, without the blanks since the start of its line if `startsLine`. -/
def flush (startsLine : Bool) (read : List Char) : List Piece :=
  let kept :=
    if startsLine then read.dropWhile fun c => Text.isBlank c && !isLineEnd c else read
  if kept.isEmpty then [] else [.text (String.ofList kept.reverse)]

mutual

/-- Reads text up to the next tag. `startsLine` tells whether only blanks stand between the start
of the line and the reading position. -/
def readText (trim : Trim) (startsLine : Bool) (read : List Char) :
    List Char → Except Fault (List Piece)
  | [] => .ok (flush false read)
  | '\x7b' :: '\x7b' :: rest => do
    return flush false read ++ (← readTag true [] .between rest)
  | '\x7b' :: '%' :: rest => do
    return flush startsLine read ++ (← readTag false [] .between rest)
  | '\x7b' :: '#' :: rest => do
    return flush startsLine read ++ (← readComment rest)
  | c :: rest =>
    match trim, c with
    | .lineEnd, '\r' => readText .newline true read rest
    | .lineEnd, '\n' => readText .nothing true read rest
    | .newline, '\n' => readText .nothing true read rest
    | _, _ =>
      readText .nothing (isLineEnd c || (startsLine && Text.isBlank c)) (c :: read) rest

def readComment : List Char → Except Fault (List Piece)
  | [] => .error .malformed
  | '#' :: '\x7d' :: rest => readText .lineEnd false [] rest
  | _ :: rest => readComment rest

/-- Reads the words of a tag, last first, up to its closing. -/
def readTag (isOutput : Bool) (words : List Word) (current : Partial) :
    List Char → Except Fault (List Piece)
  | [] => .error .malformed
  | c :: rest =>
    match current, c with
    | .closing, '\x7d' => do
      if isOutput then return .output words.reverse :: (← readText .nothing false [] rest)
      else return .block words.reverse :: (← readText .lineEnd false [] rest)
    | current, c => do
      let (words, current) ← stepTag isOutput words current c
      readTag isOutput words current rest

end

/-- The pieces of a template source. -/
def pieces (source : String) : Except Fault (List Piece) :=
  readText .nothing true [] source.toList

end HeaderReflect.Template
