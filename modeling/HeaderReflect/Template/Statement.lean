import HeaderReflect.Template.Token
import HeaderReflect.Template.Value

/-!
Templates as trees of statements, read from the pieces of a source, and what they write for a
given value. A name stands for the innermost loop variable of that name, or else for an attribute
of the document.
-/

namespace HeaderReflect.Template

inductive Expr where
  | name (text : String)
  | attribute (of : Expr) (name : String)
  | constant (value : Value)
deriving Repr

inductive Stmt where
  | text (text : String)
  | print (expr : Expr)
  | loop (var : String) (range : Expr) (body orElse : List Stmt)
  | branch (cond : Expr) (body orElse : List Stmt)
deriving Repr

/-- An expression followed by attribute names. -/
def readAttributes (e : Expr) : List Word → Except Fault Expr
  | [] => .ok e
  | .dot :: .name n :: rest => readAttributes (.attribute e n) rest
  | _ => .error .malformed

def readExpr : List Word → Except Fault Expr
  | .name n :: rest =>
    match n with
    | "true" | "True" => readAttributes (.constant (.bool true)) rest
    | "false" | "False" => readAttributes (.constant (.bool false)) rest
    | "none" | "None" => readAttributes (.constant .null) rest
    | _ => readAttributes (.name n) rest
  | .literal s :: rest => readAttributes (.constant (.text s)) rest
  | .number v :: rest => readAttributes (.constant (.int v)) rest
  | _ => .error .malformed

/-- What opens a block that is closed later. An `elif` is closed together with its `if`. -/
inductive Opening where
  | loop (var : String) (range : Expr)
  | branch (cond : Expr)
  | chained (cond : Expr)
deriving Repr

/-- A block that is still open: its opening, its statements if the `else` was reached, and the
statements before it. Statements stand last first. -/
structure OpenBlock where
  opening : Opening
  body? : Option (List Stmt)
  before : List Stmt
deriving Repr

/-- The statement of a block, closed with the given statements in its last part. -/
def OpenBlock.close (block : OpenBlock) (last : List Stmt) : Stmt :=
  let body := (block.body?.getD last).reverse
  let orElse := if block.body?.isSome then last.reverse else []
  match block.opening with
  | .loop var range => .loop var range body orElse
  | .branch cond | .chained cond => .branch cond body orElse

/-- Names that a loop variable cannot take. -/
def reservedNames : List String :=
  ["true", "True", "false", "False", "none", "None", "loop", "self"]

/-- Closes a branch, together with the `elif`s it went through. -/
def closeBranch : List OpenBlock → List Stmt → Except Fault (List OpenBlock × List Stmt)
  | [], _ => .error .malformed
  | block :: rest, last =>
    match block.opening with
    | .loop .. => .error .malformed
    | .branch _ => .ok (rest, block.close last :: block.before)
    | .chained _ => closeBranch rest (block.close last :: block.before)

/-- One block tag. The state is the open blocks, innermost first, and the statements since. -/
def readBlock (blocks : List OpenBlock) (current : List Stmt) :
    List Word → Except Fault (List OpenBlock × List Stmt)
  | .name "for" :: .name var :: .name "in" :: expr => do
    if var ∈ reservedNames then .error .malformed
    else return (⟨.loop var (← readExpr expr), none, current⟩ :: blocks, [])
  | .name "if" :: expr => do
    return (⟨.branch (← readExpr expr), none, current⟩ :: blocks, [])
  | .name "elif" :: expr => do
    match blocks with
    | ⟨.branch cond, none, before⟩ :: rest =>
      return (⟨.chained (← readExpr expr), none, []⟩ :: ⟨.branch cond, some current, before⟩
        :: rest, [])
    | ⟨.chained cond, none, before⟩ :: rest =>
      return (⟨.chained (← readExpr expr), none, []⟩ :: ⟨.chained cond, some current, before⟩
        :: rest, [])
    | _ => .error .malformed
  | [.name "else"] =>
    match blocks with
    | ⟨opening, none, before⟩ :: rest => .ok (⟨opening, some current, before⟩ :: rest, [])
    | _ => .error .malformed
  | [.name "endif"] => closeBranch blocks current
  | [.name "endfor"] =>
    match blocks with
    | ⟨.loop var range, body?, before⟩ :: rest =>
      .ok (rest, OpenBlock.close ⟨.loop var range, body?, before⟩ current :: before)
    | _ => .error .malformed
  | _ => .error .malformed

/-- Reads pieces in order; at the end no block may be open. -/
def readPieces (blocks : List OpenBlock) (current : List Stmt) :
    List Piece → Except Fault (List Stmt)
  | [] => if blocks.isEmpty then .ok current.reverse else .error .malformed
  | .text s :: rest => readPieces blocks (.text s :: current) rest
  | .output words :: rest => do
    readPieces blocks (.print (← readExpr words) :: current) rest
  | .block words :: rest => do
    let (blocks, current) ← readBlock blocks current words
    readPieces blocks current rest

/-- The statements of a template source. -/
def parse (source : String) : Except Fault (List Stmt) := do
  readPieces [] [] (← pieces source)

/-- Values by name, innermost first. -/
abbrev Scope := List (String × Value)

/-- The value of an expression; a missing name or attribute is an error. -/
def Expr.eval (scope : Scope) : Expr → Except Fault Value
  | .name n => (scope.lookup n).elim (.error .undefinedValue) .ok
  | .attribute e n => do ((← e.eval scope).attribute? n).elim (.error .undefinedValue) .ok
  | .constant v => .ok v

/-- The texts for the elements, one after another. -/
def eachInOrder (f : Value → Except Fault String) : List Value → Except Fault String
  | [] => .ok ""
  | v :: rest => do return (← f v) ++ (← eachInOrder f rest)

mutual

/-- What a statement writes. -/
def Stmt.eval (scope : Scope) : Stmt → Except Fault String
  | .text s => .ok s
  | .print e => do return (← e.eval scope).print
  | .loop var range body orElse => do
    match (← range.eval scope).elements? with
    | none => .error .notIterable
    | some [] => evalAll scope orElse
    | some items => eachInOrder (fun v => evalAll ((var, v) :: scope) body) items
  | .branch cond body orElse => do
    if (← cond.eval scope).isTrue then evalAll scope body else evalAll scope orElse

def evalAll (scope : Scope) : List Stmt → Except Fault String
  | [] => .ok ""
  | s :: rest => do return (← s.eval scope) ++ (← evalAll scope rest)

end

/-- The document's fields as the outermost scope. -/
def rootScope : Value → Scope
  | .object fields => fields
  | _ => []

/-- What a template writes for a document. -/
def render (template : List Stmt) (doc : Value) : Except Fault String :=
  evalAll (rootScope doc) template

end HeaderReflect.Template
