import HeaderReflect.Template.Builtin
import HeaderReflect.Template.Statement
import Mathlib.Tactic.SplitIfs

/-!
What a template writes, told from its lines. A line of text and slots writes itself with the slots
filled in, and lines of blocks leave nothing behind but what they govern. Each rule says so of a
part of a source wherever that part stands (`Writes`), so that the rules can be put together as the
lines are, and `Writes.parse` gives what the whole template writes.
-/

namespace HeaderReflect.Template

open TemplateName (lines slot tag)

theorem lines_cons (l : String) (ls : List String) : lines (l :: ls) = l ++ "\n" ++ lines ls := by
  simp [lines]

theorem lines_append (ls ms : List String) : lines (ls ++ ms) = lines ls ++ lines ms := by
  simp [lines]

theorem toList_lines_cons (l : String) (ls : List String) :
    (lines (l :: ls)).toList = l.toList ++ '\n' :: (lines ls).toList := by
  simp [lines_cons]

/-! ## Outputs -/

/-- What is written in a scope. -/
def Output := Scope → Except Fault String

namespace Output

def text (s : String) : Output := fun _ => .ok s

def value (e : Expr) : Output := fun scope => do return (← e.eval scope).print

def append (f g : Output) : Output := fun scope => do return (← f scope) ++ (← g scope)

instance : Append Output := ⟨append⟩

/-- `body` for each element of the range, which goes by the name `var`. -/
def each (var : String) (range : Expr) (body : Output) : Output := fun scope => do
  match (← range.eval scope).elements? with
  | none => .error .notIterable
  | some items => eachInOrder (fun v => body ((var, v) :: scope)) items

def choose (cond : Expr) (yes no : Output) : Output := fun scope => do
  if (← cond.eval scope).isTrue then yes scope else no scope

def ofStmt (s : Stmt) : Output := fun scope => s.eval scope

/-- What statements write one after another. -/
def ofAll (stmts : List Stmt) : Output := fun scope => evalAll scope stmts

theorem append_apply (f g : Output) (scope : Scope) :
    (f ++ g) scope = do return (← f scope) ++ (← g scope) := rfl

theorem append_ok {f g : Output} {scope : Scope} {s t : String} (hf : f scope = .ok s)
    (hg : g scope = .ok t) : (f ++ g) scope = .ok (s ++ t) := by
  rw [append_apply, hf, hg]
  rfl

theorem append_assoc (f g h : Output) : f ++ g ++ h = f ++ (g ++ h) := by
  funext scope
  simp only [append_apply]
  cases f scope with
  | error e => rfl
  | ok s =>
    cases g scope with
    | error e => rfl
    | ok t =>
      cases h scope with
      | error e => rfl
      | ok u => exact congrArg Except.ok (String.append_assoc ..)

theorem empty_append (f : Output) : text "" ++ f = f := by
  funext scope
  rw [append_apply]
  cases f scope with
  | error e => rfl
  | ok s => exact congrArg Except.ok (String.empty_append ..)

theorem append_empty (f : Output) : f ++ text "" = f := by
  funext scope
  rw [append_apply]
  cases f scope with
  | error e => rfl
  | ok s => exact congrArg Except.ok (String.append_empty ..)

theorem text_append (s t : String) : text s ++ text t = text (s ++ t) := rfl

theorem ofAll_nil : ofAll [] = text "" := by
  funext scope
  simp only [ofAll, evalAll, text]

theorem ofAll_cons (s : Stmt) (rest : List Stmt) :
    ofAll (s :: rest) = ofStmt s ++ ofAll rest := by
  funext scope
  simp only [ofAll, evalAll, append_apply, ofStmt]

theorem ofAll_append (front rest : List Stmt) :
    ofAll (front ++ rest) = ofAll front ++ ofAll rest := by
  induction front with
  | nil => rw [List.nil_append, ofAll_nil, empty_append]
  | cons s front ih => rw [List.cons_append, ofAll_cons, ih, ofAll_cons, append_assoc]

theorem ofAll_singleton {s : Stmt} {f : Output} (h : ∀ scope, s.eval scope = f scope) :
    ofAll [s] = f := by
  rw [ofAll_cons, ofAll_nil, append_empty]
  funext scope
  exact h scope

theorem ofAll_text (s : String) : ofAll [.text s] = text s :=
  ofAll_singleton fun scope => by simp only [Stmt.eval, text]

theorem ofAll_print (e : Expr) : ofAll [.print e] = value e :=
  ofAll_singleton fun scope => by simp only [Stmt.eval, value]

/-- Without an alternative a loop over nothing writes what any loop does. -/
theorem ofAll_loop (var : String) (range : Expr) (body : List Stmt) :
    ofAll [.loop var range body []] = each var range (ofAll body) := by
  refine ofAll_singleton fun scope => ?_
  simp only [Stmt.eval, each]
  cases range.eval scope with
  | error e => rfl
  | ok v =>
    simp only [bind, Except.bind]
    split
    · rename_i h
      simp only [h]
    · rename_i h
      simp only [h, eachInOrder, evalAll]
    · rename_i items _ h
      simp only [h]
      rfl

theorem ofAll_branch (cond : Expr) (yes no : List Stmt) :
    ofAll [.branch cond yes no] = choose cond (ofAll yes) (ofAll no) :=
  ofAll_singleton fun scope => by simp only [Stmt.eval, choose, ofAll]

theorem line_ok {f g : Output} {scope : Scope} {s : String} {ls : List String}
    (hf : f scope = .ok s) (hg : g scope = .ok (lines ls)) :
    (f ++ text "\n" ++ g) scope = .ok (lines (s :: ls)) := by
  rw [lines_cons]
  exact append_ok (append_ok hf rfl) hg

/-- A loop over a list writes the lines of each element in order. -/
theorem each_ok {α : Type} {var : String} {range : Expr} {body rest : Output} {scope : Scope}
    {xs : List α} {toValue : α → Value} {out : α → List String} {ls : List String}
    (hrange : range.eval scope = .ok (.list (xs.map toValue)))
    (hbody : ∀ x, body ((var, toValue x) :: scope) = .ok (lines (out x)))
    (hrest : rest scope = .ok (lines ls)) :
    (each var range body ++ rest) scope = .ok (lines (xs.flatMap out ++ ls)) := by
  have heach (xs : List α) : eachInOrder (fun v => body ((var, v) :: scope)) (xs.map toValue) =
      .ok (lines (xs.flatMap out)) := by
    induction xs with
    | nil => rfl
    | cons x xs ih =>
      rw [List.map_cons, eachInOrder, hbody, ih, List.flatMap_cons, lines_append]
      rfl
  rw [lines_append]
  refine append_ok ?_ hrest
  simp only [each, hrange]
  exact heach xs

/-- A loop with one line writes one line for each element. -/
theorem each_line_ok {α : Type} {var : String} {range : Expr} {body rest : Output} {scope : Scope}
    {xs : List α} {toValue : α → Value} {out : α → String} {ls : List String}
    (hrange : range.eval scope = .ok (.list (xs.map toValue)))
    (hbody : ∀ x, body ((var, toValue x) :: scope) = .ok (lines [out x]))
    (hrest : rest scope = .ok (lines ls)) :
    (each var range body ++ rest) scope = .ok (lines (xs.map out ++ ls)) := by
  rw [List.map_eq_flatMap]
  exact each_ok hrange hbody hrest

theorem choose_ok {cond : Expr} {yes no : Output} {scope : Scope} {v : Value} {s : String}
    (hcond : cond.eval scope = .ok v) (hpart : (if v.isTrue then yes else no) scope = .ok s) :
    choose cond yes no scope = .ok s := by
  rw [← hpart]
  simp only [choose, hcond, bind, Except.bind]
  split <;> rfl

end Output

/-! ## Reading text -/

/-- Whether a tag opens with the first two characters. -/
def opensTag : List Char → Bool
  | '\x7b' :: c :: _ => c == '\x7b' || c == '%' || c == '#'
  | _ => false

/-- Whether no tag opens among the characters, whatever stands behind them. -/
def opensNoTag : List Char → Bool
  | [] => true
  | c :: rest => (c != '\x7b' || (!rest.isEmpty && !opensTag (c :: rest))) && opensNoTag rest

theorem readText_of_not_opensTag {c : Char} {rest : List Char} (h : opensTag (c :: rest) = false)
    (startsLine : Bool) (read : List Char) :
    readText .nothing startsLine read (c :: rest) =
      readText .nothing (isLineEnd c || (startsLine && Text.isBlank c)) (c :: read) rest := by
  rw [readText]
  · rintro rest rfl rfl
    simp [opensTag] at h
  · rintro rest rfl rfl
    simp [opensTag] at h
  · rintro rest rfl rfl
    simp [opensTag] at h
  all_goals nofun

/-- Where the reading of text has come to: whether only blanks stand since the start of the line,
and the text since the last tag, last first. -/
structure Stage where
  startsLine : Bool
  read : List Char

namespace Stage

/-- The pieces of the characters that are still to be read. -/
def lex (a : Stage) (cs : List Char) : Except Fault (List Piece) :=
  readText .nothing a.startsLine a.read cs

/-- The text that is not yet part of a piece. -/
def pending (a : Stage) : String := String.ofList a.read.reverse

/-- The stage after a text. -/
def after (a : Stage) (cs : List Char) : Stage where
  startsLine := cs.foldl (fun starts c => isLineEnd c || (starts && Text.isBlank c)) a.startsLine
  read := cs.reverse ++ a.read

/-- The stage at the beginning, and behind a line that is a block. -/
def fresh : Stage := ⟨true, []⟩

/-- A line starts here. -/
structure AtLine (a : Stage) : Prop where
  startsLine : a.startsLine = true
  read : a.read = [] ∨ a.read.head? = some '\n'

theorem atLine_fresh : fresh.AtLine := ⟨rfl, .inl rfl⟩

theorem pending_fresh : fresh.pending = "" := rfl

theorem pending_after (a : Stage) (cs : List Char) :
    (a.after cs).pending = a.pending ++ String.ofList cs := by
  simp [pending, after, String.ofList_append]

theorem atLine_after (a : Stage) (cs : List Char) : (a.after (cs ++ ['\n'])).AtLine := by
  constructor
  · simp [after, isLineEnd]
  · simp [after]

theorem lex_text {cs : List Char} (h : opensNoTag cs = true) (a : Stage) (rest : List Char) :
    a.lex (cs ++ rest) = (a.after cs).lex rest := by
  induction cs generalizing a with
  | nil => rfl
  | cons c cs ih =>
    rw [opensNoTag, Bool.and_eq_true] at h
    have hopens : opensTag (c :: (cs ++ rest)) = false := by
      by_cases hc : c = '\x7b'
      · -- A brace is never the last of the characters, so it is they that decide.
        cases cs with
        | nil => simp [hc] at h
        | cons d cs => simpa [hc, opensTag] using h.1
      · rw [opensTag]
        rintro d tail heq
        exact absurd (List.cons.inj heq).1 hc
    rw [List.cons_append, lex, readText_of_not_opensTag hopens]
    have hrest := ih h.2 ⟨isLineEnd c || (a.startsLine && Text.isBlank c), c :: a.read⟩
    simp only [lex] at hrest
    rw [hrest]
    simp [lex, after]

end Stage

/-! ## Reading tags -/

/-- What is read inside a tag: the words, last first, and the unfinished one. -/
def stepAll (isOutput : Bool) (state : List Word × Partial) (cs : List Char) :
    Except Fault (List Word × Partial) :=
  cs.foldlM (fun s c => stepTag isOutput s.1 s.2 c) state

/-- The words of a tag with a blank on either side. -/
def tagWords (isOutput : Bool) (cs : List Char) : Except Fault (List Word) := do
  match ← stepAll isOutput ([], .between) (' ' :: cs ++ [' ']) with
  | (words, .between) => .ok words.reverse
  | _ => .error .malformed

theorem readTag_append {isOutput : Bool} {words later : List Word} {current next : Partial}
    {cs : List Char} (h : stepAll isOutput (words, current) cs = .ok (later, next))
    (rest : List Char) :
    readTag isOutput words current (cs ++ rest) = readTag isOutput later next rest := by
  induction cs generalizing words current with
  | nil =>
    cases h
    rfl
  | cons c cs ih =>
    rw [stepAll, List.foldlM_cons] at h
    cases hstep : stepTag isOutput words current c with
    | error e =>
      rw [hstep] at h
      cases h
    | ok state =>
      rw [hstep] at h
      obtain ⟨words', current'⟩ := state
      have hopen : current ≠ .closing := by
        rintro rfl
        cases hstep
      rw [List.cons_append, readTag]
      · rw [hstep]
        exact ih h
      · exact fun hclosing _ => hopen hclosing

theorem readTag_close (isOutput : Bool) (words : List Word) (rest : List Char) :
    readTag isOutput words .between (closingMark isOutput :: '\x7d' :: rest) =
      if isOutput then do return .output words.reverse :: (← readText .nothing false [] rest)
      else do return .block words.reverse :: (← readText .lineEnd false [] rest) := by
  rw [readTag]
  · have hstep : stepTag isOutput words .between (closingMark isOutput) = .ok (words, .closing) :=
      if_pos rfl
    rw [hstep]
    simp only [bind, Except.bind, readTag]
  · nofun

/-- A tag is read to its words. -/
theorem readTag_of_tagWords {isOutput : Bool} {cs : List Char} {words : List Word}
    (h : tagWords isOutput cs = .ok words) (rest : List Char) :
    readTag isOutput [] .between (' ' :: cs ++ ' ' :: closingMark isOutput :: '\x7d' :: rest) =
      if isOutput then do return .output words :: (← readText .nothing false [] rest)
      else do return .block words :: (← readText .lineEnd false [] rest) := by
  unfold tagWords at h
  cases hsteps : stepAll isOutput ([], .between) (' ' :: cs ++ [' ']) with
  | error e =>
    rw [hsteps] at h
    cases h
  | ok state =>
    rw [hsteps] at h
    obtain ⟨read, current⟩ := state
    cases current with
    | between =>
      obtain rfl : read.reverse = words := Except.ok.inj h
      have hread := readTag_append hsteps (closingMark isOutput :: '\x7d' :: rest)
      rw [List.append_assoc, List.singleton_append] at hread
      rw [hread, readTag_close]
    | _ => cases h

/-! ## Pieces and statements -/

/-- The pieces, wherever they stand, become the statements. -/
def Builds (ps : List Piece) (stmts : List Stmt) : Prop :=
  ∀ blocks current rest,
    readPieces blocks current (ps ++ rest) = readPieces blocks (stmts.reverse ++ current) rest

/-- The words of a block open a loop or a branch. -/
def Opens (words : List Word) (opening : Opening) : Prop :=
  ∀ blocks current, readBlock blocks current words = .ok (⟨opening, none, current⟩ :: blocks, [])

namespace Builds

theorem nil : Builds [] [] := fun _ _ _ => rfl

theorem append {ps qs : List Piece} {ss ts : List Stmt} (hp : Builds ps ss) (hq : Builds qs ts) :
    Builds (ps ++ qs) (ss ++ ts) := by
  intro blocks current rest
  rw [List.append_assoc, hp, hq, List.reverse_append, List.append_assoc]

theorem output {words : List Word} {e : Expr} (h : readExpr words = .ok e) :
    Builds [.output words] [.print e] := by
  intro blocks current rest
  rw [List.singleton_append, readPieces, h]
  rfl

theorem loop {words : List Word} {var : String} {range : Expr} {ps : List Piece} {body : List Stmt}
    (hopens : Opens words (.loop var range)) (hbody : Builds ps body) :
    Builds (.block words :: ps ++ [.block [.name "endfor"]]) [.loop var range body []] := by
  intro blocks current rest
  simp only [List.cons_append, List.append_assoc]
  rw [readPieces, hopens]
  simp only [bind, Except.bind]
  rw [hbody, List.nil_append, readPieces]
  simp [readBlock, OpenBlock.close, bind, Except.bind]

theorem branch {words : List Word} {cond : Expr} {ps qs : List Piece} {yes no : List Stmt}
    (hopens : Opens words (.branch cond)) (hyes : Builds ps yes) (hno : Builds qs no) :
    Builds (.block words :: ps ++ .block [.name "else"] :: qs ++ [.block [.name "endif"]])
      [.branch cond yes no] := by
  intro blocks current rest
  simp only [List.cons_append, List.append_assoc]
  rw [readPieces, hopens]
  simp only [bind, Except.bind]
  rw [hyes, readPieces]
  simp only [readBlock, bind, Except.bind]
  rw [hno, List.nil_append, readPieces]
  simp [readBlock, closeBranch, OpenBlock.close, bind, Except.bind]

end Builds

/-! ## Stages -/

namespace Stage

/-- The statements of the text that is not yet part of a piece. -/
def flushed (a : Stage) : List Stmt :=
  if a.read.isEmpty then [] else [.text a.pending]

theorem builds_flush (a : Stage) : Builds (flush false a.read) a.flushed := by
  unfold flush flushed
  by_cases h : a.read.isEmpty
  · simp only [h, if_true, if_neg Bool.false_ne_true]
    exact .nil
  · simp only [h, if_neg Bool.false_ne_true]
    exact fun _ _ _ => rfl

theorem ofAll_flushed (a : Stage) : Output.ofAll a.flushed = .text a.pending := by
  unfold flushed
  by_cases h : a.read.isEmpty
  · have hempty : a.pending = "" := by rw [pending, List.isEmpty_iff.mp h]; rfl
    rw [if_pos h, Output.ofAll_nil, hempty]
  · rw [if_neg h, Output.ofAll_text]

/-- At the start of a line there are no blanks for a block to take along. -/
theorem AtLine.flush_eq {a : Stage} (h : a.AtLine) : flush true a.read = flush false a.read := by
  have hkept : (a.read.dropWhile fun c => Text.isBlank c && !isLineEnd c) = a.read := by
    rcases h.read with hread | hread
    · rw [hread]
      rfl
    · obtain ⟨rest, hrest⟩ := List.head?_eq_some_iff.mp hread
      rw [hrest]
      exact List.dropWhile_cons_of_neg (by decide)
  simp only [flush, hkept, if_true, if_neg Bool.false_ne_true]

theorem lex_slot {s : String} {cs : List Char} {words : List Word} (hs : s = String.ofList cs)
    (h : tagWords true cs = .ok words) (a : Stage) (rest : List Char) :
    a.lex ((slot s).toList ++ rest) =
      (flush false a.read ++ [.output words] ++ ·) <$> lex ⟨false, []⟩ rest := by
  subst hs
  have hchars : (slot (String.ofList cs)).toList ++ rest =
      '\x7b' :: '\x7b' :: (' ' :: cs ++ ' ' :: closingMark true :: '\x7d' :: rest) := by
    simp [slot, closingMark]
  rw [hchars, lex, readText, readTag_of_tagWords h, if_pos rfl, lex]
  cases readText .nothing false [] rest <;>
    simp [bind, Except.bind, pure, Except.pure, Functor.map, Except.map]

/-- A block that is a line of its own leaves nothing of the line. -/
theorem AtLine.lex_tag {a : Stage} (ha : a.AtLine) {s : String} {cs : List Char}
    {words : List Word} (hs : s = String.ofList cs) (h : tagWords false cs = .ok words)
    (rest : List Char) :
    a.lex ((tag s).toList ++ '\n' :: rest) =
      (flush false a.read ++ [.block words] ++ ·) <$> fresh.lex rest := by
  subst hs
  have hchars : (tag (String.ofList cs)).toList ++ '\n' :: rest =
      '\x7b' :: '%' :: (' ' :: cs ++ ' ' :: closingMark false :: '\x7d' :: '\n' :: rest) := by
    simp [tag, closingMark]
  have hline : readText .lineEnd false [] ('\n' :: rest) = fresh.lex rest := by
    rw [readText]
    rfl
  rw [hchars, lex, readText, readTag_of_tagWords h, if_neg Bool.false_ne_true, hline,
    ha.startsLine, ha.flush_eq]
  cases fresh.lex rest <;>
    simp [bind, Except.bind, pure, Except.pure, Functor.map, Except.map]

end Stage

/-- The characters, read from one stage to another, become statements that write the output between
the texts that are pending. -/
def Passes (cs : List Char) (a b : Stage) (f : Output) : Prop :=
  ∃ ps stmts, (∀ rest, a.lex (cs ++ rest) = (ps ++ ·) <$> b.lex rest) ∧ Builds ps stmts ∧
    Output.ofAll stmts ++ .text b.pending = .text a.pending ++ f

namespace Passes

theorem nil (a : Stage) : Passes [] a a (.text "") := by
  refine ⟨[], [], fun rest => ?_, .nil, ?_⟩
  · exact (id_map _).symm
  · rw [Output.ofAll_nil, Output.empty_append, Output.append_empty]

theorem trans {cs ds : List Char} {a b c : Stage} {f g : Output} (hf : Passes cs a b f)
    (hg : Passes ds b c g) : Passes (cs ++ ds) a c (f ++ g) := by
  obtain ⟨ps, ss, hcs, hps, hss⟩ := hf
  obtain ⟨qs, ts, hds, hqs, hts⟩ := hg
  refine ⟨ps ++ qs, ss ++ ts, fun rest => ?_, hps.append hqs, ?_⟩
  · rw [List.append_assoc, hcs, hds, Functor.map_map]
    simp only [List.append_assoc]
  · rw [Output.ofAll_append, Output.append_assoc, hts, ← Output.append_assoc, hss,
      Output.append_assoc]

theorem text {cs : List Char} (h : opensNoTag cs = true) (a : Stage) :
    Passes cs a (a.after cs) (.text (String.ofList cs)) := by
  refine ⟨[], [], fun rest => ?_, .nil, ?_⟩
  · rw [a.lex_text h]
    exact (id_map _).symm
  · rw [Output.ofAll_nil, Output.empty_append, a.pending_after, Output.text_append]

end Passes

/-! ## Lines -/

/-- A part of a line, wherever it stands in one, writes the output. -/
def Prints (s : String) (f : Output) : Prop :=
  ∀ a, ∃ b, Passes s.toList a b f

/-- Lines, wherever they stand in a template, write the output. -/
def Writes (ls : List String) (f : Output) : Prop :=
  ∀ a : Stage, a.AtLine → ∃ b : Stage, b.AtLine ∧ Passes (lines ls).toList a b f

namespace Prints

/-- Text in which no tag opens stands for itself. -/
theorem text {s : String} {cs : List Char} (hs : s = String.ofList cs)
    (h : opensNoTag cs = true) : Prints s (.text s) := by
  subst hs
  intro a
  refine ⟨a.after cs, ?_⟩
  rw [String.toList_ofList]
  exact .text h a

/-- A slot stands for the value of its expression. -/
theorem slot {s : String} {cs : List Char} {words : List Word} (e : Expr)
    (hs : s = String.ofList cs) (hwords : tagWords true cs = .ok words)
    (he : readExpr words = .ok e) : Prints (slot s) (.value e) := by
  intro a
  refine ⟨⟨false, []⟩, flush false a.read ++ [.output words], a.flushed ++ [.print e],
    a.lex_slot hs hwords, a.builds_flush.append (.output he), ?_⟩
  have hpending : Stage.pending ⟨false, []⟩ = "" := rfl
  rw [hpending, Output.append_empty, Output.ofAll_append, a.ofAll_flushed, Output.ofAll_print]

theorem append {s t : String} {f g : Output} (hs : Prints s f) (ht : Prints t g) :
    Prints (s ++ t) (f ++ g) := by
  intro a
  obtain ⟨b, hb⟩ := hs a
  obtain ⟨c, hc⟩ := ht b
  refine ⟨c, ?_⟩
  rw [String.toList_append]
  exact hb.trans hc

end Prints

/-- A part at the end of a line writes the output and the end. -/
def Ends (s : String) (f : Output) : Prop :=
  ∀ a, ∃ b : Stage, b.AtLine ∧ Passes (s.toList ++ ['\n']) a b (f ++ .text "\n")

namespace Ends

/-- Text at the end of a line. A brace may be its last character. -/
theorem text {s : String} {cs : List Char} (hs : s = String.ofList cs)
    (h : opensNoTag (cs ++ ['\n']) = true) : Ends s (.text s) := by
  subst hs
  intro a
  refine ⟨_, a.atLine_after cs, ?_⟩
  have hline : Output.text (String.ofList (cs ++ ['\n'])) =
      .text (String.ofList cs) ++ .text "\n" := by
    rw [String.ofList_append]
    rfl
  rw [String.toList_ofList, ← hline]
  exact .text h a

theorem append {s t : String} {f g : Output} (hs : Prints s f) (ht : Ends t g) :
    Ends (s ++ t) (f ++ g) := by
  intro a
  obtain ⟨b, hab⟩ := hs a
  obtain ⟨c, hc, hbc⟩ := ht b
  refine ⟨c, hc, ?_⟩
  rw [String.toList_append, List.append_assoc, Output.append_assoc]
  exact hab.trans hbc

/-- A line with one slot. -/
theorem one_slot {front back s : String} {f g h : Output} (hfront : Prints front f)
    (hs : Prints s g) (hback : Ends back h) : Ends (front ++ s ++ back) (f ++ g ++ h) :=
  .append (.append hfront hs) hback

/-- A line with two slots. -/
theorem two_slots {front mid back s t : String} {f g h g' k : Output} (hfront : Prints front f)
    (hs : Prints s g) (hmid : Prints mid h) (ht : Prints t g') (hback : Ends back k) :
    Ends (front ++ s ++ mid ++ t ++ back) (f ++ g ++ h ++ g' ++ k) :=
  .append (.append (.append (.append hfront hs) hmid) ht) hback

theorem of_prints {s : String} {f : Output} (h : Prints s f) : Ends s f := by
  intro a
  obtain ⟨b, hab⟩ := h a
  exact ⟨_, b.atLine_after [], hab.trans (.text (by decide) b)⟩

end Ends

namespace Writes

theorem nil : Writes [] (.text "") := fun a ha => ⟨a, ha, .nil a⟩

theorem line {l : String} {ls : List String} {f g : Output} (hl : Ends l f) (hls : Writes ls g) :
    Writes (l :: ls) (f ++ .text "\n" ++ g) := by
  intro a ha
  obtain ⟨b, hb, hab⟩ := hl a
  obtain ⟨c, hc, hbc⟩ := hls b hb
  refine ⟨c, hc, ?_⟩
  have hpasses := hab.trans hbc
  rw [List.append_assoc, List.singleton_append] at hpasses
  rwa [toList_lines_cons]

/-- Lines of text stand for themselves. -/
theorem plain {l : String} {ls : List String} (hl : Ends l (.text l))
    (hls : Writes ls (.text (lines ls))) : Writes (l :: ls) (.text (lines (l :: ls))) := by
  rw [lines_cons]
  exact .line hl hls

/-- Lines up to a tag that stands behind them are read to statements and the tag. -/
theorem upTo {body : List String} {g : Output} (h : Writes body g) (s : String)
    (words : List Word) {cs : List Char} (hs : s = String.ofList cs)
    (hwords : tagWords false cs = .ok words) :
    ∃ ps stmts, (∀ rest, Stage.fresh.lex ((lines body).toList ++ ((tag s).toList ++ '\n' :: rest)) =
        (ps ++ .block words :: ·) <$> Stage.fresh.lex rest) ∧
      Builds ps stmts ∧ Output.ofAll stmts = g := by
  obtain ⟨b, hb, ps, stmts, hlex, hbuilds, hwrites⟩ := h .fresh Stage.atLine_fresh
  refine ⟨ps ++ flush false b.read, stmts ++ b.flushed, fun rest => ?_,
    hbuilds.append b.builds_flush, ?_⟩
  · rw [hlex, hb.lex_tag hs hwords, Functor.map_map]
    simp only [List.append_assoc, List.cons_append, List.nil_append]
  · rw [Stage.pending_fresh, Output.empty_append] at hwrites
    rw [Output.ofAll_append, b.ofAll_flushed, hwrites]

/-- The lines of a loop write what its body does for each element. -/
theorem loop (var : String) (range : Expr) (body : List String) {head : String} {cs : List Char}
    {words : List Word} {ls tail : List String} {g h : Output}
    (hls : ls = body ++ tag "endfor" :: tail) (hhead : head = String.ofList cs)
    (hwords : tagWords false cs = .ok words) (hopens : Opens words (.loop var range))
    (hbody : Writes body g) (htail : Writes tail h) :
    Writes (tag head :: ls) (.each var range g ++ h) := by
  intro a ha
  obtain ⟨ps, stmts, hlex, hbuilds, hwrites⟩ := hbody.upTo "endfor" [.name "endfor"] rfl rfl
  obtain ⟨c, hc, hend⟩ := htail .fresh Stage.atLine_fresh
  refine ⟨c, hc, ?_⟩
  have hpasses : Passes ((tag head).toList ++ '\n' :: ((lines body).toList ++
      ((tag "endfor").toList ++ ['\n']))) a .fresh (.each var range g) := by
    refine ⟨_, _, fun rest => ?_, a.builds_flush.append (.loop hopens hbuilds), ?_⟩
    · simp only [List.append_assoc, List.cons_append, List.nil_append]
      rw [ha.lex_tag hhead hwords, hlex, Functor.map_map]
      simp only [List.append_assoc, List.cons_append, List.nil_append]
    · rw [Stage.pending_fresh, Output.append_empty, Output.ofAll_append, a.ofAll_flushed,
        Output.ofAll_loop, hwrites]
  have hall := hpasses.trans hend
  subst hls
  rw [toList_lines_cons, lines_append, String.toList_append, toList_lines_cons]
  simpa only [List.append_assoc, List.cons_append, List.nil_append] using hall

/-- The lines of a branch write what one of its parts does. -/
theorem branch (cond : Expr) (yes no : List String) {head : String} {cs : List Char}
    {words : List Word} {ls tail : List String} {f g h : Output}
    (hls : ls = yes ++ tag "else" :: (no ++ tag "endif" :: tail)) (hhead : head = String.ofList cs)
    (hwords : tagWords false cs = .ok words) (hopens : Opens words (.branch cond))
    (hyes : Writes yes f) (hno : Writes no g) (htail : Writes tail h) :
    Writes (tag head :: ls) (.choose cond f g ++ h) := by
  intro a ha
  obtain ⟨ps, yesStmts, hlexYes, hbuildsYes, hwritesYes⟩ := hyes.upTo "else" [.name "else"] rfl rfl
  obtain ⟨qs, noStmts, hlexNo, hbuildsNo, hwritesNo⟩ := hno.upTo "endif" [.name "endif"] rfl rfl
  obtain ⟨c, hc, hend⟩ := htail .fresh Stage.atLine_fresh
  refine ⟨c, hc, ?_⟩
  have hpasses : Passes ((tag head).toList ++ '\n' :: ((lines yes).toList ++
      ((tag "else").toList ++ '\n' :: ((lines no).toList ++ ((tag "endif").toList ++ ['\n'])))))
      a .fresh (.choose cond f g) := by
    refine ⟨_, _, fun rest => ?_,
      a.builds_flush.append (.branch hopens hbuildsYes hbuildsNo), ?_⟩
    · simp only [List.append_assoc, List.cons_append, List.nil_append]
      rw [ha.lex_tag hhead hwords, hlexYes, hlexNo, Functor.map_map, Functor.map_map]
      simp only [List.append_assoc, List.cons_append, List.nil_append]
    · rw [Stage.pending_fresh, Output.append_empty, Output.ofAll_append, a.ofAll_flushed,
        Output.ofAll_branch, hwritesYes, hwritesNo]
  have hall := hpasses.trans hend
  subst hls
  rw [toList_lines_cons, lines_append, String.toList_append, toList_lines_cons, lines_append,
    String.toList_append, toList_lines_cons]
  simpa only [List.append_assoc, List.cons_append, List.nil_append] using hall

/-- A template of such lines is accepted, and what it writes is known. -/
theorem parse {ls : List String} {f : Output} (h : Writes ls f) :
    ∃ body, Template.parse (lines ls) = .ok body ∧
      ∀ doc, Template.render body doc = f (rootScope doc) := by
  obtain ⟨b, hb, ps, stmts, hlex, hbuilds, hwrites⟩ := h .fresh Stage.atLine_fresh
  have hpieces : pieces (lines ls) = .ok (ps ++ flush false b.read) := by
    have hend := hlex []
    rw [List.append_nil] at hend
    have hlast : b.lex [] = .ok (flush false b.read) := by rw [Stage.lex, readText]
    rw [hlast] at hend
    exact hend
  have hstmts := (hbuilds.append b.builds_flush) [] [] []
  rw [List.append_nil, List.append_nil] at hstmts
  refine ⟨stmts ++ b.flushed, ?_, fun doc => ?_⟩
  · rw [Template.parse, hpieces]
    simp only [bind, Except.bind]
    rw [hstmts]
    simp only [readPieces, List.isEmpty_nil, if_true, List.reverse_reverse]
  · rw [Stage.pending_fresh, Output.empty_append] at hwrites
    have hall : Output.ofAll (stmts ++ b.flushed) = f := by
      rw [Output.ofAll_append, b.ofAll_flushed, hwrites]
    exact congrFun hall (rootScope doc)

end Writes

end HeaderReflect.Template
