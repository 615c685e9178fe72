import ScriptCompiler.Text.Blank
import ScriptCompiler.Text.Position

/-!
# Layout

Between two tokens stand blanks, comments and line breaks. Whether a line break ends a statement,
opens a block or closes one depends on what may follow at that point, so the gap is measured first
and judged by the parser's expectations afterwards. Inside brackets, and wherever a statement cannot
end, a line break is a blank.
-/

namespace ScriptCompiler

structure ParserState where
  rest : List Char
  pos : Position
  /-- Indentation of the open blocks, the innermost first. -/
  indents : List Nat
  /-- Inside a format string that has no string nested in it yet. -/
  inFormat : Bool

/-- A parser reads from a state and fails on text that does not fit. -/
abbrev Parser := StateT ParserState Option

/-- What the grammar admits at a gap besides ordinary tokens. -/
structure Expect where
  newline : Bool := false
  indent : Bool := false
  dedent : Bool := false
  /-- A string may start here. -/
  quote : Bool := false
  /-- A closing bracket may stand here. -/
  close : Bool := false

/-- What a gap turned out to be. Only `token` moves the reading point. -/
inductive Gap where
  | token | newline | indent | dedent
deriving DecidableEq, Repr

/-- The measure of a gap: whether a line ended in it, the indentation of what follows, the
indentation of its first comment line, and the next character. -/
structure Margin where
  ended : Bool := false
  width : Nat := 0
  comment : Option Nat := none
  next : Option Char := none

namespace Margin

/-- Measure the gap at the front of a text. A tab counts eight, a carriage return or a form feed
starts the count anew, and a backslash joins lines. Comment lines are skipped when `skipComments` is
set; a comment on the line of the last token leaves the gap unmeasured. `inComment` is set while a
comment is being skipped. -/
def measure (skipComments : Bool) : Bool → Margin → List Char → Option Margin
  | _, m, [] => some { m with ended := true, width := 0 }
  | true, m, c :: rest =>
    if c = '\n' then measure skipComments false { m with width := 0 } rest
    else measure skipComments true m rest
  | false, m, '\\' :: '\r' :: '\n' :: rest => measure skipComments false m rest
  | false, m, '\\' :: '\n' :: rest => measure skipComments false m rest
  | false, m, ['\\', '\r'] => some { m with ended := true, width := 0 }
  | false, m, ['\\'] => some { m with ended := true, width := 0 }
  | false, m, c :: rest =>
    if c = '\n' then measure skipComments false { m with ended := true, width := 0 } rest
    else if c = ' ' then measure skipComments false { m with width := m.width + 1 } rest
    else if c = '\r' || c = '\x0c' then measure skipComments false { m with width := 0 } rest
    else if c = '\t' then measure skipComments false { m with width := m.width + 8 } rest
    else if c = '\\' then none
    else if c = '#' && skipComments then
      if m.ended then measure skipComments true
        { m with comment := m.comment.orElse (fun _ => some m.width) } rest
      else none
    else some { m with next := some c }

def quoteNext (m : Margin) :
    Bool := m.next == some '\x27' || m.next == some '"' || m.next == some '\x60'

end Margin

namespace Parser

def rest : Parser (List Char) := do return (← get).rest

def position : Parser Position := do return (← get).pos

def advance : Nat → Parser Unit
  | 0 => pure ()
  | count + 1 => do
    let s ← get
    match s.rest with
    | [] => failure
    | c :: more =>
      set { s with rest := more, pos := s.pos.after c }
      advance count

def lineLength (cs : List Char) : Nat := (cs.takeWhile (· ≠ '\n')).length

/-- The size of a line continuation at the front of a text, zero if there is none. -/
def continuationLength : List Char → Nat
  | '\\' :: '\n' :: _ => 2
  | '\\' :: '\r' :: '\n' :: _ => 3
  | ['\\'] => 1
  | _ => 0

/-- Whether a gap that closes the current block does so here: where a block may end, and also where
neither a line break nor a bracket can be, so that the parser fails there. -/
def closesBlock (e : Expect) (m : Margin) (current : Nat) (inFormat : Bool) : Bool :=
  (e.dedent || (!e.newline && !(e.quote && m.quoteNext) && !e.close))
    && m.width < current && !inFormat && m.comment.all (· < current)

/-- Judge the gap at the reading point; `fuel` bounds the number of comments in it. -/
def gapWithin (e : Expect) : Nat → Parser Gap
  | 0 => failure
  | fuel + 1 => do
    let s ← get
    let current := s.indents.headD 0
    let judged : Gap × Nat :=
      match Margin.measure (e.newline || e.indent || e.dedent) false {} s.rest with
      | none => (.token, 0)
      | some m =>
        if !m.ended then (.token, 0)
        else if e.indent && current < m.width then (.indent, m.width)
        else if closesBlock e m current s.inFormat then (.dedent, 0)
        else if e.newline then (.newline, 0)
        else (.token, 0)
    match judged with
    | (.indent, width) =>
      set { s with indents := width :: s.indents }
      return .indent
    | (.dedent, _) =>
      if e.dedent then
        set { s with indents := s.indents.tail }
        return .dedent
      else failure
    | (.newline, _) => return .newline
    | (.token, _) =>
      advance (s.rest.takeWhile isFiller).length
      let next ← rest
      if next.head? == some '#' then
        advance (lineLength next)
        gapWithin e fuel
      else if continuationLength next ≠ 0 then
        advance (continuationLength next)
        gapWithin e fuel
      else return .token

def gap (e : Expect) : Parser Gap := do gapWithin e ((← rest).length + 1)

/-- Go to the next token, which must follow. -/
def toToken (e : Expect) : Parser Unit := do
  match ← gap e with
  | .token => pure ()
  | _ => failure

/-- Repeat a step until it gives nothing; `fuel` bounds the number of steps. -/
def iterateWithin {α : Type} (step : α → Parser (Option α)) : Nat → α → Parser α
  | 0, _ => failure
  | fuel + 1, a => do
    match ← step a with
    | some b => iterateWithin step fuel b
    | none => return a

/-- Repeat a step that reads at least one character, until it gives nothing. -/
def iterate {α : Type} (step : α → Parser (Option α)) (a : α) : Parser α := do
  iterateWithin step ((← rest).length + 1) a

end Parser

end ScriptCompiler
