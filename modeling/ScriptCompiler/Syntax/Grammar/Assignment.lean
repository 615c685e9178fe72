import ScriptCompiler.Syntax.Grammar.Expression

/-!
# Reading expression statements

An expression, several separated by commas, or an assignment. The right side of an assignment may be
an assignment again.
-/

namespace ScriptCompiler.Grammar

open ScriptCompiler.Parser

def lineEnd : Follow := { newline := true }

def statementEnds : Parser Bool := do
  match ← ahead lineEnd false with
  | .stop => return true
  | .operator op => return op == ";"
  | .word _ => return false

/-- Go to what may follow a keyword on its line, if anything does. -/
def lineGoesOn : Parser Bool := do
  match ← gap { newline := true, quote := true } with
  | .token => return true
  | .newline => return false
  | _ => failure

/-- Expressions that may be left out, as one expression. -/
def optionalExpressions (R : Rules) (f : Follow) : Parser (Option Expr) := do
  if ← lineGoesOn then
    if Token.startsOperand f.words (← rest) then
      let (items, comma) ← expressions R f
      return some (collect items comma)
    else return none
  else return none

/-- Items that a rule reads, separated by commas, none after the last. -/
def separated {α : Type} (f : Follow) (item : Parser α) : Parser (List α) := do
  let first ← item
  let step (done : List α) : Parser (Option (List α)) := do
    if ← aheadIs f "," then
      skip ","
      toOperand false
      return some ((← item) :: done)
    else return none
  let done ← iterate step [first]
  return done.reverse

/-! ## Assignments -/

/-- What an expression statement or the right side of an assignment can be. -/
inductive Reading where
  | values (items : List Expr) (comma : Bool)
  | assignment (target : Target) (right : Assigned)
  | augmented (target : Target) (op : BinaryOp) (value : Expr)

namespace Reading

def assigned : Reading → Assigned
  | .values items comma => .value (collect items comma)
  | .assignment _ _ => .chained
  | .augmented target _ _ => .value (.foreign target.start .augmentedAssignment)

def value : Reading → Expr
  | .values items comma => collect items comma
  | .assignment target _ => .foreign target.start .assignment
  | .augmented target _ _ => .foreign target.start .augmentedAssignment

end Reading

/-- Expressions, or an assignment; `fuel` bounds the length of a chain. -/
def reading (R : Rules) : Nat → Parser Reading
  | 0 => failure
  | fuel + 1 => do
    if Token.word? (← rest) == some "yield" then
      return .values [← yieldExpression R lineEnd] false
    let (items, comma) ← expressions R lineEnd
    let right : Parser Reading := do
      toOperand false
      reading R fuel
    let toTarget : Parser Target :=
      match listTarget? items comma with
      | some t => pure t
      | none => failure
    match ← ahead lineEnd false with
    | .operator "=" =>
      let target ← toTarget
      skip "="
      return .assignment target (← right).assigned
    | .operator ":" =>
      let target ← toTarget
      skip ":"
      toOperand false
      R.typeHint true lineEnd
      if ← aheadIs lineEnd "=" then
        skip "="
        return .assignment target (← right).assigned
      else return .assignment target .nothing
    | .operator text =>
      match BinaryOp.ofAugmented? text with
      | some op =>
        let target ← toTarget
        skip text
        return .augmented target op (← right).value
      | none => return .values items comma
    | _ => return .values items comma

def expressionStatement (R : Rules) : Parser Stmt := do
  let pos ← position
  match ← reading R ((← rest).length + 1) with
  | .values items _ => return .evaluate pos items
  | .assignment target right => return .assign target right
  | .augmented target op value => return .augment target op value

end ScriptCompiler.Grammar
