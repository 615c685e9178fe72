import ScriptCompiler.Syntax.Grammar.Operand
import ScriptCompiler.Syntax.Grammar.Parameter

/-!
# Reading expressions

Comparisons, the operators that bind more loosely, and type hints. The rules are tied together here.
-/

namespace ScriptCompiler.Grammar

open ScriptCompiler.Parser

/-- The comparison operator that comes next, if there is one, with the words of it still to be
read. -/
def comparisonAhead (f : Follow) : Parser (Option CompareOp) := do
  match ← ahead f false with
  | .operator text =>
    match CompareOp.ofText? text with
    | some op =>
      skip text
      return some op
    | none => return none
  | .word "in" =>
    skip "in"
    return some .isIn
  | .word "not" =>
    skip "not"
    expectWord {} "in"
    return some .isNotIn
  | .word "is" =>
    skip "is"
    if (← ahead {} true) == .word "not" then
      skip "not"
      return some .isNotSame
    else return some .isSame
  | _ => return none

def comparison (R : Rules) (f : Follow) : Parser Expr := do
  let first ← operand R 15 f
  let step (left : Expr) : Parser (Option Expr) := do
    match ← comparisonAhead f with
    | some op =>
      toOperand false
      return some (.comparison op left (← R.operand 15 f))
    | none => return none
  iterate step first

/-- A name followed by `:=` and its value, or what else starts with a name. -/
def named (R : Rules) (f : Follow) : Parser Expr := do
  let s ← get
  let (pos, w) ← anyWord
  if !isOperandKeyword w && (← aheadIs f ":=") then
    skip ":="
    toOperand false
    let _ ← R.expression { above := 2 } f
    return .foreign pos .namedExpression
  else
    set s
    comparison R f

/-- An expression up to its loose operators. -/
def tight (R : Rules) (extent : Extent) (f : Follow) : Parser Expr := do
  let cs ← rest
  let pos ← position
  match if Token.startsString cs then none else Token.word? cs with
  | some "not" =>
    skip "not"
    toOperand false
    return .unary pos .not (← R.expression { above := 14 } f)
  | some "lambda" =>
    lambdaExpression R (if extent.shortLambda then extent else {}) f
  | some _ => named R f
  | none => comparison R f

/-- One more loose operator, if there is one that binds more tightly than the extent allows. -/
def looseStep (R : Rules) (extent : Extent) (f : Follow) (left : Expr) : Parser (Option Expr) := do
  match ← ahead f false with
  | .word "or" =>
    if extent.above < 12 then
      skip "or"
      toOperand false
      return some (.boolean .or left (← R.expression { above := 12 } f))
    else return none
  | .word "and" =>
    if extent.above < 13 then
      skip "and"
      toOperand false
      return some (.boolean .and left (← R.expression { above := 13 } f))
    else return none
  | .word "as" =>
    if extent.above < 2 then
      skip "as"
      toOperand false
      let _ ← R.expression { above := 2 } f
      return some (.foreign left.start .asPattern)
    else return none
  | .word "if" =>
    if extent.above < 1 then
      skip "if"
      toOperand false
      let condition ← R.expression {} { words := ["else"] }
      expectWord { words := ["else"] } "else"
      toOperand false
      let alternative ← R.expression {} f
      return some (.conditional left condition alternative)
    else return none
  | _ => return none

def expression (R : Rules) (extent : Extent) (f : Follow) : Parser Expr := do
  let left ← tight R extent f
  iterate (looseStep R extent f) left

/-! ## Type hints -/

/-- A type. Besides expressions there are starred names, and names with types in brackets. A
constraint after a colon is read if `constraints` is set. -/
def typeHint (R : Rules) (constraints : Bool) (f : Follow) : Parser Unit := do
  let plain : Parser Unit := do
    let _ ← R.expression {} f
  let starred : Parser Unit := do
    if Token.operator (← rest) == "**" then
      skip "**"
      toToken {}
      let _ ← anyWord
    else failure
  let generic : Parser Unit := do
    let _ ← anyWord
    expectOperator f "["
    toOperand false
    let inner : Follow := { close := true }
    R.typeHint true inner
    let step (ended : Bool) : Parser (Option Bool) := do
      if ended then return none
      if ← aheadIs inner "," then
        skip ","
        toOperand true
        if Token.operator (← rest) == "]" then
          skip "]"
          return some true
        else
          R.typeHint true inner
          return some false
      else
        expectOperator inner "]"
        return some true
    let _ ← iterate step false
  plain <|> starred <|> generic
  let step (_ : Unit) : Parser (Option Unit) := do
    match ← ahead f false with
    | .operator "|" =>
      skip "|"
      toOperand false
      R.typeHint constraints f
      return some ()
    | .operator "." =>
      skip "."
      toToken {}
      let _ ← anyWord
      return some ()
    | .operator ":" =>
      if constraints then
        skip ":"
        toOperand false
        R.typeHint constraints f
        return some ()
      else return none
    | _ => return none
  iterate step ()

/-- The rules for expressions nested to a depth of at most `depth`. -/
def rules : Nat → Rules
  | 0 =>
    { expression := fun _ _ => failure, operand := fun _ _ => failure, primary := fun _ => failure
      typeHint := fun _ _ => failure }
  | depth + 1 =>
    let R := rules depth
    { expression := expression R, operand := operand R, primary := primary R,
      typeHint := typeHint R }

end ScriptCompiler.Grammar
