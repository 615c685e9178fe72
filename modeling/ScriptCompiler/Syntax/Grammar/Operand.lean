import ScriptCompiler.Syntax.Grammar.Display
import ScriptCompiler.Syntax.Grammar.FormatString

/-!
# Reading operands

Atoms, what is applied to them, and the operators that bind more tightly than comparisons.
-/

namespace ScriptCompiler.Grammar

open ScriptCompiler.Parser

def atom (R : Rules) (f : Follow) : Parser Expr := do
  let cs ← rest
  let pos ← position
  if Token.startsString cs then strings R f
  else match Token.word? cs with
    | some w =>
      advance w.length
      match w with
      | "True" => return .constant pos .true
      | "False" => return .constant pos .false
      | "None" => return .constant pos .none
      | _ => return .name pos w
    | none =>
      match Token.number? cs with
      | some (isFloat, size) =>
        advance size
        return .number pos isFloat (String.ofList (cs.take size))
      | none =>
        match Token.operator cs with
        | "(" => parenthesized R
        | "[" => listDisplay R
        | "\x7b" => braceDisplay R
        | "..." =>
          skip "..."
          return .foreign pos .ellipsis
        | _ => failure

def bound? (R : Rules) : Parser (Option Expr) := do
  toOperand true
  match Token.operator (← rest) with
  | ":" | "]" | "," => return none
  | _ => return some (← R.expression {} { close := true })

def index (R : Rules) : Parser Index := do
  let f : Follow := { close := true }
  let lower ← if Token.operator (← rest) == ":" then pure none else some <$> R.expression {} f
  if ← aheadIs f ":" then
    skip ":"
    let upper ← bound? R
    if ← aheadIs f ":" then
      skip ":"
      return .slice lower upper (← bound? R)
    else return .slice lower upper none
  else match lower with
    | some e => return .item e
    | none => failure

/-- The indices of a subscript, from its opening bracket on. -/
def indices (R : Rules) : Parser (List Index) := do
  let f : Follow := { close := true }
  skip "["
  toOperand false
  let first ← index R
  let step (acc : List Index × Bool) : Parser (Option (List Index × Bool)) := do
    let (done, ended) := acc
    if ended then return none
    if ← aheadIs f "," then
      skip ","
      toOperand true
      if Token.operator (← rest) == "]" then
        skip "]"
        return some (done, true)
      else return some ((← index R) :: done, false)
    else
      expectOperator f "]"
      return some (done, true)
  let (done, _) ← iterate step ([first], false)
  return done.reverse

/-- A name before `=`, where that makes a keyword argument. -/
def keywordName : Parser (Position × String) := do
  let (pos, w) ← anyWord
  if isOperandKeyword w then failure
  else
    expectOperator { close := true } "="
    return (pos, w)

/-- An argument of a call; tells whether it is a plain expression. -/
def argument (R : Rules) (f : Follow) : Parser (Argument × Bool) := do
  let cs ← rest
  let pos ← position
  match Token.operator cs with
  | "**" =>
    skip "**"
    toOperand false
    let _ ← R.expression {} f
    return (.keywordSplat pos, false)
  | "*" =>
    (do return (.positional (← R.expression {} f), true))
    <|> (do return (.positional (← wideSplat R f), false))
  | "(" =>
    (do
      let (pos, e) ← parenthesizedSplat R
      return (.positional (.paren pos e), false))
    <|> (do return (.positional (← R.expression {} f), true))
  | _ =>
    (do
      let (pos, name) ← keywordName
      toOperand false
      return (.keyword pos name (← R.expression {} f), false))
    <|> (do return (.positional (← R.expression {} f), true))

/-- The arguments of a call, from the opening parenthesis on. A comprehension may stand for all of
them if `generators` is set. -/
def arguments (R : Rules) (generators : Bool) : Parser (List Argument) := do
  let f : Follow := { close := true }
  let pos ← position
  skip "("
  toOperand true
  match Token.operator (← rest) with
  | ")" =>
    skip ")"
    return []
  | "," =>
    skip ","
    expectOperator f ")"
    return []
  | _ =>
    let (first, plain) ← argument R { f with words := clauseWords }
    if generators && plain && (← clauseAhead f) then
      match first with
      | .positional body =>
        let cs ← clauses R
        expectOperator f ")"
        return [.positional (.comprehension pos .generator body cs)]
      | _ => failure
    else
      let step (acc : List Argument × Bool) : Parser (Option (List Argument × Bool)) := do
        let (done, ended) := acc
        if ended then return none
        if ← aheadIs f "," then
          skip ","
          toOperand true
          if Token.operator (← rest) == ")" then
            skip ")"
            return some (done, true)
          else
            let (a, _) ← argument R f
            return some (a :: done, false)
        else
          expectOperator f ")"
          return some (done, true)
      let (done, _) ← iterate step ([first], false)
      return done.reverse

/-- A member access, subscript or call after an operand, if there is one. -/
def postfixStep (R : Rules) (f : Follow) (e : Expr) : Parser (Option Expr) := do
  match ← ahead f false with
  | .operator "." =>
    skip "."
    toToken {}
    let (_, key) ← anyWord
    return some (.member e key)
  | .operator "[" => return some (.subscript e (← indices R))
  | .operator "(" => return some (.call e (← arguments R true))
  | _ => return none

def postfixed (R : Rules) (f : Follow) (e : Expr) : Parser Expr := iterate (postfixStep R f) e

/-- A starred operand. The star applies to a name, or to an operand up to its first member access or
subscript; all else applies to the whole. -/
def narrowSplat (R : Rules) (f : Follow) : Parser Expr := do
  let pos ← position
  skip "*"
  toOperand false
  let cs ← rest
  match if Token.startsString cs then none else Token.word? cs with
  | some w =>
    if isOperandKeyword w || w == "await" then failure
    else
      let (namePos, _) ← anyWord
      return .splat pos (.name namePos w)
  | none =>
    let first ← atom R f
    let step (acc : Expr × Bool) : Parser (Option (Expr × Bool)) := do
      let (e, ended) := acc
      if ended then return none
      match ← postfixStep R f e with
      | some (.call g args) => return some (.call g args, false)
      | some other => return some (other, true)
      | none => return none
    let (e, found) ← iterate step (first, false)
    if found then return .splat pos e else failure

/-- An operand with what is applied to it, without signs. -/
def primary (R : Rules) (f : Follow) : Parser Expr := do
  let e ← if Token.operator (← rest) == "*" then narrowSplat R f else atom R f
  postfixed R f e

/-- Words that go on with an expression after an operand. -/
def continuationWords : List String := ["if", "and", "or", "in", "not", "is", "as"]

/-- `await` with its operand, or as a name if no operand follows. -/
def awaited (R : Rules) (f : Follow) : Parser Expr := do
  let (pos, w) ← anyWord
  let operandNext ← do
    match ← ahead f true with
    | .stop => pure false
    | _ => pure (Token.startsOperand (continuationWords ++ f.words) (← rest))
  if operandNext then
    let e ← R.operand 22 f
    return .await pos e
  else postfixed R f (.name pos w)

def signed (R : Rules) (f : Follow) : Parser Expr := do
  let cs ← rest
  let pos ← position
  match Token.operator cs with
  | "+" | "-" | "~" =>
    let op : UnaryOp :=
      match Token.operator cs with
      | "+" => .plus
      | "-" => .minus
      | _ => .invert
    advance 1
    toOperand false
    return .unary pos op (← R.operand 22 f)
  | _ =>
    if Token.word? cs == some "await" then awaited R f else primary R f

/-- One more binary operator that binds more tightly than `above`, if there is one. Powers associate
to the right. -/
def binaryStep (R : Rules) (above : Nat) (f : Follow) (left : Expr) : Parser (Option Expr) := do
  match ← ahead f false with
  | .operator text =>
    match BinaryOp.ofText? text with
    | some op =>
      if above < op.strength then
        skip text
        toOperand false
        let right ← R.operand (if op == .power then 22 else op.strength) f
        return some (.binary op left right)
      else return none
    | none => return none
  | _ => return none

/-- Operands joined by binary operators that bind more tightly than `above`. -/
def operand (R : Rules) (above : Nat) (f : Follow) : Parser Expr := do
  let left ← signed R f
  iterate (binaryStep R above f) left

end ScriptCompiler.Grammar
