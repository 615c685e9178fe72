import ScriptCompiler.Syntax.Grammar.SimpleStatement

/-!
# Reading compound statements

Statements with suites: simple statements on the same line, an indented block, or nothing at all.
The rules are given over the one that reads a suite.
-/

namespace ScriptCompiler.Grammar

open ScriptCompiler.Parser

structure Suite where
  pos : Position
  body : List Stmt

/-- Where a suite that is not empty begins. -/
def Suite.ofBody (fallback : Position) (body : List Stmt) : Suite :=
  ⟨match body with
    | s :: _ => s.node.pos
    | [] => fallback, body⟩

def colonSuite (suite : Parser Suite) : Parser Suite := do
  expectOperator {} ":"
  suite

/-- Read one of the given words if it starts the next line of the same block. -/
def nextClause (words : List String) : Parser (Option String) := do
  let s ← get
  match ← gap { dedent := 1 < s.indents.length, quote := true } with
  | .token =>
    match Token.word? (← rest) with
    | some w =>
      if words.contains w then
        skip w
        return some w
      else
        set s
        return none
    | none =>
      set s
      return none
  | _ =>
    set s
    return none

def elseClause (suite : Parser Suite) : Parser (Option (List Stmt)) := do
  match ← nextClause ["else"] with
  | some _ => return some (← colonSuite suite).body
  | none => return none

def ifStatement (R : Rules) (suite : Parser Suite) : Parser Stmt := do
  let (pos, _) ← anyWord
  toOperand false
  let condition ← R.expression {} {}
  let body ← colonSuite suite
  let step (done : List Branch) : Parser (Option (List Branch)) := do
    match ← nextClause ["elif"] with
    | some _ =>
      toOperand false
      let condition ← R.expression {} {}
      let body ← colonSuite suite
      return some (.mk condition body.body :: done)
    | none => return none
  let more ← iterate step []
  let otherwise ← elseClause suite
  return .branch pos condition body.body more.reverse otherwise

/-- The targets of a `for` statement, up to its `in`. -/
def loopTarget (R : Rules) : Parser Target := do
  let f : Follow := { words := ["in"] }
  let first ← R.primary f
  let step (acc : List Expr × Bool × Bool) : Parser (Option (List Expr × Bool × Bool)) := do
    let (done, _, ended) := acc
    if ended then return none
    if ← aheadIs f "," then
      skip ","
      if (← ahead f false) == .word "in" then return some (done, true, true)
      else return some ((← R.primary f) :: done, true, false)
    else return none
  let (items, comma, _) ← iterate step ([first], false, false)
  match listTarget? items.reverse comma with
  | some t => return t
  | none => failure

def forStatement (R : Rules) (suite : Parser Suite) (pos : Position) (isAsync : Bool) :
    Parser Stmt := do
  skip "for"
  toToken {}
  let target ← loopTarget R
  expectWord {} "in"
  toOperand false
  let (items, comma) ← expressions R {}
  let body ← colonSuite suite
  let otherwise ← elseClause suite
  return .forLoop pos isAsync target (collect items comma) body.body otherwise

def whileStatement (R : Rules) (suite : Parser Suite) : Parser Stmt := do
  let (pos, _) ← anyWord
  toOperand false
  let condition ← R.expression {} {}
  let body ← colonSuite suite
  let otherwise ← elseClause suite
  return .whileLoop pos condition body.body otherwise

def withStatement (R : Rules) (suite : Parser Suite) (pos : Position) : Parser Stmt := do
  skip "with"
  toOperand false
  let first ← position
  let _ ← expressions R {}
  let _ ← colonSuite suite
  return .foreign pos .withStatement (some ⟨.withClause, first⟩)

/-- The handler of an exception, after its keyword. -/
def handler (R : Rules) (suite : Parser Suite) (mustName : Bool) : Parser Unit := do
  toOperand false
  if mustName || Token.operator (← rest) ≠ ":" then
    let _ ← R.expression {} {}
    match ← ahead {} false with
    | .operator "," =>
      skip ","
      toOperand false
      let _ ← R.expression {} {}
    | _ => pure ()
  let _ ← colonSuite suite

/-- A `try` statement with its handlers, all for single exceptions or all for groups. -/
def tryStatement (R : Rules) (suite : Parser Suite) : Parser Stmt := do
  let (pos, _) ← anyWord
  let body ← colonSuite suite
  let groupMark : Parser Bool := do
    if (← rest).head? == some '*' then
      advance 1
      return true
    else return false
  let finally? : Parser Unit := do
    let _ ← colonSuite suite
  match ← nextClause ["except", "finally"] with
  | some "finally" => finally?
  | some _ =>
    let groups ← groupMark
    handler R suite groups
    let step (_ : Unit) : Parser (Option Unit) := do
      match ← nextClause ["except"] with
      | some _ =>
        if (← groupMark) == groups then
          handler R suite groups
          return some ()
        else failure
      | none => return none
    iterate step ()
    let _ ← elseClause suite
    match ← nextClause ["finally"] with
    | some _ => finally?
    | none => pure ()
  | none => failure
  return .foreign pos .tryStatement (some ⟨.block, body.pos⟩)

end ScriptCompiler.Grammar
