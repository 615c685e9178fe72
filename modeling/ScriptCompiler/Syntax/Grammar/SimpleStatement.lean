import ScriptCompiler.Syntax.Grammar.Assignment

/-!
# Reading simple statements

Simple statements end with their line or at a semicolon. Statements without counterpart are read in
full, so that a program with a mistake in them is refused, and then kept by their kind alone.
-/

namespace ScriptCompiler.Grammar

open ScriptCompiler.Parser

/-- An expression statement that extends to the end of the statement. -/
def wholeExpressionStatement (R : Rules) : Parser Stmt := do
  let s ← expressionStatement R
  if ← statementEnds then return s else failure

/-- The values of a `print`, after its keyword and what it may be redirected to. -/
def printValues (R : Rules) (ended : Bool) : Parser (List Expr) := do
  let step (acc : List Expr × Bool) : Parser (Option (List Expr × Bool)) := do
    let (done, ended) := acc
    if ended then return none
    if ← aheadIs lineEnd "," then
      skip ","
      if ← lineGoesOn then
        if Token.startsOperand [] (← rest) then
          return some ((← R.expression {} lineEnd) :: done, false)
        else return some (done, true)
      else return some (done, true)
    else return none
  let first ← if ended then pure [] else do pure [← R.expression {} lineEnd]
  let (done, _) ← iterate step (first, false)
  return done.reverse

/-- A `print` with values that is not an expression, from its keyword on. -/
def printStatement (R : Rules) : Parser Stmt := do
  let s ← get
  skip "print"
  if (← ahead lineEnd true) == .operator ">>" then
    let pos ← position
    skip ">>"
    toOperand false
    let _ ← R.expression {} lineEnd
    let values ← printValues R true
    return .prints s.pos (some pos) values
  else
    set s
    let plain : Parser Stmt := do
      skip "print"
      toOperand false
      return .prints s.pos none (← printValues R false)
    wholeExpressionStatement R <|> plain

/-- An `exec` of a string or a name; anything else that starts with the word is an expression. -/
def execStatement (R : Rules) : Parser Stmt := do
  let s ← get
  skip "exec"
  let scope : Parser Unit := do
    if (← ahead lineEnd false) == .word "in" then
      skip "in"
      toOperand false
      let _ ← separated lineEnd (R.expression {} lineEnd)
  match ← ahead lineEnd true with
  | .stop =>
    set s
    expressionStatement R
  | next =>
    let pos ← position
    let cs ← rest
    if Token.startsString cs then
      let _ ← stringToken (hole R cs.length)
      scope
      return .foreign s.pos .execStatement (some ⟨.string, pos⟩)
    else match next with
      | .word w =>
        if continuationWords.contains w then
          set s
          expressionStatement R
        else
          skip w
          scope
          return .foreign s.pos .execStatement (some ⟨.identifier, pos⟩)
      | _ =>
        set s
        expressionStatement R

def typeAlias (R : Rules) : Parser Stmt := do
  let start ← position
  skip "type"
  toOperand false
  let pos ← position
  R.typeHint true lineEnd
  expectOperator lineEnd "="
  toOperand false
  R.typeHint true lineEnd
  if ← statementEnds then return .foreign start .typeAliasStatement (some ⟨.typeHint, pos⟩)
  else failure

def dottedName (f : Follow) : Parser Unit := do
  let _ ← anyWord
  let step (_ : Unit) : Parser (Option Unit) := do
    if ← aheadIs f "." then
      skip "."
      toToken {}
      let _ ← anyWord
      return some ()
    else return none
  iterate step ()

/-- Something imported, with the name it is given. -/
def imported (f : Follow) : Parser Node := do
  let pos ← position
  dottedName f
  if (← ahead f false) == .word "as" then
    skip "as"
    toToken {}
    let _ ← anyWord
    return ⟨.aliasedImport, pos⟩
  else return ⟨.dottedName, pos⟩

def importList (f : Follow) : Parser Node := do
  let first ← imported f
  let step (ended : Bool) : Parser (Option Bool) := do
    if ended then return none
    if ← aheadIs f "," then
      skip ","
      match ← gap { newline := f.newline, close := f.close } with
      | .newline => return some true
      | .token =>
        if (Token.word? (← rest)).isSome then
          let _ ← imported f
          return some false
        else return some true
      | _ => failure
    else return none
  let _ ← iterate step false
  return first

/-- What is imported from a module. Gives the first name, if names are given. -/
def importedNames : Parser (Option Node) := do
  toToken {}
  match Token.operator (← rest) with
  | "*" =>
    skip "*"
    return none
  | "(" =>
    skip "("
    toToken {}
    let first ← importList { close := true }
    expectOperator { close := true } ")"
    return some first
  | _ => return some (← importList lineEnd)

def fromImport : Parser Stmt := do
  let start ← position
  skip "from"
  toToken {}
  let pos ← position
  if Token.word? (← rest) == some "__future__" then
    skip "__future__"
    expectWord {} "import"
    match ← importedNames with
    | some first => return .foreign start .futureImportStatement (some first)
    | none => failure
  else
    let step (_ : Unit) : Parser (Option Unit) := do
      if (← rest).head? == some '.' then
        advance 1
        toToken {}
        return some ()
      else return none
    iterate step ()
    let relative := (← position) ≠ pos
    let kind : NodeKind := if relative then .relativeImport else .dottedName
    if !(relative && Token.word? (← rest) == some "import") then dottedName {}
    expectWord {} "import"
    let _ ← importedNames
    return .foreign start .importFromStatement (some ⟨kind, pos⟩)

/-- The names of a `global` or `nonlocal` statement, from its keyword on. -/
def outerNames (isGlobal : Bool) : Parser Stmt := do
  let (pos, _) ← anyWord
  toToken {}
  let first ← position
  let names ← separated lineEnd (do return (← anyWord).2)
  return .outer pos isGlobal first names

def simpleStatement (R : Rules) : Parser Stmt := do
  let pos ← position
  let cs ← rest
  match if Token.startsString cs then none else Token.word? cs with
  | some "pass" =>
    skip "pass"
    return .pass pos
  | some "break" =>
    skip "break"
    return .breaks pos
  | some "continue" =>
    skip "continue"
    return .continues pos
  | some "return" =>
    skip "return"
    return .returns pos (← optionalExpressions R lineEnd)
  | some "raise" =>
    skip "raise"
    let f : Follow := { newline := true, words := ["from"] }
    let value ← optionalExpressions R f
    if (← ahead f false) == .word "from" then
      skip "from"
      toOperand false
      return .raises pos value (some (← R.expression {} lineEnd))
    else return .raises pos value none
  | some "assert" =>
    skip "assert"
    toOperand false
    return .asserts pos (← separated lineEnd (R.expression {} lineEnd))
  | some "del" =>
    skip "del"
    toOperand false
    let (items, comma) ← expressions R lineEnd
    return .foreign pos .deleteStatement (some (collect items comma).node)
  | some "global" => outerNames true
  | some "nonlocal" => outerNames false
  | some "import" =>
    skip "import"
    toToken {}
    return .foreign pos .importStatement (some (← importList lineEnd))
  | some "from" => fromImport
  | some "print" => printStatement R
  | some "exec" => execStatement R
  | some "type" => typeAlias R <|> expressionStatement R
  | _ => expressionStatement R

def simpleLine (R : Rules) : Parser (List Stmt) := do
  let first ← simpleStatement R
  let step (acc : List Stmt × Bool) : Parser (Option (List Stmt × Bool)) := do
    let (done, ended) := acc
    if ended then return none
    match ← ahead lineEnd false with
    | .stop => return none
    | .operator ";" =>
      skip ";"
      if ← lineGoesOn then return some ((← simpleStatement R) :: done, false)
      else return some (done, true)
    | _ => failure
  let (done, _) ← iterate step ([first], false)
  return done.reverse

end ScriptCompiler.Grammar
