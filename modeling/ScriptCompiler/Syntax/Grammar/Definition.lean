import ScriptCompiler.Syntax.Grammar.CompoundStatement

/-!
# Reading definitions

Functions and classes, with their decorators and type parameters.
-/

namespace ScriptCompiler.Grammar

open ScriptCompiler.Parser

/-- Type parameters in brackets after the name of a definition, if there are any. -/
def typeParameters (R : Rules) : Parser Unit := do
  if ← aheadIs {} "[" then
    skip "["
    toOperand false
    let f : Follow := { close := true }
    R.typeHint true f
    let step (ended : Bool) : Parser (Option Bool) := do
      if ended then return none
      if ← aheadIs f "," then
        skip ","
        toOperand true
        if Token.operator (← rest) == "]" then
          skip "]"
          return some true
        else
          R.typeHint true f
          return some false
      else
        expectOperator f "]"
        return some true
    let _ ← iterate step false

def functionDefinition (R : Rules) (suite : Parser Suite) (pos : Position) (isAsync : Bool) :
    Parser FunctionDef := do
  skip "def"
  toToken {}
  let (namePos, name) ← anyWord
  typeParameters R
  expectOperator {} "("
  let params ← parameters R false ")"
  if ← aheadIs {} "->" then
    skip "->"
    toOperand false
    R.typeHint false {}
  let body ← colonSuite suite
  return .mk pos isAsync namePos name params body.body

def classDefinition (R : Rules) (suite : Parser Suite) : Parser ClassDef := do
  let (pos, _) ← anyWord
  toToken {}
  let (namePos, name) ← anyWord
  typeParameters R
  let bases ← do
    if ← aheadIs {} "(" then
      let bracket ← position
      pure (some (bracket, ← arguments R false))
    else pure none
  let body ← colonSuite suite
  return .mk pos namePos name bases body.body

/-- Definitions with decorators, from the first decorator on. -/
def decorated (R : Rules) (suite : Parser Suite) : Parser Stmt := do
  let step (acc : List Decorator × Bool) : Parser (Option (List Decorator × Bool)) := do
    let pos ← position
    if Token.operator (← rest) == "@" then
      skip "@"
      toOperand false
      let e ← R.expression {} lineEnd
      match ← gap { newline := true } with
      | .newline =>
        toToken {}
        let name := match e with
          | .name _ id => some id
          | _ => none
        return some (⟨pos, name⟩ :: acc.1, false)
      | _ => failure
    else return none
  let (done, _) ← iterate step ([], false)
  let decorators := done.reverse
  let pos ← position
  match Token.word? (← rest) with
  | some "def" => return .function decorators (← functionDefinition R suite pos false)
  | some "async" =>
    skip "async"
    toToken {}
    if Token.word? (← rest) == some "def" then
      return .function decorators (← functionDefinition R suite pos true)
    else failure
  | some "class" => return .classDef decorators (← classDefinition R suite)
  | _ => failure

end ScriptCompiler.Grammar
