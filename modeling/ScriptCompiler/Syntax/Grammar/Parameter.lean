import ScriptCompiler.Syntax.Grammar.Sequence

/-!
# Reading parameters

The parameters of functions and of `lambda` expressions.
-/

namespace ScriptCompiler.Grammar

open ScriptCompiler.Parser

/-- A parameter of a function, or of a `lambda`, which has no annotations. Marks that only separate
parameters give nothing. -/
def parameter (R : Rules) (isLambda : Bool) : Parser (Option Parameter) := do
  let f : Follow := { close := !isLambda }
  let pos ← position
  let annotated : Parser Unit := do
    if !isLambda && (← aheadIs f ":") then
      skip ":"
      toOperand false
      R.typeHint true f
  match Token.operator (← rest) with
  | "**" =>
    skip "**"
    toToken {}
    let _ ← R.primary f
    annotated
    return some (.foreign pos (NodeKind.construct .dictionarySplatPattern))
  | "*" =>
    skip "*"
    match ← ahead f false with
    | .word _ =>
      let _ ← R.primary f
      annotated
      return some (.foreign pos (NodeKind.construct .listSplatPattern))
    | .operator "," | .operator ")" | .operator ":" =>
      return some (.foreign pos (NodeKind.construct .keywordSeparator))
    | _ => failure
  | "/" =>
    skip "/"
    return none
  | "(" =>
    let e ← R.primary f
    match target? e with
    | some (.foreign _ .tuplePattern) =>
      if ← aheadIs f "=" then
        skip "="
        toOperand false
        let _ ← R.expression {} f
      return some (.foreign pos "tuple parameter")
    | _ => failure
  | _ =>
    let (_, name) ← anyWord
    annotated
    if ← aheadIs f "=" then
      skip "="
      toOperand false
      let value ← R.expression {} f
      return some (.withDefault name value)
    else return some (.plain name)

/-- Parameters up to the given closing token, which is read too. A comma may stand after the last
one. -/
def parameters (R : Rules) (isLambda : Bool) (closing : String) : Parser (List Parameter) := do
  let f : Follow := { close := !isLambda }
  if ← aheadIs f closing then
    skip closing
    return []
  let step (acc : List Parameter × Bool) : Parser (Option (List Parameter × Bool)) := do
    let (done, ended) := acc
    if ended then return none
    let p? ← parameter R isLambda
    let done := match p? with
      | some p => p :: done
      | none => done
    if ← aheadIs f "," then
      skip ","
      if ← aheadIs f closing then
        skip closing
        return some (done, true)
      else return some (done, false)
    else
      expectOperator f closing
      return some (done, true)
  let (done, _) ← iterate step ([], false)
  return done.reverse

def lambdaExpression (R : Rules) (extent : Extent) (f : Follow) : Parser Expr := do
  let (pos, _) ← anyWord
  let params ← parameters R true ":"
  toOperand false
  let body ← R.expression extent f
  return .lambda pos params body

end ScriptCompiler.Grammar
