import ScriptCompiler.Syntax.Grammar.Rules

/-!
# Reading sequences and targets

Expressions separated by commas stand alone or make up one value. Some of them are also targets:
what is assigned to is read as an expression first.
-/

namespace ScriptCompiler.Grammar

open ScriptCompiler.Parser

/-- The rest of a list of expressions after its first one. Gives the further ones and whether there
was a comma. -/
def moreExpressions (R : Rules) (f : Follow) (first : Expr) : Parser (List Expr × Bool) := do
  let step (acc : List Expr × Bool × Bool) : Parser (Option (List Expr × Bool × Bool)) := do
    let (done, _, ended) := acc
    if ended then return none
    if ← aheadIs f "," then
      skip ","
      match ← gap { newline := f.newline, close := f.close, quote := true } with
      | .newline => return some (done, true, true)
      | .token =>
        if Token.startsOperand f.words (← rest) then
          let e ← R.expression {} f
          return some (e :: done, true, false)
        else return some (done, true, true)
      | _ => failure
    else return none
  let (done, comma, _) ← iterate step ([first], false, false)
  return (done.reverse, comma)

/-- Expressions separated by commas, the last comma optional. -/
def expressions (R : Rules) (f : Follow) : Parser (List Expr × Bool) := do
  let first ← R.expression {} f
  moreExpressions R f first

/-- One expression, or the bare sequence of several. -/
def collect (items : List Expr) (comma : Bool) : Expr :=
  match items with
  | [e] => if comma then .sequence e.start .bare [e] else e
  | e :: _ => .sequence e.start .bare items
  | [] => .foreign ⟨0, 0⟩ .error

def yieldExpression (R : Rules) (f : Follow) : Parser Expr := do
  let (pos, _) ← anyWord
  let result : Expr := .foreign pos .yieldExpression
  match ← gap { newline := f.newline, close := f.close, quote := true } with
  | .newline => return result
  | .token =>
    let cs ← rest
    if Token.word? cs == some "from" then
      skip "from"
      toOperand false
      let _ ← R.expression {} f
      return result
    else if Token.startsOperand f.words cs then
      let _ ← expressions R f
      return result
    else return result
  | _ => failure

/-! ## Targets -/

/-- An expression as the target of an assignment, none if it cannot be one. -/
def target? : Expr → Option Target
  | .name pos id => some (.name pos id)
  | .member object key => some (.member object key)
  | .subscript value indices => some (.subscript value indices)
  | .splat pos operand =>
    match operand with
    | .name _ _ | .member _ _ | .subscript _ _ => some (.foreign pos .listSplatPattern)
    | _ => none
  | .paren pos inner => (target? inner).map (fun _ => .foreign pos .tuplePattern)
  | .sequence pos .tuple items => (targets? items).map (fun _ => .foreign pos .tuplePattern)
  | .sequence pos .list items => (targets? items).map (fun _ => .foreign pos .listPattern)
  | _ => none
where
  targets? : List Expr → Option (List Target)
    | [] => some []
    | e :: rest => do return (← target? e) :: (← targets? rest)

def listTarget? (items : List Expr) (comma : Bool) : Option Target :=
  match items, comma with
  | [e], false => target? e
  | e :: _, _ => (target?.targets? items).map (fun _ => .foreign e.start .patternList)
  | [], _ => none

/-- The names that targets bind, or the first target that is no name. -/
def bindNames : List Target → ClauseTarget
  | [] => .names []
  | .name _ id :: rest =>
    match bindNames rest with
    | .names ids => .names (id :: ids)
    | other => other
  | t :: _ => .foreign t.start t.kind

def bracketItems? : Expr → Option (List Target)
  | .paren _ inner => (target? inner).map (fun t => [t])
  | .sequence _ .tuple items | .sequence _ .list items => target?.targets? items
  | _ => none

/-- The variables that a list of expressions binds in a comprehension. -/
def clauseTarget? (items : List Expr) (comma : Bool) : Option ClauseTarget :=
  match items, comma with
  | [e], false =>
    match bracketItems? e with
    | some ts => some (bindNames ts)
    | none =>
      (target? e).map (fun t =>
        match t with
        | .name _ id => .name id
        | t => .foreign t.start t.kind)
  | items, _ => (target?.targets? items).map bindNames

end ScriptCompiler.Grammar
