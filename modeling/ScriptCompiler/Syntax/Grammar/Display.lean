import ScriptCompiler.Syntax.Grammar.Sequence

/-!
# Reading displays

What stands in brackets: parenthesized expressions, tuples, lists, sets and dictionaries, with their
elements listed or made by a comprehension.
-/

namespace ScriptCompiler.Grammar

open ScriptCompiler.Parser

def clauseWords : List String := ["for", "async"]

def clause? (R : Rules) : Parser (Option Clause) := do
  let f : Follow := { close := true, words := ["for", "async", "if"] }
  let loop (pos : Position) (isAsync : Bool) : Parser Clause := do
    expectWord {} "for"
    toToken {}
    let inFollow : Follow := { words := ["in"] }
    let item : Parser Expr := R.primary inFollow
    let first ← item
    let step (acc : List Expr × Bool × Bool) : Parser (Option (List Expr × Bool × Bool)) := do
      let (done, _, ended) := acc
      if ended then return none
      if ← aheadIs inFollow "," then
        skip ","
        if (← ahead inFollow false) == .word "in" then return some (done, true, true)
        else
          let e ← item
          return some (e :: done, true, false)
      else return none
    let (items, comma, _) ← iterate step ([first], false, false)
    match clauseTarget? items.reverse comma with
    | none => failure
    | some target =>
      expectWord inFollow "in"
      toOperand false
      let iterable ← R.expression { above := 1, shortLambda := true } f
      let more (ended : Bool) : Parser (Option Bool) := do
        if ended then return none
        if ← aheadIs f "," then
          skip ","
          toOperand true
          if Token.startsOperand f.words (← rest) then
            let _ ← R.expression { above := 1, shortLambda := true } f
            return some false
          else return some true
        else return none
      let _ ← iterate more false
      return .loop pos isAsync target iterable
  match ← ahead f false with
  | .word "for" => return some (← loop (← position) false)
  | .word "async" =>
    let pos ← position
    skip "async"
    return some (← loop pos true)
  | .word "if" =>
    skip "if"
    toOperand false
    let condition ← R.expression { above := 1 } f
    return some (.guard condition)
  | _ => return none

def clauses (R : Rules) : Parser (List Clause) := do
  let step (done : List Clause) : Parser (Option (List Clause)) := do
    match ← clause? R with
    | some c => return some (c :: done)
    | none => return none
  let done ← iterate step []
  return done.reverse

/-- How an element of a collection was written. Only a plain one can be the body of a
comprehension. -/
inductive ElementForm where
  | plain | yielded | starred
deriving DecidableEq

/-- A star before a whole expression. -/
def wideSplat (R : Rules) (f : Follow) : Parser Expr := do
  let pos ← position
  if Token.operator (← rest) == "*" then
    skip "*"
    toOperand false
    let e ← R.expression {} f
    return .splat pos e
  else failure

/-- A starred expression in parentheses that is not an operand. -/
def parenthesizedSplat (R : Rules) : Parser (Position × Expr) := do
  let pos ← position
  if Token.operator (← rest) == "(" then
    skip "("
    toOperand true
    if Token.operator (← rest) == "*" then
      let f : Follow := { close := true }
      let operand : Parser Bool := do
        let _ ← R.expression {} f
        aheadIs f ")"
      if ← (operand <|> pure false) then failure
      else
        let e ← wideSplat R f
        expectOperator f ")"
        return (pos, e)
    else failure
  else failure

def element (R : Rules) (f : Follow) : Parser (Expr × ElementForm) := do
  let cs ← rest
  if Token.word? cs == some "yield" then return (← yieldExpression R f, .yielded)
  else if Token.operator cs == "*" then
    (do return (← R.expression {} f, .plain)) <|> (do return (← wideSplat R f, .starred))
  else if Token.operator cs == "(" then
    (do
      let (pos, _) ← parenthesizedSplat R
      return (.foreign pos .parenthesizedListSplat, .starred))
    <|> (do return (← R.expression {} f, .plain))
  else return (← R.expression {} f, .plain)

/-- The elements of a collection after its first one, up to the closing bracket, which is read too.
Tells whether there was a comma. -/
def moreElements (R : Rules) (closing : String) (first : Expr) : Parser (List Expr × Bool) := do
  let f : Follow := { close := true }
  let step (acc : List Expr × Bool × Bool) : Parser (Option (List Expr × Bool × Bool)) := do
    let (done, comma, ended) := acc
    if ended then return none
    if ← aheadIs f "," then
      skip ","
      toOperand true
      if Token.operator (← rest) == closing then
        skip closing
        return some (done, true, true)
      else
        let (e, _) ← element R f
        return some (e :: done, true, false)
    else
      expectOperator f closing
      return some (done, comma, true)
  let (done, comma, _) ← iterate step ([first], false, false)
  return (done.reverse, comma)

def clauseAhead (f : Follow) : Parser Bool := do
  match ← ahead f false with
  | .word w => return clauseWords.contains w
  | _ => return false

/-- What stands in parentheses, from the opening one on. -/
def parenthesized (R : Rules) : Parser Expr := do
  let pos ← position
  skip "("
  toOperand true
  if Token.operator (← rest) == ")" then
    skip ")"
    return .sequence pos .tuple []
  let f : Follow := { close := true, words := clauseWords }
  let (first, form) ← element R f
  if form == .plain && (← clauseAhead f) then
    let cs ← clauses R
    expectOperator { close := true } ")"
    return .comprehension pos .generator first cs
  let (items, comma) ← moreElements R ")" first
  match items, comma, form with
  | [e], false, .plain | [e], false, .yielded => return .paren pos e
  | _, _, _ => return .sequence pos .tuple items

def listDisplay (R : Rules) : Parser Expr := do
  let pos ← position
  skip "["
  toOperand true
  if Token.operator (← rest) == "]" then
    skip "]"
    return .sequence pos .list []
  let f : Follow := { close := true, words := clauseWords }
  let (first, form) ← element R f
  if form == .plain && (← clauseAhead f) then
    let cs ← clauses R
    expectOperator { close := true } "]"
    return .comprehension pos .list first cs
  let (items, _) ← moreElements R "]" first
  return .sequence pos .list items

def entry (R : Rules) : Parser Entry := do
  if Token.operator (← rest) == "**" then
    skip "**"
    toOperand false
    return .splat (← R.expression {} { close := true })
  else
    let key ← R.expression {} {}
    expectOperator {} ":"
    toOperand false
    return .pair key (← R.expression {} { close := true })

/-- The entries of a dictionary after its first one, up to the closing brace, which is read too. -/
def moreEntries (R : Rules) (first : Entry) : Parser (List Entry) := do
  let f : Follow := { close := true }
  let step (acc : List Entry × Bool) : Parser (Option (List Entry × Bool)) := do
    let (done, ended) := acc
    if ended then return none
    if ← aheadIs f "," then
      skip ","
      toOperand true
      if Token.operator (← rest) == "\x7d" then
        skip "\x7d"
        return some (done, true)
      else return some ((← entry R) :: done, false)
    else
      expectOperator f "\x7d"
      return some (done, true)
  let (done, _) ← iterate step ([first], false)
  return done.reverse

/-- A set or a dictionary, from its opening brace on. -/
def braceDisplay (R : Rules) : Parser Expr := do
  let pos ← position
  skip "\x7b"
  toOperand true
  let f : Follow := { close := true, words := clauseWords }
  match Token.operator (← rest) with
  | "\x7d" =>
    skip "\x7d"
    return .dictionary pos []
  | "," =>
    skip ","
    expectOperator { close := true } "\x7d"
    return .dictionary pos []
  | "**" =>
    let first ← entry R
    return .dictionary pos (← moreEntries R first)
  | _ =>
    let (first, form) ← element R f
    let next ← ahead f false
    if form == .plain && next == .operator ":" then
      skip ":"
      toOperand false
      let value ← R.expression {} f
      if ← clauseAhead f then
        let cs ← clauses R
        expectOperator { close := true } "\x7d"
        return .dictComprehension pos first value cs
      else return .dictionary pos (← moreEntries R (.pair first value))
    else if form == .plain && (← clauseAhead f) then
      let cs ← clauses R
      expectOperator { close := true } "\x7d"
      return .comprehension pos .set first cs
    else
      let (items, _) ← moreElements R "\x7d" first
      return .sequence pos .set items

end ScriptCompiler.Grammar
