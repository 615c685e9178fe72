import ScriptCompiler.Syntax.Grammar.CompoundStatement

/-!
# Reading `match` statements

The patterns of cases are read and dropped, as the statement has no counterpart.
-/

namespace ScriptCompiler.Grammar

open ScriptCompiler.Parser

/-- A pattern of a `case`, to a nesting depth of at most `depth`. -/
def casePattern (R : Rules) : Nat → Follow → Parser Unit
  | 0, _ => failure
  | depth + 1, f => do
    let inner : Follow := { close := true }
    let nested := casePattern R depth inner
    let items (closing : String) (item : Parser Unit) : Parser Unit := do
      toOperand true
      if Token.operator (← rest) == closing then skip closing
      else
        item
        let step (ended : Bool) : Parser (Option Bool) := do
          if ended then return none
          if ← aheadIs inner "," then
            skip ","
            toOperand true
            if Token.operator (← rest) == closing then
              skip closing
              return some true
            else
              item
              return some false
          else
            expectOperator inner closing
            return some true
        let _ ← iterate step false
    let star : Parser Unit := do
      advance (Token.operator (← rest)).length
      toToken {}
      let _ ← anyWord
    let numeral : Parser Unit := do
      if Token.operator (← rest) == "-" then
        advance 1
        toToken {}
      match Token.number? (← rest) with
      | some (_, size) => advance size
      | none => failure
    let single : Parser Unit := do
      let cs ← rest
      if Token.startsString cs then
        let _ ← strings R f
      else if (Token.word? cs).isSome then
        dottedName f
        match ← ahead f false with
        | .operator "(" =>
          skip "("
          items ")" nested
        | .operator "=" =>
          skip "="
          toOperand false
          casePattern R depth f
        | _ => pure ()
      else match Token.operator cs with
        | "*" | "**" => star
        | "[" =>
          skip "["
          items "]" nested
        | "(" =>
          skip "("
          items ")" nested
        | "\x7b" =>
          skip "\x7b"
          items "\x7d" (do
            if Token.operator (← rest) == "**" then star
            else
              casePattern R depth {}
              expectOperator {} ":"
              toOperand false
              nested)
        | _ =>
          numeral
          match ← ahead f false with
          | .operator "+" | .operator "-" =>
            advance 1
            toToken {}
            numeral
          | _ => pure ()
    single
    let step (_ : Unit) : Parser (Option Unit) := do
      match ← ahead f false with
      | .operator "|" =>
        skip "|"
        toOperand false
        single
        return some ()
      | .word "as" =>
        skip "as"
        toToken {}
        let _ ← anyWord
        return some ()
      | _ => return none
    iterate step ()

/-! ## Compound statements -/

/-- The cases of a `match` statement, after its colon. -/
def cases (R : Rules) (suite : Parser Suite) : Parser Unit := do
  match ← gap { indent := true, newline := true } with
  | .newline => pure ()
  | .indent =>
    let step (_ : Unit) : Parser (Option Unit) := do
      match ← gap { dedent := true } with
      | .dedent => return none
      | .token =>
        if Token.word? (← rest) == some "case" then
          let f : Follow := { words := ["if"] }
          skip "case"
          toOperand false
          let pattern : Parser Unit := do casePattern R ((← rest).length + 1) f
          pattern
          let more (ended : Bool) : Parser (Option Bool) := do
            if ended then return none
            if ← aheadIs f "," then
              skip ","
              toOperand false
              if Token.operator (← rest) == ":" || Token.word? (← rest) == some "if" then
                return some true
              else
                pattern
                return some false
            else return none
          let _ ← iterate more false
          if (← ahead f false) == .word "if" then
            skip "if"
            toOperand false
            let _ ← R.expression {} {}
          let _ ← colonSuite suite
          return some ()
        else failure
      | _ => failure
    iterate step ()
  | _ => failure

def matchStatement (R : Rules) (suite : Parser Suite) : Parser Stmt := do
  let (pos, _) ← anyWord
  toOperand false
  let (items, _) ← expressions R {}
  expectOperator {} ":"
  cases R suite
  return .foreign pos .matchStatement (items.head?.map Expr.node)

end ScriptCompiler.Grammar
