import ScriptCompiler.Syntax.Token
import ScriptCompiler.Syntax.Tree

/-!
# Rules of the grammar

Each rule of the grammar is a parser that starts at the first character of a token. Rules are given
over the rules for what is nested in them, `Rules`, and tied together where all of them are known: a
rule reads at least one character before it goes to a nested one, so that nesting is never deeper
than the text is long.

How tightly operators bind, from loosely to tightly: `lambda` 0, conditional 1, `:=` and `as` 2,
`or` 12, `and` 13, `not` 14, comparisons 15, then `BinaryOp.strength` with the signs and `await` at
22.
-/

namespace ScriptCompiler.Grammar

open ScriptCompiler.Parser

/-- What may follow an expression: the end of the line, a closing bracket, or one of some words. -/
structure Follow where
  newline : Bool := false
  close : Bool := false
  words : List String := []

/-- How much of an expression to read: operators that bind more tightly than `above`. In the
iterable of a comprehension the body of a `lambda` is cut short in the same way. -/
structure Extent where
  above : Nat := 0
  shortLambda : Bool := false

structure Rules where
  expression : Extent → Follow → Parser Expr
  /-- Operators that bind more tightly than a bound, but no comparison or looser operator. -/
  operand : Nat → Follow → Parser Expr
  /-- An operand with what is applied to it, without operators. -/
  primary : Follow → Parser Expr
  typeHint : Bool → Follow → Parser Unit

/-- The next token, as far as it matters after an operand. -/
inductive Ahead where
  | stop
  | word (w : String)
  | operator (op : String)
deriving DecidableEq

def ahead (f : Follow) (quote : Bool) : Parser Ahead := do
  match ← gap { newline := f.newline, close := f.close, quote := quote } with
  | .newline => return .stop
  | .token =>
    let cs ← rest
    match Token.word? cs with
    | some w => return .word w
    | none => return .operator (Token.operator cs)
  | _ => failure

def aheadIs (f : Follow) (op : String) : Parser Bool := do
  return (← ahead f false) == .operator op

/-- Read an operator or a word whose text is known to be next. -/
def skip (text : String) : Parser Unit := advance text.length

def expectOperator (f : Follow) (op : String) : Parser Unit := do
  if ← aheadIs f op then skip op else failure

/-- Read the given word, which stands at the reading point or after a gap. -/
def expectWord (f : Follow) (w : String) : Parser Unit := do
  if (← ahead f false) == .word w then skip w else failure

def toOperand (close : Bool) : Parser Unit := toToken { quote := true, close := close }

/-- Read a word that serves as a name, whatever else it may mean. -/
def anyWord : Parser (Position × String) := do
  let pos ← position
  match Token.word? (← rest) with
  | some w =>
    advance w.length
    return (pos, w)
  | none => failure

/-- Words that are no names where an operand is due. -/
def isOperandKeyword (w : String) : Bool :=
  w == "not" || w == "lambda" || w == "True" || w == "False" || w == "None"

end ScriptCompiler.Grammar
