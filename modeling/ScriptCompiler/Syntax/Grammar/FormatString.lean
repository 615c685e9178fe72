import ScriptCompiler.Syntax.Grammar.Sequence
import ScriptCompiler.Syntax.Grammar.StringToken

/-!
# Reading strings

Strings with the holes of format strings, alone or adjacent to each other.
-/

namespace ScriptCompiler.Grammar

open ScriptCompiler.Parser

/-- The expression in a hole of a format string: one, several, or a `yield`. -/
def holeValue (R : Rules) : Parser Expr := do
  let f : Follow := { close := true }
  if Token.word? (← rest) == some "yield" then yieldExpression R f
  else
    let (items, comma) ← expressions R f
    return collect items comma

/-- The format specifier of a hole, up to the closing brace. Holes may be nested in it to a depth
that `nested` reads. -/
def specifier (nested : Parser Piece) : Parser Unit := do
  let step (_ : Unit) : Parser (Option Unit) := do
    match ← rest with
    | [] => failure
    | c :: _ =>
      if c = '\x7d' then return none
      else if c = '\x7b' then
        let _ ← nested
        return some ()
      else
        advance 1
        return some ()
  iterate step ()

/-- Whether a conversion such as `!r` comes next. -/
def conversionAhead : List Char → Bool
  | '!' :: c :: _ => 'a' ≤ c && c ≤ 'z'
  | _ => false

/-- A hole of a format string, from its opening brace on; `depth` bounds the nesting of holes in
specifiers. -/
def hole (R : Rules) : Nat → Parser Piece
  | 0 => failure
  | depth + 1 => do
    let pos ← position
    let f : Follow := { close := true }
    skip "\x7b"
    toOperand false
    let value ← holeValue R
    let documenting ← aheadIs f "="
    if documenting then
      skip "="
      toToken { close := true }
    let converted := conversionAhead (← rest)
    if converted then
      advance 2
      toToken { close := true }
    let specified := (← rest).head? == some ':'
    if specified then
      advance 1
      specifier (hole R depth)
    expectOperator f "\x7d"
    let option : Option HoleOption :=
      if converted then some .conversion
      else if specified then some .specifier
      else if documenting then some .selfDocumenting
      else none
    return .hole pos option value

def strings (R : Rules) (f : Follow) : Parser Expr := do
  let token : Parser StringToken := do stringToken (hole R (← rest).length)
  let first ← token
  let step (done : List StringToken) : Parser (Option (List StringToken)) := do
    let s ← get
    match ← gap { newline := f.newline, close := f.close, quote := true } with
    | .token =>
      if Token.startsString (← rest) then return some ((← token) :: done)
      else return none
    | .newline =>
      set s
      return none
    | _ => failure
  let more ← iterate step []
  match more.reverse with
  | [] => return .string first
  | tokens => return .joined first tokens

end ScriptCompiler.Grammar
