import ScriptCompiler.Syntax.Grammar.Definition
import ScriptCompiler.Syntax.Grammar.Match

/-!
# Reading blocks

Lines of statements, and suites that are nested in each other. The rules of statements are tied
together here.
-/

namespace ScriptCompiler.Grammar

open ScriptCompiler.Parser

def statements (R : Rules) (suite : Parser Suite) : Parser (List Stmt) := do
  let cs ← rest
  let pos ← position
  let one (p : Parser Stmt) : Parser (List Stmt) := do return [← p]
  if Token.operator cs == "@" then one (decorated R suite)
  else match if Token.startsString cs then none else Token.word? cs with
    | some "if" => one (ifStatement R suite)
    | some "for" => one (forStatement R suite pos false)
    | some "while" => one (whileStatement R suite)
    | some "try" => one (tryStatement R suite)
    | some "with" => one (withStatement R suite pos)
    | some "def" => one (do return .function [] (← functionDefinition R suite pos false))
    | some "class" => one (do return .classDef [] (← classDefinition R suite))
    | some "match" => simpleLine R <|> one (matchStatement R suite)
    | some "async" =>
      let s ← get
      skip "async"
      let _ ← ahead lineEnd false
      match Token.word? (← rest) with
      | some "def" => one (do return .function [] (← functionDefinition R suite pos true))
      | some "for" => one (forStatement R suite pos true)
      | some "with" => one (withStatement R suite pos)
      | _ =>
        set s
        simpleLine R
    | _ => simpleLine R

def block (R : Rules) (suite : Parser Suite) : Parser (List Stmt) := do
  let step (done : List Stmt) : Parser (Option (List Stmt)) := do
    match ← gap { dedent := true, quote := true } with
    | .token => return some ((← statements R suite).reverse ++ done)
    | _ => return none
  let done ← iterate step []
  return done.reverse

/-- A suite whose compound statements have suites of their own read by `nested`. -/
def suiteOver (R : Rules) (nested : Parser Suite) : Parser Suite := do
  let fallback ← position
  match ← gap { indent := true, newline := true, quote := true } with
  | .indent => return .ofBody fallback (← block R nested)
  | .newline => return ⟨fallback, []⟩
  | .token => return .ofBody fallback (← simpleLine R)
  | .dedent => failure

/-- A suite in which suites are nested to a depth of at most `depth`. -/
def suite (R : Rules) : Nat → Parser Suite
  | 0 => failure
  | depth + 1 => suiteOver R (suite R depth)

def program (R : Rules) (suite : Parser Suite) : Parser (List Stmt) := do
  let step (done : List Stmt) : Parser (Option (List Stmt)) := do
    toToken { quote := true }
    if (← rest).isEmpty then return none
    else return some ((← statements R suite).reverse ++ done)
  let done ← iterate step []
  return done.reverse

end ScriptCompiler.Grammar
