import ScriptCompiler.Diagnostic.Fault
import ScriptCompiler.Syntax.Grammar.Block

/-!
# Programs

A program is a text that the grammar reads to its end. A text that is none is reported at the first
statement that the grammar does not read.
-/

namespace ScriptCompiler

def ParserState.start (text : List Char) : ParserState :=
  { rest := text, pos := .first, indents := [0], inFormat := false }

def parseProgram? (text : List Char) : Option (List Stmt) :=
  let depth := 2 * text.length + 8
  let R := Grammar.rules depth
  ((Grammar.program R (Grammar.suite R depth)).run (.start text)).map (·.1)

/-- Where reading stops: at the first statement that cannot be read. `fuel` bounds the number of
statements. -/
def Grammar.stoppingPoint (R : Rules) (suite : Parser Suite) : Nat → ParserState → ParserState
  | 0, s => s
  | fuel + 1, s =>
    match (Parser.toToken { quote := true }).run s with
    | none => s
    | some (_, s) =>
      match (statements R suite).run s with
      | none => s
      | some (_, s) => stoppingPoint R suite fuel s

/-- The report of a text that is no program. It shows the text from its place on, but no more than
40 characters. -/
def syntaxReport (text : List Char) : Diagnostic :=
  let depth := 2 * text.length + 8
  let R := Grammar.rules depth
  let s := Grammar.stoppingPoint R (Grammar.suite R depth) text.length (.start text)
  { Fault.malformedSource.reportAt s.pos with near := some (String.ofList
    (trimmed (s.rest.take 40))) }

end ScriptCompiler
