import ScriptCompiler.Lowering.Statement

/-!
# Entry points

A program is lowered as a whole, or only the first function that it defines: either the statements
of its body, or the function under another name.
-/

namespace ScriptCompiler

/-- What becomes of a program. -/
inductive EntryPoint where
  /-- Every statement. -/
  | module
  /-- The statements of the first function. -/
  | body
  /-- The first function, under the given name. -/
  | callable (name : String)
deriving DecidableEq, Repr

def firstFunction? : List Stmt → Option FunctionDef
  | [] => none
  | .function _ d :: _ => some d
  | _ :: rest => firstFunction? rest

namespace Lowering

def firstFunction (program : List Stmt) : Lowering FunctionDef :=
  match firstFunction? program with
  | some d => pure d
  | none => fail Fault.missingFunction.report

/-- The statements of a function. Its parameters are variables, except for a receiver called
`self`. -/
def functionStatements (d : FunctionDef) : Lowering Unit := do
  let (_, rest) := splitSelf (← formals d.parameters)
  rest.forM (register ·.name)
  block d.body

def program (statements : List Stmt) : EntryPoint → Lowering Unit
  | .module => block statements
  | .body => do functionStatements (← firstFunction statements)
  | .callable name => do
    let d ← firstFunction statements
    namedFunction d.isAsync name (← formals d.parameters) (block d.body)

end Lowering

end ScriptCompiler
