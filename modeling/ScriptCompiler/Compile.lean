import ScriptCompiler.Options
import ScriptCompiler.Script.Grammar
import ScriptCompiler.Session

/-!
# Compiling a unit
-/

namespace ScriptCompiler

structure SourceUnit where
  source : String
  context : Option Binding := none
  entry : EntryPoint := .module

/-- Check that an output is a script module, if the options ask for it. -/
def verified (options : Options) (output : String) : Except Diagnostic String :=
  if options.verifyOutput && !Script.isModule output then
    .error (Fault.invalidScript.report.inFile options.fileName)
  else .ok output

def SourceUnit.compile (unit : SourceUnit) (options : Options) : Except Diagnostic String := do
  let (units, _) ← (Session.compile options.indentWidth
      (.ofBinding unit.context) unit.source unit.entry).mapError
    (·.inFile options.fileName)
  verified options (UnitText.joined units)

end ScriptCompiler
