import ScriptCompiler.Diagnostic.Fault
import ScriptCompiler.Workspace.FileSystem
import ScriptCompiler.Workspace.Path

/-!
# Finding sources

Inputs are files or directories. A file is taken as it is, and from a directory all source files
below it, sorted by the names that lead to them.
-/

namespace ScriptCompiler.Discovery

variable {m : Type → Type} [Monad m] [FileSystem m]

def sourceExtension : String := "py"

def isSource (path : String) : Bool := Path.extension? path == some sourceExtension

def sourcesBelow (directory : String) : m (List String) := do
  let files ← FileSystem.filesBelow directory
  let sorted := files.mergeSort fun a b => !decide (b < a)
  return (sorted.map (Path.joinAll directory)).filter isSource

def sources : List String → m (Except Diagnostic (List String))
  | [] => return .ok []
  | input :: rest => do
    let found ← if ← FileSystem.isDirectory input then pure (some (← sourcesBelow input))
      else if ← FileSystem.isFile input then pure (some [input])
      else pure none
    match found with
    | none => return .error (Fault.missingInput.report.inFile input)
    | some found =>
      match ← sources rest with
      | .ok more => return .ok (found ++ more)
      | .error d => return .error d

end ScriptCompiler.Discovery
