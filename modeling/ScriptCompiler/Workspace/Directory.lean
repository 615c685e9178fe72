import ScriptCompiler.Workspace.FileSystem
import ScriptCompiler.Workspace.Path

/-!
# Making directories
-/

namespace ScriptCompiler.FileSystem

variable {m : Type → Type} [Monad m] [FileSystem m]

def parent? (path : String) : Option String :=
  let reversed := Path.trimReversed path.toList.reverse
  if reversed = [] then none
  else
    let rest := reversed.dropWhile (· ≠ '/')
    let trimmed := Path.trimReversed rest
    some (String.ofList (if trimmed = [] then rest.take 1 else trimmed.reverse))

def ensureDirectory (path : String) : m (Except FileError Unit) := do
  match ← makeDirectory path with
  | .ok _ => return .ok ()
  | .error e => if ← isDirectory path then return .ok () else return .error e

/-- Make a directory and those around it that are missing. -/
def makeDirectories : Nat → String → m (Except FileError Unit)
  | 0, path => ensureDirectory path
  | depth + 1, path => do
    if path.isEmpty then return .ok ()
    match ← ensureDirectory path with
    | .ok _ => return .ok ()
    | .error .notFound =>
      match parent? path with
      | none => return .error (.other "failed to create whole tree")
      | some parent =>
        match ← makeDirectories depth parent with
        | .ok _ => ensureDirectory path
        | .error e => return .error e
    | .error e => return .error e

/-- Make a directory and those around it that are missing. A path has fewer parts than
characters. -/
def makePath (path : String) : m (Except FileError Unit) := makeDirectories path.length path

end ScriptCompiler.FileSystem
