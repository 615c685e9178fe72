import ScriptCompiler.CommandLine.Run

/-!
# The command

The command line over the files of the system.
-/

namespace ScriptCompiler

def FileError.ofSystem : IO.Error → FileError
  | .noFileOrDirectory .. => .notFound
  | .alreadyExists .. => .alreadyExists
  | .inappropriateType _ 20 _ => .notDirectory
  | .inappropriateType _ 21 _ => .isDirectory
  | e => .other (toString e)

def attemptSystem {α : Type} (operation : IO α) : IO (Except FileError α) := do
  try return .ok (← operation) catch e => return .error (.ofSystem e)

def systemIsDirectory (path : String) : IO Bool := do
  try (← IO.FS.realPath path).isDir catch _ => return false

def systemIsFile (path : String) : IO Bool := do
  try
    let real ← IO.FS.realPath path
    return (← real.pathExists) && !(← real.isDir)
  catch _ => return false

partial def systemFilesBelow (path : String) : IO (List (List String)) := do
  let mut files := []
  for entry in ← (← IO.FS.realPath path).readDir do
    let inner := Path.join path entry.fileName
    if ← systemIsDirectory inner then
      files := files ++ (← systemFilesBelow inner).map (entry.fileName :: ·)
    else
      files := files ++ [[entry.fileName]]
  return files

instance : FileSystem IO where
  isDirectory := systemIsDirectory
  isFile := systemIsFile
  filesBelow path := do
    try systemFilesBelow path catch _ => return []
  readBytes path := do
    if ← systemIsDirectory path then return .error .isDirectory
    attemptSystem (IO.FS.readBinFile path)
  writeBytes path content := do
    if ← systemIsDirectory path then return .error .isDirectory
    attemptSystem (IO.FS.writeBinFile path content)
  removeFile path := do
    try IO.FS.removeFile path catch _ => return ()
  makeDirectory path := attemptSystem (IO.FS.createDir path)

end ScriptCompiler

def main (arguments : List String) : IO UInt32 := do
  let outcome ← ScriptCompiler.Run.commandLine (m := IO) arguments
  (← IO.getStdout).putStr outcome.stdout
  (← IO.getStderr).putStr outcome.stderr
  return outcome.exitCode.toUInt32
