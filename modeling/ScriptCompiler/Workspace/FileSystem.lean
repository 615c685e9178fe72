/-!
# File systems

What the compiler asks of a file system. Paths are texts, and contents are bytes.
-/

namespace ScriptCompiler

inductive FileError where
  | notFound
  | alreadyExists
  | notDirectory
  | isDirectory
  | nameTooLong
  | nulInName
  | other (message : String)
deriving DecidableEq, Repr

namespace FileError

def message : FileError → String
  | notFound => "No such file or directory (os error 2)"
  | alreadyExists => "File exists (os error 17)"
  | notDirectory => "Not a directory (os error 20)"
  | isDirectory => "Is a directory (os error 21)"
  | nameTooLong => "File name too long (os error 36)"
  | nulInName => "file name contained an unexpected NUL byte"
  | other message => message

def notText : FileError := .other "stream did not contain valid UTF-8"

end FileError

class FileSystem (m : Type → Type) where
  isDirectory : String → m Bool
  isFile : String → m Bool
  /-- The files below a directory, each as the names that lead to it. -/
  filesBelow : String → m (List (List String))
  readBytes : String → m (Except FileError ByteArray)
  writeBytes : String → ByteArray → m (Except FileError Unit)
  removeFile : String → m Unit
  makeDirectory : String → m (Except FileError Unit)

namespace FileSystem

variable {m : Type → Type} [Monad m] [FileSystem m]

def readText (path : String) : m (Except FileError String) := do
  match ← readBytes path with
  | .error e => return .error e
  | .ok bytes =>
    match String.fromUTF8? bytes with
    | some text => return .ok text
    | none => return .error .notText

def writeText (path text : String) : m (Except FileError Unit) := writeBytes path text.toUTF8

end FileSystem

end ScriptCompiler
