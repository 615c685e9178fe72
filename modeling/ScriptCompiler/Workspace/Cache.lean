import ScriptCompiler.Json.Record
import ScriptCompiler.Json.Writer
import ScriptCompiler.Text.Sha256
import ScriptCompiler.Workspace.Directory

/-!
# The cache of outputs

Outputs are kept in files, one for each source, together with a digest of all that they depend on. A
file that holds no entry is removed when it is read.
-/

namespace ScriptCompiler

/-- An output with the digest of what it was made from. -/
structure CacheEntry where
  hash : String
  output : String
deriving DecidableEq, Repr

namespace CacheEntry

def toJson (e : CacheEntry) :
    Json := .object [("hash", .string e.hash), ("output", .string e.output)]

def unique? (entries : List (String × Json)) (key : String) : Option Json :=
  match entries.filter (·.1 == key) with
  | [(_, value)] => some value
  | _ => none

/-- Read an entry from an object, or from an array of its two parts. -/
def ofJson? : Json → Option CacheEntry
  | .object entries => do
    return ⟨← (← unique? entries "hash").string?, ← (← unique? entries "output").string?⟩
  | .array [hash, output] => do return ⟨← hash.string?, ← output.string?⟩
  | _ => none

def ofText? (text : String) :
    Option CacheEntry := (Json.parseRecord? ["hash", "output"] text).bind ofJson?

end CacheEntry

structure Cache where
  directory : String
deriving DecidableEq, Repr

namespace Cache

variable {m : Type → Type} [Monad m] [FileSystem m]

def digest (source settings : String) : String :=
  Sha256.hexDigest (source.toUTF8.toList ++ 0 :: settings.toUTF8.toList)

/-- Characters that separate the parts of a path on some system. -/
def isSeparator (c : Char) : Bool := c = '/' || c = '\\' || c = ':'

def entryPath (c : Cache) (source : String) : String :=
  Path.join c.directory
    (String.ofList (source.toList.map fun ch => if isSeparator ch then '_' else ch) ++ ".json")

def create (directory : String) : m (Except FileError Cache) := do
  match ← FileSystem.makePath directory with
  | .ok _ => return .ok ⟨directory⟩
  | .error e => return .error e

/-- The output that is kept for a source, if it was made from the same things. -/
def get? (c : Cache) (source hash : String) : m (Option String) := do
  let path := c.entryPath source
  match ← FileSystem.readText path with
  | .error _ => return none
  | .ok text =>
    match CacheEntry.ofText? text with
    | none => do
      FileSystem.removeFile path
      return none
    | some entry => return if entry.hash = hash then some entry.output else none

/-- Keep an output. It is no failure if that is not possible. -/
def put (c : Cache) (source hash output : String) : m Unit := do
  let _ ← FileSystem.writeText (c.entryPath source) (CacheEntry.toJson ⟨hash, output⟩).render

end Cache

end ScriptCompiler
