import ScriptCompiler.Workspace.FileSystem
import ScriptCompiler.Workspace.Path

/-!
# File trees

A file system as a value: a map from the names that lead to a file or directory to what is there.
The root, which the empty list of names leads to, is the working directory and always there. Nothing
is known of what lies outside.
-/

namespace ScriptCompiler

inductive FileNode where
  | directory
  | file (content : ByteArray)

structure FileTree where
  nodes : List (List String × FileNode)

namespace FileTree

def empty : FileTree := ⟨[]⟩

def get? (t : FileTree) (names : List String) : Option FileNode :=
  if names.isEmpty then some .directory else t.nodes.lookup names

def insert (t : FileTree) (names : List String) (node : FileNode) : FileTree :=
  if t.nodes.any (·.1 == names) then
    ⟨t.nodes.map fun e => if e.1 == names then (names, node) else e⟩
  else ⟨t.nodes ++ [(names, node)]⟩

def erase (t : FileTree) (names : List String) : FileTree := ⟨t.nodes.filter (·.1 != names)⟩

/-- The longest name that a directory takes, in bytes. -/
def nameLimit : Nat := 255

/-- The names are those of a directory, or there is a reason why not. -/
def enter (t : FileTree) (names : List String) : Except FileError Unit :=
  match t.get? names with
  | none => .error .notFound
  | some (.file _) => .error .notDirectory
  | some .directory => .ok ()

/-- The names that the parts of a path lead to from a place. The last of them need not exist. -/
def follow (t : FileTree) : List String → List (List Char) → Except FileError (List String)
  | names, [] => .ok names
  | names, segment :: rest => do
    t.enter names
    if segment = [] ∨ segment = ['.'] then t.follow names rest
    else if segment = ['.', '.'] then
      if names.isEmpty then throw .notFound else t.follow names.dropLast rest
    else
      let name := String.ofList segment
      if segment.contains '\x00' then throw .nulInName
      if name.utf8ByteSize > nameLimit then throw .nameTooLong
      t.follow (names ++ [name]) rest

def resolve (t : FileTree) (path : String) : Except FileError (List String) :=
  match path.toList with
  | [] | '/' :: _ => .error .notFound
  | cs => t.follow [] (Path.segments cs)

def node? (t : FileTree) (path : String) : Except FileError FileNode := do
  match t.get? (← t.resolve path) with
  | some node => return node
  | none => throw .notFound

def read (t : FileTree) (path : String) : Except FileError ByteArray := do
  match ← t.node? path with
  | .file content => return content
  | .directory => throw .isDirectory

def write (t : FileTree) (path : String) (content : ByteArray) : Except FileError FileTree := do
  let names ← t.resolve path
  match t.get? names with
  | some .directory => throw .isDirectory
  | _ => return t.insert names (.file content)

def withoutSlashes (path : String) : String :=
  String.ofList (path.toList.reverse.dropWhile (· = '/')).reverse

def makeDirectory (t : FileTree) (path : String) : Except FileError FileTree := do
  let names ← t.resolve (withoutSlashes path)
  match t.get? names with
  | some _ => throw .alreadyExists
  | none => return t.insert names .directory

def filesBelow (t : FileTree) (names : List String) : List (List String) :=
  t.nodes.filterMap fun (path, node) =>
    match node with
    | .file _ => if names.isPrefixOf path then some (path.drop names.length) else none
    | .directory => none

/-- Put a node into the tree together with the directories around it. -/
def insertAll (t : FileTree) (names : List String) (node : FileNode) : FileTree :=
  let around := (List.range names.length).map names.take
  let t := around.foldl (fun t dir => if (t.get? dir).isSome then t else t.insert dir .directory) t
  t.insert names node

def attempt (f : FileTree → Except FileError FileTree) :
    StateM FileTree (Except FileError Unit) := do
  match f (← get) with
  | .ok t => do
    set t
    return .ok ()
  | .error e => return .error e

instance : FileSystem (StateM FileTree) where
  isDirectory path := do
    match (← get).node? path with
    | .ok .directory => return true
    | _ => return false
  isFile path := do
    match (← get).node? path with
    | .ok (.file _) => return true
    | _ => return false
  filesBelow path := do
    let t ← get
    match t.resolve path with
    | .ok names => return t.filesBelow names
    | .error _ => return []
  readBytes path := return (← get).read path
  writeBytes path content := attempt (·.write path content)
  removeFile path := modify fun t =>
    match t.resolve path with
    | .ok names =>
      match t.get? names with
      | some (.file _) => t.erase names
      | _ => t
    | .error _ => t
  makeDirectory path := attempt (·.makeDirectory path)

end FileTree

end ScriptCompiler
