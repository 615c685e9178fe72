/-!
# Paths

Paths are texts whose parts are separated by slashes. Slashes at the end and parts that are a single
point do not matter, except for a point at the very front.
-/

namespace ScriptCompiler.Path

/-- A reversed path without the slashes and single points that end it. -/
def trimReversed : List Char → List Char
  | '/' :: rest => trimReversed rest
  | '.' :: '/' :: rest => trimReversed rest
  | cs => cs

/-- The directory part, with its slash, and the file name of a path. A path that ends in no name has
none. -/
def splitName? (path : List Char) : Option (List Char × List Char) :=
  let reversed := trimReversed path.reverse
  let name := (reversed.takeWhile (· ≠ '/')).reverse
  let directory := (reversed.dropWhile (· ≠ '/')).reverse
  if name = [] ∨ name = ['.'] ∨ name = ['.', '.'] then none else some (directory, name)

/-- The stem and the extension of a file name. The extension follows the last point, unless the name
starts with it. -/
def splitExtension (name : List Char) : List Char × Option (List Char) :=
  let reversed := name.reverse
  let extension := (reversed.takeWhile (· ≠ '.')).reverse
  match reversed.dropWhile (· ≠ '.') with
  | [] | [_] => (name, none)
  | _ :: stem => (stem.reverse, some extension)

def fileName? (path : String) : Option String :=
  (splitName? path.toList).map fun p => String.ofList p.2

def extension? (path : String) : Option String := do
  let (_, name) ← splitName? path.toList
  return String.ofList (← (splitExtension name).2)

/-- The path with another extension. A path without file name stays as it is. -/
def withExtension (path extension : String) : String :=
  match splitName? path.toList with
  | none => path
  | some (directory, name) => String.ofList (directory ++ (splitExtension name).1) ++
      "." ++ extension

def join (directory name : String) : String :=
  if directory.isEmpty ∨ directory.toList.getLast? = some '/' then directory ++
    name else directory ++ "/" ++ name

def joinAll (directory : String) (names : List String) : String := names.foldl join directory

def segments : List Char → List (List Char)
  | [] => [[]]
  | c :: cs =>
    if c = '/' then [] :: segments cs
    else match segments cs with
      | [] => [[c]]
      | s :: rest => (c :: s) :: rest

/-- The path of the output for a source: beside the source, or under the same name in another
directory. -/
def output (source : String) (directory : Option String) : String :=
  let path := withExtension source "js"
  match directory, fileName? path with
  | some directory, some name => join directory name
  | _, _ => path

end ScriptCompiler.Path
