import ScriptCompiler.Emit.Buffer

/-!
# Command line arguments

Options start with two hyphens and may stand between the inputs; two hyphens alone end them. An
option is given at most once, and its value is the next argument or follows an equals sign.
-/

namespace ScriptCompiler

structure Arguments where
  inputs : List String := []
  /-- The context: an object as JSON, or a file that holds it. -/
  context : Option String := none
  outDir : Option String := none
  body : Bool := false
  verify : Bool := false
  indent : Option Nat := none
  cache : Option String := none
  json : Bool := false
deriving DecidableEq, Repr, Inhabited

namespace Arguments

def indentWidth (a : Arguments) : Nat := a.indent.getD Buffer.defaultWidth

/-- How a command line is understood. -/
inductive Reading where
  | run (arguments : Arguments)
  | help
  | misuse
deriving DecidableEq, Repr

inductive Switch where
  | body | verify | json
deriving DecidableEq, Repr

inductive Setting where
  | context | outDir | indent | cache
deriving DecidableEq, Repr

inductive OptionName where
  | switch (s : Switch)
  | setting (s : Setting)
  | help
deriving DecidableEq, Repr

def optionName? : String → Option OptionName
  | "body" => some (.switch .body)
  | "verify" => some (.switch .verify)
  | "json" => some (.switch .json)
  | "context" => some (.setting .context)
  | "out-dir" => some (.setting .outDir)
  | "indent" => some (.setting .indent)
  | "cache" => some (.setting .cache)
  | "help" => some .help
  | _ => none

/-- Set a switch that is not set yet. -/
def turnOn? (a : Arguments) : Switch → Option Arguments
  | .body => if a.body then none else some { a with body := true }
  | .verify => if a.verify then none else some { a with verify := true }
  | .json => if a.json then none else some { a with json := true }

/-- The greatest number that an option takes. -/
def numberLimit : Nat := 0xFFFFFFFFFFFFFFFF

/-- A number: digits, with a plus sign or without. -/
def number? (text : String) : Option Nat :=
  let digits := match text.toList with
    | '+' :: rest => rest
    | cs => cs
  if digits.isEmpty || !digits.all Char.isDigit then none
  else
    let n := digits.foldl (fun n c => 10 * n + (c.toNat - '0'.toNat)) 0
    if n ≤ numberLimit then some n else none

/-- Give a setting a value unless it has one. Paths are not empty. -/
def assign? (a : Arguments) (setting : Setting) (value : String) : Option Arguments :=
  match setting with
  | .context => if a.context.isSome then none else some { a with context := some value }
  | .outDir =>
    if a.outDir.isSome || value.isEmpty then none else some { a with outDir := some value }
  | .cache => if a.cache.isSome || value.isEmpty then none else some { a with cache := some value }
  | .indent => if a.indent.isSome then none else (number? value).map fun n =>
    { a with indent := some n }

def addInput? (a : Arguments) (path : String) : Option Arguments :=
  if path.isEmpty then none else some { a with inputs := a.inputs ++ [path] }

/-- Whether an argument is an option and not a value. A hyphen alone is a value. -/
def isOption (argument : String) : Bool :=
  match argument.toList with
  | '-' :: _ :: _ => true
  | _ => false

/-- The name of an option and the value attached to it. -/
def splitOption (cs : List Char) : String × Option String :=
  match cs.dropWhile (· ≠ '=') with
  | [] => (String.ofList cs, none)
  | _ :: value => (String.ofList (cs.takeWhile (· ≠ '=')), some (String.ofList value))

/-- Go on with arguments that were accepted. -/
def andThen (a : Option Arguments) (next : Arguments → Reading) : Reading :=
  match a with
  | some a => next a
  | none => .misuse

def readInputs (a : Arguments) : List String → Reading
  | [] => if a.inputs.isEmpty then .misuse else .run a
  | path :: rest => andThen (a.addInput? path) (readInputs · rest)

def readFrom (a : Arguments) : List String → Reading
  | [] => readInputs a []
  | argument :: rest =>
    match argument.toList with
    | ['-', '-'] => readInputs a rest
    | '-' :: '-' :: option =>
      let (name, attached) := splitOption option
      match optionName? name, attached with
      | some .help, none => .help
      | some (.switch s), none => andThen (a.turnOn? s) (readFrom · rest)
      | some (.setting s), some value => andThen (a.assign? s value) (readFrom · rest)
      | some (.setting s), none =>
        match rest with
        | value :: rest => if isOption value then .misuse else andThen (a.assign? s value)
            (readFrom · rest)
        | [] => .misuse
      | _, _ => .misuse
    | ['-'] => andThen (a.addInput? argument) (readFrom · rest)
    | '-' :: 'h' :: _ => .help
    | '-' :: _ => .misuse
    | _ => andThen (a.addInput? argument) (readFrom · rest)

def read (arguments : List String) : Reading := readFrom {} arguments

def usage : String := "Usage: py2js [OPTIONS] <INPUTS>..."

def help : String := "\n".intercalate [
  "Compile a restricted Python subset to JavaScript",
  "",
  usage,
  "",
  "Arguments:",
  "  <INPUTS>...  Python files or directories (scanned recursively for .py files)",
  "",
  "Options:",
  "      --context <CONTEXT>  Context binding: inline JSON object, or a path to a JSON file",
  "      --out-dir <OUT_DIR>  Write one .js file per input here instead of printing to stdout",
  "      --body               Translate only the body of the first function definition",
  "      --verify             Re-parse generated JavaScript and fail if it does not parse",
  "      --indent <INDENT>    Spaces per indentation level [default: 4]",
  "      --cache <CACHE>      Directory for the incremental compile cache",
  "      --json               Report diagnostics as JSON lines on stderr",
  "  -h, --help               Print help",
  ""]

end Arguments

end ScriptCompiler
