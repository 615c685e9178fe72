import ScriptCompiler.Text.Position
import ScriptCompiler.Json.Writer

/-!
# Diagnostics

What is reported when a unit is not compiled: the class of the failure, a message, the file and
place it concerns and, for a refused construct, the name of the construct.
-/

namespace ScriptCompiler

inductive FailureKind where
  | parse
  | unsupportedConstruct
  | contextResolution
  | cyclicContext
  | internal
  | outputVerification
  | io
  /-- The compiler stopped short and reported nothing. -/
  | crash
deriving DecidableEq, Repr, Inhabited

namespace FailureKind

/-- The kinds that are reported. -/
def all : List FailureKind :=
  [.parse, .unsupportedConstruct, .contextResolution, .cyclicContext, .internal,
    .outputVerification, .io]

def name : FailureKind → String
  | .parse => "parse"
  | .unsupportedConstruct => "unsupported-construct"
  | .contextResolution => "context-resolution"
  | .cyclicContext => "cyclic-context"
  | .internal => "internal"
  | .outputVerification => "output-verification"
  | .io => "io"
  | .crash => "crash"

def ofName? (s : String) : Option FailureKind := all.find? (fun k => k.name == s)

def code : FailureKind → String
  | .parse => "P2J-ERR-PARSE"
  | .unsupportedConstruct => "P2J-ERR-UNSUPPORTED"
  | .contextResolution => "P2J-ERR-CONTEXT"
  | .cyclicContext => "P2J-ERR-CONTEXT-CYCLE"
  | .internal => "P2J-ERR-INTERNAL"
  | .outputVerification => "P2J-ERR-OUTPUT"
  | .io => "P2J-ERR-IO"
  | .crash => ""

/-- The family a kind belongs to. A cycle is a failure to resolve the context. -/
def family : FailureKind → String
  | .parse => "PARSE_ERROR"
  | .unsupportedConstruct => "UNSUPPORTED_CONSTRUCT"
  | .contextResolution | .cyclicContext => "CONTEXT_RESOLUTION"
  | .internal => "INTERNAL_DEFECT"
  | .outputVerification => "OUTPUT_VERIFICATION"
  | .io => "IO_ERROR"
  | .crash => ""

/-- What the compiler promises and a failure of this kind upholds. -/
def guarantee : FailureKind → String
  | .parse => "Only syntactically valid Python source is translated."
  | .unsupportedConstruct =>
    "Constructs without a translation rule fail the compile instead of degrading silently."
  | .contextResolution => "Context attributes are resolved against the bound value or not at all."
  | .cyclicContext => "Every extracted callable is emitted exactly once, ahead of its first use."
  | .internal => "Every supported operator has exactly one table entry."
  | .outputVerification => "Emitted JavaScript parses as a module."
  | .io => "Inputs are read and outputs written atomically per file."
  | .crash => ""

end FailureKind

/-- A report. The file is empty and line and column are zero while they are not known. `near` is the
text at the place, for a source that is no program. -/
structure Diagnostic where
  kind : FailureKind
  message : String
  file : String := ""
  line : Nat := 0
  column : Nat := 0
  construct : Option String := none
  hints : List String := []
  near : Option String := none
deriving DecidableEq, Repr, Inhabited

namespace Diagnostic

def located (d : Diagnostic) (p : Position) : Diagnostic :=
  if d.line = 0 then { d with line := p.line, column := p.column } else d

def inFile (d : Diagnostic) (file : String) : Diagnostic :=
  if d.file.isEmpty then { d with file := file } else d

def withHint (d : Diagnostic) (hint : String) : Diagnostic :=
  { d with hints := d.hints ++ [hint] }

/-- A construct that has no counterpart, refused at its place. -/
def unsupported (construct : String) (p : Position) : Diagnostic :=
  { kind := .unsupportedConstruct
    message := construct ++ " is not supported"
    line := p.line
    column := p.column
    construct := some construct }

/-- The message, with the text that it is about. -/
def wording (d : Diagnostic) : String :=
  match d.near with
  | none => d.message
  | some text => d.message ++ " near '" ++ text ++ "'"

def display (d : Diagnostic) : String :=
  d.kind.code ++ ": " ++ d.wording ++ " (" ++ d.file ++ ":" ++ toString d.line ++ ":" ++
    toString d.column ++ ")"

def toJson (d : Diagnostic) : Json :=
  .object [
    ("code", .string d.kind.code),
    ("kind", .string d.kind.name),
    ("errorType", .string d.kind.family),
    ("message", .string d.wording),
    ("guarantee", .string d.kind.guarantee),
    ("file", .string d.file),
    ("line", .integer d.line),
    ("column", .integer d.column),
    ("context", match d.construct with | some c => .string c | none => .null),
    ("hints", .array (d.hints.map .string))]

end Diagnostic

end ScriptCompiler
