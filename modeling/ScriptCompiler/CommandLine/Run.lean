import ScriptCompiler.CommandLine.Arguments
import ScriptCompiler.Compile
import ScriptCompiler.Workspace.Cache
import ScriptCompiler.Workspace.Discovery

/-!
# Runs of the command

A run compiles all sources that the inputs stand for, and prints their outputs or writes them to
files, in order. Sources that fail are reported and do not keep the others from being written.
-/

namespace ScriptCompiler

/-- What a run leaves behind besides files. -/
structure Outcome where
  exitCode : Nat
  stdout : String
  stderr : String
deriving DecidableEq, Repr

inductive RunError where
  | diagnostic (d : Diagnostic)
  /-- Something could not be done, for a reason that the file system gave. -/
  | file (action : String) (reason : FileError)
deriving DecidableEq, Repr

def RunError.message : RunError → String
  | .diagnostic d => "Error: " ++ d.display ++ "\n"
  | .file action reason => "Error: " ++ action ++ "\n\nCaused by:\n    " ++ reason.message ++ "\n"

namespace Run

variable {m : Type → Type} [Monad m] [FileSystem m]

/-- Do something with files, or stop because it cannot be done. -/
def orStop {α : Type} (action : String) (operation : m (Except FileError α)) :
    ExceptT RunError m α :=
  ExceptT.mk do return (← operation).mapError (.file action)

/-- Whether a text is an object as JSON and not the path of a file. -/
def isInline (text : String) : Bool := (text.toList.dropWhile isBlank).head? == some '\x7b'

def contextText (a : Arguments) : ExceptT RunError m (Option String) := do
  match a.context with
  | none => return none
  | some text =>
    if isInline text then return some text
    else return some (← orStop ("failed to read context file " ++ text) (FileSystem.readText text))

def context : Option String → Except RunError (Option Binding)
  | none => .ok none
  | some text => ((Binding.ofText text).run' 0).map some |>.mapError (.diagnostic ·.report)

/-- All that decides outputs besides the sources. -/
def settings (a : Arguments) (context : Option String) : String :=
  context.getD "" ++ "|body=" ++ toString a.body ++ "|indent=" ++ toString a.indentWidth ++
    "|verify=" ++
    toString a.verify

/-- How the sources of a run are compiled. -/
structure Job where
  options : Options
  entry : EntryPoint
  context : Option Binding
  settings : String

/-- How a run compiles its sources, given the text of its context and the context that the text
describes. -/
def Job.ofArguments (a : Arguments) (text : Option String) (context : Option Binding) : Job where
  options := { indentWidth := a.indentWidth, verifyOutput := a.verify }
  entry := if a.body then .body else .module
  context := context
  settings := Run.settings a text

def Job.compile (job : Job) (path source : String) : Except Diagnostic String :=
  SourceUnit.compile { source := source, context := job.context, entry := job.entry }
    { job.options with fileName := path }

/-- The output of a source file, from the cache if it is there. -/
def compileFile (job : Job) (cache : Option Cache) (path : String) :
    m (Except Diagnostic String) := do
  match ← FileSystem.readText path with
  | .error e => return .error ((Fault.unreadable e.message).report.inFile path)
  | .ok source =>
    match cache with
    | none => return job.compile path source
    | some cache =>
      let hash := Cache.digest source job.settings
      match ← cache.get? path hash with
      | some output => return .ok output
      | none =>
        match job.compile path source with
        | .error d => return .error d
        | .ok output => do
          cache.put path hash output
          return .ok output

def report (json : Bool) (d : Diagnostic) : String :=
  if json then d.toJson.render ++ "\n"
  else
    d.display ++ "\n" ++
      (match d.construct with | some c => "  construct: " ++ c ++ "\n" | none => "") ++
      String.join (d.hints.map fun hint => "  hint: " ++ hint ++ "\n")

/-- What was printed so far, and how many sources failed. -/
structure Progress where
  stdout : String := ""
  stderr : String := ""
  failures : Nat := 0

def deliver (a : Arguments) (progress : Progress) (path : String)
    (result : Except Diagnostic String) : m (Progress × Option RunError) := do
  match result with
  | .error d =>
    return ({ progress with stderr := progress.stderr ++ report a.json d, failures :=
      progress.failures + 1 }, none)
  | .ok output =>
    match a.outDir with
    | none => return ({ progress with stdout := progress.stdout ++ output }, none)
    | some directory =>
      let target := Path.output path (some directory)
      match ← FileSystem.writeText target output with
      | .ok _ => return (progress, none)
      | .error e => return (progress, some (.file ("failed to write " ++ target) e))

/-- Print or write results in order, up to the first that cannot be written. -/
def deliverAll (a : Arguments) (progress : Progress) :
    List (String × Except Diagnostic String) → m (Progress × Option RunError)
  | [] => return (progress, none)
  | (path, result) :: rest => do
    match ← deliver a progress path result with
    | (progress, none) => deliverAll a progress rest
    | stopped => return stopped

def compileAll (a : Arguments) : ExceptT RunError m (List (String × Except Diagnostic String)) := do
  let text ← contextText a
  let context ← ExceptT.mk (pure (context text))
  let sources ← ExceptT.mk do return (← Discovery.sources a.inputs).mapError .diagnostic
  let cache ← match a.cache with
    | none => pure none
    | some directory =>
      some <$> orStop ("failed to create cache directory " ++ directory) (Cache.create directory)
  if let some directory := a.outDir then
    orStop ("failed to create output directory " ++ directory) (FileSystem.makePath directory)
  let job := Job.ofArguments a text context
  sources.mapM fun path => do return (path, ← ExceptT.lift (compileFile job cache path))

def summary (progress : Progress) (total : Nat) : Outcome :=
  if progress.failures =
    0 then { exitCode := 0, stdout := progress.stdout, stderr := progress.stderr }
  else
    { exitCode := 1
      stdout := progress.stdout
      stderr := progress.stderr ++ "py2js: " ++ toString progress.failures ++ " of " ++
      toString total ++
        " file(s) failed\n" }

/-- Whether the compilation of a source stopped short. -/
def crashed : Except Diagnostic String → Bool
  | .error d => d.kind = .crash
  | .ok _ => false

def crashCode : Nat := 101

def run (a : Arguments) : m Outcome := do
  match ← (compileAll a).run with
  | .error e => return { exitCode := 1, stdout := "", stderr := e.message }
  | .ok results =>
    if results.any (crashed ·.2) then return { exitCode := crashCode, stdout := "", stderr := "" }
    match ← deliverAll a {} results with
    | (progress, none) => return summary progress results.length
    | (progress, some e) =>
      return { exitCode := 1, stdout := progress.stdout, stderr := progress.stderr ++ e.message }

def misuseCode : Nat := 2

def commandLine (arguments : List String) : m Outcome :=
  match Arguments.read arguments with
  | .run a => run a
  | .help => return { exitCode := 0, stdout := Arguments.help, stderr := "" }
  | .misuse => return { exitCode := misuseCode, stdout := "", stderr := Arguments.usage ++ "\n" }

end Run

end ScriptCompiler
