import ScriptCompiler.Diagnostic.Basic

/-!
# Faults

The causes for which a compile fails, with the wording of each in one place. A fault says what is
wrong; the diagnostic made from it says also where.
-/

namespace ScriptCompiler

inductive Fault where
  | malformedSource
  /-- A body or callable was asked for and no function is defined. -/
  | missingFunction
  | missingFunctionHeader
  | missingClassHeader
  /-- A construct of the language that has no counterpart. -/
  | unsupported (construct : String)
  | unknownHook (hook : String) (hooks : List String)
  | missingAttribute (object : String) (key : String)
  /-- A callable is reached again while it is being extracted. -/
  | cyclicCallable (name : String)
  | callableNotText
  | callableWithoutFunction
  | contextNotObject
  | contextNotJson
  /-- A string token without an opening quote. -/
  | malformedString (token : String)
  /-- A part of a string token that ends before it begins, or inside a character. -/
  | brokenSlice
  | unbalancedIndentation (depth : Nat)
  | unpatchedLine (index : Nat)
  /-- More callables refer to each other than the context holds. -/
  | extractionTooDeep
  | invalidScript
  | missingInput
  | unreadable (reason : String)
deriving DecidableEq, Repr

namespace Fault

def kind : Fault → FailureKind
  | malformedSource | missingFunction | missingFunctionHeader | missingClassHeader => .parse
  | unsupported _ | unknownHook _ _ => .unsupportedConstruct
  | missingAttribute _ _ | callableNotText | callableWithoutFunction | contextNotObject
  | contextNotJson =>
    .contextResolution
  | cyclicCallable _ => .cyclicContext
  | malformedString _ | unbalancedIndentation _ | unpatchedLine _ | extractionTooDeep => .internal
  | invalidScript => .outputVerification
  | missingInput | unreadable _ => .io
  | brokenSlice => .crash

def message : Fault → String
  | malformedSource => "invalid syntax"
  | missingFunction => "Source contains no function definition"
  | missingFunctionHeader => "Function unit contains no def header"
  | missingClassHeader => "Class unit contains no class header"
  | unsupported construct => construct ++ " is not supported"
  | unknownHook hook _ => "'" ++ hook ++ "' is not a component hook"
  | missingAttribute object key => "'" ++ object ++ "' object has no attribute '" ++ key ++ "'"
  | cyclicCallable name =>
    "Callable '" ++ name ++ "' is referenced while its own extraction is in progress"
  | callableNotText => "$source must be a string"
  | callableWithoutFunction => "Callable source contains no function definition"
  | contextNotObject => "Context must be a JSON object"
  | contextNotJson => "Invalid context JSON"
  | malformedString token => "Malformed string token: " ++ token
  | brokenSlice => "String token cut at no character boundary"
  | unbalancedIndentation depth =>
    "Unbalanced indentation at end of unit (depth " ++ toString depth ++ ")"
  | unpatchedLine index => "Reserved line " ++ toString index ++ " was never patched"
  | extractionTooDeep => "Callables refer to each other without end"
  | invalidScript => "Generated JavaScript does not parse"
  | missingInput => "Input does not exist"
  | unreadable reason => "Failed to read file: " ++ reason

def construct : Fault → Option String
  | unsupported construct => some construct
  | _ => none

def hints : Fault → List String
  | unknownHook _ hooks => ["Hooks are " ++ ", ".intercalate hooks]
  | _ => []

def report (f : Fault) : Diagnostic :=
  { kind := f.kind, message := f.message, construct := f.construct, hints := f.hints }

/-- The report of a fault at a place. A defect of the compiler has none. -/
def reportAt (f : Fault) (p : Position) : Diagnostic :=
  if f.kind = .internal then f.report else f.report.located p

end Fault

end ScriptCompiler
