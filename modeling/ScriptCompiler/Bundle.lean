import ScriptCompiler.Compile

/-!
# Bundles

A bundle compiles units into one script. The units share a session, so that a callable to which
several of them refer is written once.
-/

namespace ScriptCompiler

inductive Component where
  /-- A function or other source, or its first function under another name. -/
  | function (source : String) (name : Option String)
  /-- A hook of a component that is defined elsewhere. -/
  | hook (owner event source : String)
  /-- A class, with another name or base if they are given, registered under a tag if there is one.
  -/
  | element (source : String) (base rename tag : Option String)
deriving DecidableEq, Repr

/-- The hooks that a component may have. -/
def hookNames : List String := ["onclick", "onmouseover", "onsubmit", "onchange", "oninput"]

def renameFunction (source name : String) : Except Fault String :=
  match Header.renameFunction? source.toList name.toList with
  | some renamed => .ok (String.ofList renamed)
  | none => .error .missingFunctionHeader

/-- Give the first class of a source another name or base. Gives the source and the name of the
class. -/
def adaptClass (source : String) (rename base : Option String) : Except Fault (String × String) :=
  match Header.adaptClass? source.toList (rename.map String.toList) (base.map String.toList) with
  | some (adapted, name) => .ok (String.ofList adapted, String.ofList name)
  | none => .error .missingClassHeader

def registration (tag name : String) :
    String := "window.customElements.define(\"" ++ tag ++ "\", " ++ name ++ ");"

/-- Make a script of one function run where it is loaded. -/
def autoexec (script : String) : String :=
  match script.toList.reverse with
  | [] => ""
  | '\n' :: rest => "\n(" ++ String.ofList rest.reverse ++ ")();\n"
  | _ => "\n(" ++ script ++ ")();\n"

namespace Component

def unlocated {α : Type} : Except Fault α → Except Diagnostic α := Except.mapError Fault.report

def compile (width : Nat) (binder : Binder) : Component → Except Diagnostic (List String × Binder)
  | .function source none => do
    let (units, binder) ← Session.compile width binder source .module
    return ([UnitText.joined units], binder)
  | .function source (some name) => do
    let source ← unlocated (renameFunction source name)
    let (units, binder) ← Session.compile width binder source (.callable name)
    return ([UnitText.joined units], binder)
  | .hook owner event source => do
    if !hookNames.contains event then throw (Fault.unknownHook event hookNames).report
    let name := owner ++ "_" ++ event
    let source ← unlocated (renameFunction source name)
    let (units, binder) ← Session.compile width binder source (.callable name)
    return ([UnitText.joined units], binder)
  | .element source base rename tag => do
    let (source, name) ← unlocated (adaptClass source rename base)
    let (units, binder) ← Session.compile width binder source .module
    return (UnitText.joined units :: (tag.map (registration · name)).toList, binder)

end Component

structure Bundle where
  /-- The parts, each with its own context if it has one. -/
  components : List (Component × Option Binding)
  context : Option Binding

namespace Bundle

def compileAll (width : Nat) (context : Option Binding) (binder : Binder) :
    List (Component × Option Binding) → Except Diagnostic (List String)
  | [] => .ok []
  | (component, own) :: rest => do
    let (parts, binder) ← component.compile width (binder.rebind (own.orElse fun _ => context))
    return parts ++ (← compileAll width context binder rest)

def compile (b : Bundle) (options : Options) : Except Diagnostic String := do
  let parts ← (compileAll options.indentWidth b.context
      (.ofBinding b.context) b.components).mapError
    (·.inFile options.fileName)
  verified options ("\n".intercalate parts)

end Bundle

end ScriptCompiler
