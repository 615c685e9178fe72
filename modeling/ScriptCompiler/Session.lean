import ScriptCompiler.Lowering.EntryPoint
import ScriptCompiler.Syntax.Program
import ScriptCompiler.Text.Dedent

/-!
# Sessions

A session compiles sources that share one binder. The callables that a source refers to are compiled
after it and written before it, each at its first reference in the session, so that every function
is defined ahead of its use.
-/

namespace ScriptCompiler

mutual

def ContextValue.callableCount : ContextValue → Nat
  | .list items => callableCounts items
  | .map entries | .object _ entries => entryCallableCounts entries
  | .callable _ _ => 1
  | _ => 0

def callableCounts : List ContextValue → Nat
  | [] => 0
  | v :: rest => v.callableCount + callableCounts rest

def entryCallableCounts : List (String × ContextValue) → Nat
  | [] => 0
  | (_, v) :: rest => v.callableCount + entryCallableCounts rest

end

def Binding.callableCount (b : Binding) : Nat := entryCallableCounts b.values

/-- The text of a unit, with the callable that it was made from unless it is the unit that was asked
for. -/
structure UnitText where
  extraction : Option Extraction
  text : String

def UnitText.joined (units : List UnitText) : String := String.join (units.map (·.text))

namespace Session

def parse (source : String) : Except Diagnostic (List Stmt) :=
  let text := Dedent.dedentChars source.toList
  match parseProgram? text with
  | some program => .ok program
  | none => .error (syntaxReport text)

/-- Lower one source by itself. The callables that it refers to wait in the binder. -/
def lower (width : Nat) (binder : Binder) (source : String) (entry : EntryPoint) :
    Except Diagnostic (String × Binder) := do
  let program ← parse source
  match (Lowering.program program entry).run (.start binder width) with
  | .error d _ => throw d
  | .ok _ state =>
    match state.buffer.finish with
    | .ok text => return (text, state.binder)
    | .error f => throw f.report

/-- Compile callables in order, each marked as in progress meanwhile. -/
def extractAll (compileOne : Binder → Extraction → Except Diagnostic (List UnitText × Binder))
    (binder : Binder) : List Extraction → Except Diagnostic (List UnitText × Binder)
  | [] => .ok ([], binder)
  | e :: rest => do
    let (units, binder) ← compileOne (binder.beginExtraction e.identity) e
    let (more, binder) ← extractAll compileOne (binder.endExtraction e.identity) rest
    return (units ++ more, binder)

/-- Compile a source and the callables that it refers to. A callable may refer to others; `depth`
bounds how often. -/
def compileSource (width : Nat) : Nat → Binder → String → EntryPoint → Option Extraction →
    Except Diagnostic (List UnitText × Binder)
  | 0, _, _, _, _ => .error Fault.extractionTooDeep.report
  | depth + 1, binder, source, entry, extraction => do
    let (text, binder) ← lower width binder source entry
    let (pending, binder) := binder.takePending
    let compileOne := fun binder (e : Extraction) =>
      compileSource width depth binder e.callable.source (.callable e.name) (some e)
    let (units, binder) ← extractAll compileOne binder pending
    return (units ++ [⟨extraction, text⟩], binder)

/-- Compile a source against the binding of a binder. A chain of references has at most as many
callables as the binding leads to. -/
def compile (width : Nat) (binder : Binder) (source : String) (entry : EntryPoint) :
    Except Diagnostic (List UnitText × Binder) :=
  let callables := (binder.binding.map Binding.callableCount).getD 0
  compileSource width (callables + 1) binder source entry none

end Session

end ScriptCompiler
