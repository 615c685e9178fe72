import ScriptCompiler.Context.Binder
import ScriptCompiler.Emit.Buffer
import ScriptCompiler.Emit.Scope
import ScriptCompiler.Syntax.Kind

/-!
# The state of a lowering

A unit is lowered by writing lines to a buffer while names are bound in scopes. The binder is shared
with the other units of a session; everything else belongs to the unit alone.

A lowering is a tree of changes of that state, so that besides its result also the way there can be
spoken of. A lowering that fails leaves the state as it was at the point of failure, except for what
is put in order in any case.
-/

namespace ScriptCompiler

structure LoweringState where
  buffer : Buffer
  scopes : Scopes
  binder : Binder
  /-- The number of synthesized names so far. -/
  temporaries : Nat
  /-- The number of dictionaries on several lines around the current expression. -/
  dictNesting : Nat
  className : Option String

def LoweringState.start (binder : Binder) (width : Nat) : LoweringState :=
  { buffer := .empty width, scopes := .empty, binder := binder, temporaries := 0, dictNesting := 0,
    className := none }

inductive Change where
  | write (line : String)
  | indent
  | dedent
  | reserve
  | patch (mark : LineMark) (line : String)
  | pushFrame
  | popFrame
  | register (name : String)
  | synthesize
  | enterDict
  | leaveDict
  | setClass (className : Option String)
  | setBinder (binder : Binder)

namespace Change

def apply : Change → LoweringState → LoweringState
  | write line, s => { s with buffer := s.buffer.write line }
  | indent, s => { s with buffer := s.buffer.indent }
  | dedent, s => { s with buffer := s.buffer.dedent }
  | reserve, s => { s with buffer := s.buffer.reserve.2 }
  | patch mark line, s => { s with buffer := s.buffer.patch mark line }
  | pushFrame, s => { s with scopes := s.scopes.push }
  | popFrame, s => { s with scopes := s.scopes.pop }
  | register name, s => { s with scopes := s.scopes.register name }
  | synthesize, s => { s with temporaries := s.temporaries + 1 }
  | enterDict, s => { s with dictNesting := s.dictNesting + 1 }
  | leaveDict, s => { s with dictNesting := s.dictNesting - 1 }
  | setClass className, s => { s with className := className }
  | setBinder binder, s => { s with binder := binder }

def applyAll (changes : List Change) (s : LoweringState) :
    LoweringState := changes.foldl (fun s c => c.apply s) s

end Change

/-- What a lowering does: it looks at the state and changes it until it is done or fails. -/
inductive Lowering (α : Type) where
  | done (a : α)
  | fail (d : Diagnostic)
  | look (next : LoweringState → Lowering α)
  | change (c : Change) (next : Lowering α)

namespace Lowering

variable {α β : Type}

protected def bind : Lowering α → (α → Lowering β) → Lowering β
  | done a, f => f a
  | fail d, _ => fail d
  | look next, f => look fun s => (next s).bind f
  | change c next, f => change c (next.bind f)

instance : Monad Lowering where
  pure := done
  bind := Lowering.bind

def run : Lowering α → LoweringState → EStateM.Result Diagnostic LoweringState α
  | done a, s => .ok a s
  | fail d, s => .error d s
  | look next, s => (next s).run s
  | change c next, s => next.run (c.apply s)

/-- The changes that a lowering makes from a state, each with the state that it is made in. -/
def trace : Lowering α → LoweringState → List (LoweringState × Change)
  | done _, _ | fail _, _ => []
  | look next, s => (next s).trace s
  | change c next, s => (s, c) :: next.trace (c.apply s)

def get : Lowering LoweringState := look done

def perform (c : Change) : Lowering Unit := change c (done ())

/-- Make changes after a result or a failure. -/
def finishing (changes : List Change) (m : Lowering α) : Lowering α := changes.foldr change m

/-- Run an action and make changes after it, whether it fails or not. -/
def ensuring (changes : List Change) : Lowering α → Lowering α
  | done a => finishing changes (done a)
  | fail d => finishing changes (fail d)
  | look next => look fun s => (next s).ensuring changes
  | change c next => change c (next.ensuring changes)

def refuse (construct : String) (pos : Position) : Lowering α := fail (.unsupported construct pos)

def refuseKind (kind : NodeKind) (pos : Position) : Lowering α := refuse kind.construct pos

def locate (pos : Position) : Except Fault α → Lowering α
  | .ok a => pure a
  | .error f => fail (f.reportAt pos)

def write (line : String) : Lowering Unit := perform (.write line)

/-- Write the lines of an action one level deeper. -/
def indented (inner : Lowering Unit) : Lowering Unit := do
  perform .indent
  inner
  perform .dedent

def reserve : Lowering LineMark := do
  let s ← get
  perform .reserve
  return s.buffer.reserve.1

def patch (mark : LineMark) (line : String) : Lowering Unit := perform (.patch mark line)

def register (name : String) : Lowering Unit := perform (.register name)

def declare (name : String) : Lowering Declaration := do
  let s ← get
  register name
  return (s.scopes.declare name).1

def inFrame (inner : Lowering α) : Lowering α := do
  perform .pushFrame
  ensuring [.popFrame] inner

/-- A synthesized name that the unit has not used before. -/
def temporary (stem : String) : Lowering String := do
  let s ← get
  perform .synthesize
  return "__" ++ stem ++ toString s.temporaries ++ "__"

def nested (inner : Lowering α) : Lowering α := do
  perform .enterDict
  ensuring [.leaveDict] inner

def inClass (className : Option String) (inner : Lowering Unit) : Lowering Unit := do
  let s ← get
  perform (.setClass className)
  ensuring [.setClass s.className] inner

def isFree (name : String) : Lowering Bool := do
  let s ← get
  return !s.scopes.isBound name && (s.binder.lookup name).isNone

/-- What a value of the context becomes at a place: its literal, or the name of the function made
from it. -/
def render (pos : Position) (value : ContextValue) (access : String) (owner : Option String) :
    Lowering (Option String) := do
  let s ← get
  let (resolution, binder) ← locate pos (s.binder.render value access owner)
  perform (.setBinder binder)
  match resolution with
  | .literal text | .reference text => return some text
  | .unresolved => return none

end Lowering

end ScriptCompiler
