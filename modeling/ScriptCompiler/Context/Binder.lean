import ScriptCompiler.Context.Binding

/-!
# The binder

A binder resolves names against a binding and remembers, over all units of a session, which
callables have been referred to: each gets one generated name and is handed out once, to be compiled
into a function of that name.
-/

namespace ScriptCompiler

/-- What a value of the context becomes in a script. -/
inductive Resolution where
  | literal (text : String)
  | reference (name : String)
  /-- The value has no text of its own. -/
  | unresolved
deriving DecidableEq, Repr

/-- A callable that waits to be compiled under its generated name. -/
structure Extraction where
  identity : Nat
  name : String
  callable : Callable
deriving DecidableEq, Repr

structure Binder where
  binding : Option Binding
  /-- The generated names of the callables referred to so far, the latest first. -/
  names : List (Nat × String)
  inProgress : List Nat
  /-- The callables not yet handed out, in the order of their first reference. -/
  pending : List Extraction

namespace Binder

def ofBinding (binding : Option Binding) : Binder :=
  { binding := binding, names := [], inProgress := [], pending := [] }

/-- Resolve names against another binding from now on. What is known of callables is kept. -/
def rebind (b : Binder) (binding : Option Binding) : Binder := { b with binding := binding }

def hasBinding (b : Binder) : Bool := b.binding.any fun binding => !binding.isEmpty

def lookup (b : Binder) (name : String) : Option ContextValue := b.binding.bind (·.get? name)

/-- An attribute of a value. Only objects have attributes, and an object must have the one that is
asked for. -/
def attributeOf? (value : ContextValue) (key : String) : Except Fault (Option ContextValue) :=
  match value with
  | .object name attributes =>
    match attributes.lookup key with
    | some v => .ok (some v)
    | none => .error (.missingAttribute name key)
  | _ => .ok none

/-- The candidates for a generated name: the name itself, then with a number from two on. -/
def candidate (base : String) (index : Nat) : String :=
  if index = 0 then base else base ++ "_" ++ toString (index + 1)

/-- The first candidate from `index` on that is not taken; `fuel` bounds the search. -/
def freshFrom (taken : List String) (base : String) : Nat → Nat → String
  | 0, index => candidate base index
  | fuel + 1, index =>
    if taken.contains (candidate base index) then freshFrom taken base fuel
      (index + 1) else candidate base index

/-- The first candidate that is not taken. Among one more candidates than there are taken names one
is free. -/
def freshName (taken : List String) (base : String) : String := freshFrom taken base taken.length 0

def baseName (callable : Callable) (access : String) (owner : Option String) : String :=
  match callable.owner.orElse (fun _ => owner) with
  | some o => o ++ "_" ++ access
  | none => access

/-- The generated name of a callable. The first reference chooses it and puts the callable among
those that wait. -/
def schedule (b : Binder) (identity : Nat) (callable : Callable) (access : String)
    (owner : Option String) : Except Fault (String × Binder) :=
  if b.inProgress.contains identity then .error (.cyclicCallable callable.name)
  else match b.names.lookup identity with
    | some name => .ok (name, b)
    | none =>
      let name := freshName (b.names.map (·.2)) (baseName callable access owner)
      .ok (name, { b with
        names := (identity, name) :: b.names
        pending := b.pending ++ [⟨identity, name, callable⟩] })

/-- What a value becomes. `access` is the name that it was reached by and `owner` the object that it
was read from. -/
def render (b : Binder) (value : ContextValue) (access : String) (owner : Option String) :
    Except Fault (Resolution × Binder) :=
  match value with
  | .callable identity callable =>
    (b.schedule identity callable access owner).map fun (name, b) => (.reference name, b)
  | value =>
    match value.literal? with
    | some text => .ok (.literal text, b)
    | none => .ok (.unresolved, b)

def takePending (b : Binder) : List Extraction × Binder := (b.pending, { b with pending := [] })

def beginExtraction (b : Binder) (identity : Nat) : Binder :=
  { b with inProgress := if b.inProgress.contains identity then b.inProgress else identity ::
    b.inProgress }

def endExtraction (b : Binder) (identity : Nat) : Binder :=
  { b with inProgress := b.inProgress.filter (· != identity) }

end Binder

end ScriptCompiler
