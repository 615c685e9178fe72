/-!
# Scopes

Names are bound in frames, one for each function, lambda or comprehension around the current place.
The outermost frame, that of the module, is never left.
-/

namespace ScriptCompiler

/-- Whether binding a name made it known in its frame. -/
inductive Declaration where
  | fresh | reused
deriving DecidableEq, Repr

/-- The frames around the current place, each a set of names. -/
structure Scopes where
  current : List String
  outer : List (List String)
deriving DecidableEq, Repr

namespace Scopes

def empty : Scopes := { current := [], outer := [] }

def push (s : Scopes) : Scopes := { current := [], outer := s.current :: s.outer }

/-- Leave the innermost frame, unless it is that of the module. -/
def pop (s : Scopes) : Scopes :=
  match s.outer with
  | [] => s
  | frame :: outer => { current := frame, outer := outer }

def depth (s : Scopes) : Nat := s.outer.length + 1

def isDeclaredHere (s : Scopes) (name : String) : Bool := s.current.contains name

def isBound (s : Scopes) (name : String) : Bool :=
  s.current.contains name || s.outer.any (·.contains name)

def register (s : Scopes) (name : String) : Scopes :=
  if s.isDeclaredHere name then s else { s with current := name :: s.current }

/-- Bind a name in the innermost frame and tell whether it was bound there before. Outer frames do
not matter: an assignment in a function makes a local name. -/
def declare (s : Scopes) (name : String) : Declaration × Scopes :=
  (if s.isDeclaredHere name then .reused else .fresh, s.register name)

def registerAll (s : Scopes) (names : List String) : Scopes := names.foldl register s

end Scopes

end ScriptCompiler
