import ScriptCompiler.Context.Value

/-!
# Bindings

The names that a context gives a value to.
-/

namespace ScriptCompiler

/-- Values of names, sorted by name. -/
structure Binding where
  values : List (String × ContextValue)
deriving Inhabited

namespace Binding

def empty : Binding := ⟨[]⟩

def get? (b : Binding) (name : String) : Option ContextValue := b.values.lookup name

def isEmpty (b : Binding) : Bool := b.values.isEmpty

def insert (b : Binding) (name : String) (value : ContextValue) : Binding :=
  ⟨insertSorted name value b.values⟩

/-- Read a binding from an object, or an empty one from null. -/
def ofJson (j : Json) : ContextReader Binding :=
  match j.normalize with
  | .object entries => return ⟨← ContextReader.readEntries (fun _ => false) entries⟩
  | .null => return .empty
  | _ => throw .contextNotObject

def ofText (text : String) : ContextReader Binding :=
  match Json.parse? text with
  | some j => ofJson j
  | none => throw .contextNotJson

end Binding

end ScriptCompiler
