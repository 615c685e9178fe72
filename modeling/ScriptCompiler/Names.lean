/-!
# Names

Some identifiers are spelled differently in a script, and some name functions and classes that a
helper object provides. A name is respelled first and looked up among the provided names afterwards.
-/

namespace ScriptCompiler.Names

/-- The object through which provided names are reached. -/
def helper : String := "py_builtins"

/-- Identifiers with a spelling of their own in scripts. The helper object itself cannot be
named. -/
def reserved : List (String × String) := [
  ("self", "this"),
  ("True", "true"),
  ("False", "false"),
  ("None", "null"),
  ("int", "_int"),
  ("float", "_float"),
  ("super", "_super"),
  ("print", "console.log"),
  ("py_builtins", "___py_hard_to_collide")]

/-- The names that the helper object provides. -/
def provided : List String := [
  "NotImplementedError", "ZeroDivisionError", "AssertionError", "AttributeError", "RuntimeError",
  "ImportError",
  "TypeError", "ValueError", "NameError", "IndexError", "KeyError", "StopIteration", "_int",
  "_float", "max", "min", "sum"]

def respelled? (name : String) : Option String := reserved.lookup name

def isProvided (name : String) : Bool := provided.contains name

/-- An identifier as it is written in a script when a scope binds it. -/
def variableName (name : String) : String := (respelled? name).getD name

/-- An identifier as it is written in a script when neither a scope nor the context binds it. -/
def spell (name : String) : String :=
  let name := variableName name
  if isProvided name then helper ++ "." ++ name else name

end ScriptCompiler.Names
