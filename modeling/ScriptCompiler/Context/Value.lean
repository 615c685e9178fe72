import ScriptCompiler.Diagnostic.Fault
import ScriptCompiler.Json.Reader
import ScriptCompiler.Text.Header

/-!
# Context values

Values that a caller supplies for names of a program. Plain data is written into the script as a
literal, callables are compiled into functions of their own, and objects are only good for their
attributes.
-/

namespace ScriptCompiler

structure Callable where
  name : String
  /-- The class, or whatever else, that the function belongs to. -/
  owner : Option String
  source : String
deriving DecidableEq, Repr

/-- The callable of a source, named for the first function it defines. -/
def Callable.ofSource (source : String) : Except Fault Callable :=
  match Header.firstFunctionName? source.toList with
  | some name => .ok { name := String.ofList name, owner := none, source := source }
  | none => .error .callableWithoutFunction

/-- A value of a context. Each callable has an identity: two callables may have the same source and
still be two. -/
inductive ContextValue where
  | null
  | bool (value : Bool)
  | integer (value : Int)
  | float (value : Float)
  | string (value : String)
  | list (items : List ContextValue)
  | map (entries : List (String × ContextValue))
  | callable (identity : Nat) (callable : Callable)
  | object (name : String) (attributes : List (String × ContextValue))
deriving Inhabited

namespace ContextValue

/-- The least integer that is not read as a floating-point number. -/
def leastInteger : Int := -0x8000000000000000

/-- The greatest integer that is not read as a floating-point number. -/
def greatestInteger : Int := 0x7FFFFFFFFFFFFFFF

def ofInteger (n : Int) : ContextValue :=
  if leastInteger ≤ n ∧ n ≤ greatestInteger then .integer n else .float (Float.ofInt n)

mutual

/-- The text of plain data as a literal; none if it holds a callable or an object. -/
def literal? : ContextValue → Option String
  | .null => some "null"
  | .bool b => some (if b then "true" else "false")
  | .integer n => some (toString n)
  | .float x => some (Decimal.ofFloat x)
  | .string s => some (Json.quote s)
  | .list items => (literals? items).map fun parts => "[" ++ ", ".intercalate parts ++ "]"
  | .map entries => (entryLiterals? entries).map fun parts =>
    "\x7b" ++ ", ".intercalate parts ++ "\x7d"
  | .callable _ _ | .object _ _ => none

def literals? : List ContextValue → Option (List String)
  | [] => some []
  | v :: rest => do return (← literal? v) :: (← literals? rest)

def entryLiterals? : List (String × ContextValue) → Option (List String)
  | [] => some []
  | (k, v) :: rest => do return (Json.quote k ++ ": " ++ (← literal? v)) :: (← entryLiterals? rest)

end

end ContextValue

namespace Json

mutual

/-- The same value with the members of each object sorted by key, the last of equal keys alone. -/
def normalize : Json → Json
  | .array items => .array (normalizeItems items)
  | .object entries => .object (sortEntries (normalizeEntries entries))
  | j => j

def normalizeItems : List Json → List Json
  | [] => []
  | j :: rest => normalize j :: normalizeItems rest

def normalizeEntries : List (String × Json) → List (String × Json)
  | [] => []
  | (k, j) :: rest => (k, normalize j) :: normalizeEntries rest

end

end Json

/-- Reading a context numbers its callables. -/
abbrev ContextReader := StateT Nat (Except Fault)

namespace ContextReader

def freshIdentity : ContextReader Nat := modifyGet fun n => (n, n + 1)

def sourceKey : String := "$source"

def objectKey : String := "$object"

/-- A callable from its source and the entries beside it, which may name it and its owner. -/
def callable (source : Json) (entries : List (String × Json)) : ContextReader ContextValue :=
  match source with
  | .string text => do
    let read ← Callable.ofSource text
    let name := ((entries.lookup "$name").bind Json.string?).getD read.name
    let owner := (entries.lookup "$owner").bind Json.string?
    return .callable (← freshIdentity) { read with name := name, owner := owner }
  | _ => throw .callableNotText

mutual

def readValue : Json → ContextReader ContextValue
  | .null => return .null
  | .bool b => return .bool b
  | .integer n => return .ofInteger n
  | .float x => return .float x
  | .string s => return .string s
  | .array items => return .list (← readItems items)
  | .object entries =>
    match entries.lookup sourceKey with
    | some source => callable source entries
    | none =>
      match entries.lookup objectKey with
      | some name => do
        return .object (name.string?.getD "") (← readEntries (· == objectKey) entries)
      | none => return .map (← readEntries (fun _ => false) entries)

def readItems : List Json → ContextReader (List ContextValue)
  | [] => return []
  | j :: rest => return (← readValue j) :: (← readItems rest)

def readEntries (leftOut : String → Bool) :
    List (String × Json) → ContextReader (List (String × ContextValue))
  | [] => return []
  | (k, j) :: rest => do
    if leftOut k then readEntries leftOut rest
    else return (k, ← readValue j) :: (← readEntries leftOut rest)

end

end ContextReader

def ContextValue.ofJson (j : Json) :
    ContextReader ContextValue := ContextReader.readValue j.normalize

end ScriptCompiler
