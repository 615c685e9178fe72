/-!
# JSON values

Numbers come in two forms: integers from `-2 ^ 63` up to below `2 ^ 64`, and floating-point numbers
for all others. Members of an object stand in the order of the text; `Json.members` gives them
sorted by key, the last of equal keys alone.
-/

namespace ScriptCompiler

inductive Json where
  | null
  | bool (value : Bool)
  | integer (value : Int)
  | float (value : Float)
  | string (value : String)
  | array (items : List Json)
  | object (entries : List (String × Json))
deriving Inhabited

/-- Insert into a list sorted by key, replacing an entry of the same key. -/
def insertSorted {α : Type} (key : String) (value : α) : List (String × α) → List (String × α)
  | [] => [(key, value)]
  | (k, v) :: rest =>
    if key = k then (key, value) :: rest
    else if key < k then (key, value) :: (k, v) :: rest
    else (k, v) :: insertSorted key value rest

/-- Entries sorted by key, the last of equal keys alone. -/
def sortEntries {α : Type} (entries : List (String × α)) : List (String × α) :=
  entries.foldl (fun sorted e => insertSorted e.1 e.2 sorted) []

namespace Json

/-- The entries of an object, sorted by key, the last of equal keys alone; none for other values. -/
def members? : Json → Option (List (String × Json))
  | .object entries => some (sortEntries entries)
  | _ => none

/-- The member of an object under a key, the last one if there are several. -/
def get? (j : Json) (key : String) : Option Json :=
  match j with
  | .object entries => (entries.reverse.find? (fun e => e.1 == key)).map (·.2)
  | _ => none

def string? : Json → Option String
  | .string s => some s
  | _ => none

def bool? : Json → Option Bool
  | .bool b => some b
  | _ => none

/-- An integer from zero up to below `2 ^ 64`. -/
def natural? : Json → Option Nat
  | .integer n => if 0 ≤ n then some n.toNat else none
  | _ => none

def array? : Json → Option (List Json)
  | .array items => some items
  | _ => none

end Json

end ScriptCompiler
