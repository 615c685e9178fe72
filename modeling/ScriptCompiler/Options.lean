import ScriptCompiler.Emit.Buffer
import ScriptCompiler.Json.Record

/-!
# Options

How a unit is compiled. Options are read from JSON strictly: a known key may occur once and must
have a value of its type, and keys that are not known are ignored.
-/

namespace ScriptCompiler

structure Options where
  /-- The file that diagnostics name. -/
  fileName : String := "<source>"
  indentWidth : Nat := Buffer.defaultWidth
  /-- Whether the output must be a script module. -/
  verifyOutput : Bool := false
deriving DecidableEq, Repr, Inhabited

namespace Options

def keys : List String := ["fileName", "indentWidth", "verifyOutput"]

/-- Set the option of a key; none if the value has another type. Other keys are ignored. -/
def set? (o : Options) (key : String) (value : Json) : Option Options :=
  match key with
  | "fileName" => value.string?.map fun s => { o with fileName := s }
  | "indentWidth" => value.natural?.map fun n => { o with indentWidth := n }
  | "verifyOutput" => value.bool?.map fun b => { o with verifyOutput := b }
  | _ => some o

def setAll? (o : Options) : List (String × Json) → Option Options
  | [] => some o
  | (key, value) :: rest => do setAll? (← o.set? key value) rest

/-- Read options from an object, or from an array that lists them in order. Options that are left
out have their defaults. -/
def ofJson? : Json → Option Options
  | .object entries =>
    let known := (entries.map (·.1)).filter keys.contains
    if known.Nodup then setAll? {} entries else none
  | .array items => if items.length ≤ keys.length then setAll? {} (keys.zip items) else none
  | _ => none

def ofText? (text : String) : Option Options := (Json.parseRecord? keys text).bind ofJson?

def toJson (o : Options) : Json :=
  .object [("fileName", .string o.fileName), ("indentWidth", .integer o.indentWidth),
    ("verifyOutput", .bool o.verifyOutput)]

end Options

end ScriptCompiler
