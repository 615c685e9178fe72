import ScriptCompiler.Diagnostic.Fault

/-!
# The output buffer

Lines of a script are written one after the other, each behind the indentation of the current depth.
A line can be reserved, so that its text is decided after the lines that follow it.
-/

namespace ScriptCompiler

/-- A reserved line: its index and the depth it was reserved at. -/
structure LineMark where
  index : Nat
  depth : Nat
deriving DecidableEq, Repr

/-- Lines written so far; a reserved line that has no text yet is `none`. -/
structure Buffer where
  lines : Array (Option String)
  depth : Nat
  width : Nat
deriving DecidableEq, Repr

namespace Buffer

def empty (width : Nat) : Buffer := { lines := #[], depth := 0, width := width }

def defaultWidth : Nat := 4

def spaces (count : Nat) : String := String.ofList (List.replicate count ' ')

def unit (b : Buffer) : String := spaces b.width

def indentationAt (b : Buffer) (depth : Nat) : String := spaces (depth * b.width)

def indentation (b : Buffer) : String := b.indentationAt b.depth

def write (b : Buffer) (line : String) : Buffer :=
  { b with lines := b.lines.push (some (b.indentation ++ line)) }

def indent (b : Buffer) : Buffer := { b with depth := b.depth + 1 }

def dedent (b : Buffer) : Buffer := { b with depth := b.depth - 1 }

def reserve (b : Buffer) : LineMark × Buffer :=
  (⟨b.lines.size, b.depth⟩, { b with lines := b.lines.push none })

/-- Give a reserved line its text, at the depth it was reserved at. -/
def patch (b : Buffer) (mark : LineMark) (line : String) : Buffer :=
  { b with lines := b.lines.setIfInBounds mark.index (some (b.indentationAt mark.depth ++ line)) }

def texts (b : Buffer) : List String := b.lines.toList.filterMap id

def lastLine? (b : Buffer) : Option String := b.texts.getLast?

def isEmpty (b : Buffer) : Bool := b.lines.isEmpty

/-- All lines that have a text, each with a line feed. -/
def read (b : Buffer) : String := String.join (b.texts.map (· ++ "\n"))

/-- The text of a finished unit: the depth is back at zero and no reserved line lacks its text. -/
def finish (b : Buffer) : Except Fault String :=
  if b.depth ≠ 0 then .error (.unbalancedIndentation b.depth)
  else match b.lines.toList.findIdx? (·.isNone) with
    | some index => .error (.unpatchedLine index)
    | none => .ok b.read

end Buffer

end ScriptCompiler
