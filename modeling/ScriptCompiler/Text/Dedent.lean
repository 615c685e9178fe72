import ScriptCompiler.Text.Blank

/-!
# Common indentation

Source cut out of an indented place is moved to the left margin before it is read: the indentation
that all of its lines share is removed. Blank lines do not count towards what is shared and lose all
of theirs.
-/

namespace ScriptCompiler.Dedent

/-- The lines of a text, each with the line feed that ends it. -/
def lines : List Char → List (List Char)
  | [] => []
  | c :: rest =>
    if c = '\n' then [c] :: lines rest
    else match lines rest with
      | [] => [[c]]
      | line :: more => (c :: line) :: more

def isBlankLine (line : List Char) : Bool := line.all isBlank

def indentation (line : List Char) : Nat := (line.takeWhile isIndentation).length

/-- The least indentation of the lines that are not blank, and zero if all are blank. -/
def shared (ls : List (List Char)) : Nat :=
  match (ls.filter (fun line => !isBlankLine line)).map indentation with
  | [] => 0
  | n :: ns => ns.foldl min n

/-- Remove `width` blanks of indentation, or all of them from a blank line. -/
def strip (width : Nat) (line : List Char) : List Char :=
  if isBlankLine line then line.dropWhile isIndentation else line.drop width

/-- Move a text to the left margin. A text with a line at the margin already stays as it is. -/
def dedentChars (text : List Char) : List Char :=
  let ls := lines text
  let width := shared ls
  if width = 0 then text else (ls.map (strip width)).flatten

end ScriptCompiler.Dedent

namespace ScriptCompiler

def dedent (text : String) : String := String.ofList (Dedent.dedentChars text.toList)

end ScriptCompiler
