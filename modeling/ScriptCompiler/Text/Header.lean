import ScriptCompiler.Text.Blank
import ScriptCompiler.Text.Identifier

/-!
# Headers of units

Functions and classes are found in source text by the line that opens them: `def` or `class` after
nothing but blanks. The search is textual, so that it works on text that is not a program yet. Names
in headers are plain identifiers.
-/

namespace ScriptCompiler.Header

/-- Blanks between the words of a header that stands on one line. -/
def isInline (c : Char) : Bool := isIndentation c

/-- Drop a word and at least one of the given blanks after it. -/
def afterWord? (isGap : Char → Bool) (word : String) (cs : List Char) : Option (List Char) :=
  let w := word.toList
  if w.isPrefixOf cs then
    let rest := cs.drop w.length
    if rest.head?.any isGap then some (rest.dropWhile isGap) else none
  else none

/-- The name after an optional `async` and a `def`, at the front of a text, and what follows it. -/
def functionName? (isGap : Char → Bool) (cs : List Char) : Option (List Char × List Char) := do
  let cs := cs.dropWhile isGap
  let cs := (afterWord? isGap "async" cs).getD cs
  let cs ← afterWord? isGap "def" cs
  Identifier.splitPlain? cs

/-- The first line start at which `find` gives something. `atStart` tells whether the text starts a
line. -/
def searchLines {α : Type} (find : List Char → Option α) : Bool → List Char → Option (List Char × α)
  | atStart, [] =>
    if atStart then (find []).map (fun a => ([], a)) else none
  | atStart, c :: rest =>
    match if atStart then find (c :: rest) else none with
    | some a => some ([], a)
    | none => (searchLines find (c = '\n') rest).map (fun (before, a) => (c :: before, a))

/-- The name of the first function that a text defines. Any blanks may separate the words, line
breaks too. -/
def firstFunctionName? (text : List Char) : Option (List Char) :=
  (searchLines (functionName? isBlank) true text).map (fun p => p.2.1)

/-- A header found on a line: the text before its name, the name, and the text after it. -/
structure Found where
  before : List Char
  name : List Char
  after : List Char

/-- The part of a text before what is left of it. -/
def consumed (cs left : List Char) : List Char := cs.take (cs.length - left.length)

def functionHeader? (line : List Char) : Option Found := do
  let (name, after) ← functionName? isInline line
  return { before := (consumed line after).take ((consumed line after).length - name.length)
           name := name, after := after }

/-- Replace the name of the first function that a text defines; none if it defines no function. -/
def renameFunction? (text name : List Char) : Option (List Char) := do
  let (lead, header) ← searchLines functionHeader? true text
  return lead ++ header.before ++ name ++ header.after

/-- The header of a class: what precedes its name, the name, its bases with their parentheses, and
what follows the colon. -/
structure ClassHeader where
  before : List Char
  name : List Char
  bases : List Char
  after : List Char

/-- The bases at the front of a text, up to the first closing parenthesis, and what follows. -/
def splitBases? : List Char → Option (List Char × List Char)
  | '(' :: rest =>
    let inner := rest.takeWhile (· ≠ ')')
    match rest.dropWhile (· ≠ ')') with
    | _ :: after => some ('(' :: inner ++ [')'], after)
    | [] => none
  | _ => none

/-- What follows blanks and a colon. -/
def afterColon? (cs : List Char) : Option (List Char) :=
  match cs.dropWhile isInline with
  | ':' :: after => some after
  | _ => none

def classHeader? (line : List Char) : Option ClassHeader := do
  let cs ← afterWord? isInline "class" (line.dropWhile isInline)
  let (name, rest) ← Identifier.splitPlain? cs
  let before := consumed line cs
  let rest := rest.dropWhile isInline
  let withBases := do
    let (bases, rest) ← splitBases? rest
    let after ← afterColon? rest
    return { before := before, name := name, bases := bases, after := after : ClassHeader }
  withBases.orElse (fun _ => do
    let after ← afterColon? rest
    return { before := before, name := name, bases := [], after := after })

/-- Give the first class of a text another name or other bases. Gives the text and the name the
class has then; none if there is no class. -/
def adaptClass? (text : List Char) (rename base : Option (List Char)) :
    Option (List Char × List Char) := do
  let (lead, header) ← searchLines classHeader? true text
  let name := rename.getD header.name
  let bases := match base with
    | some b => '(' :: b ++ [')']
    | none => header.bases
  return (lead ++ header.before ++ name ++ bases ++ ':' :: header.after, name)

end ScriptCompiler.Header
