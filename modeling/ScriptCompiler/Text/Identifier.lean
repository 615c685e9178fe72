import ScriptCompiler.Text.IdentifierRanges

/-!
# Identifiers

An identifier starts with an underscore or a letter in the sense of XID_Start and goes on with
characters of XID_Continue. `Plain` identifiers, of ASCII letters, digits and underscores, are what
headers of units are searched for.
-/

namespace ScriptCompiler.Identifier

/-- Whether a number lies in a run of a table, and not in a gap. -/
def inRuns : List Nat → Nat → Bool
  | gap :: run :: rest, n => gap ≤ n && (n - gap < run || inRuns rest (n - gap - run))
  | _, _ => false

def isStart (c : Char) : Bool :=
  c.isAlpha || c = '_' || (0x80 ≤ c.toNat && inRuns startRuns (c.toNat - 0x80))

def isContinue (c : Char) : Bool :=
  c.isAlphanum || c = '_'
    || (0x80 ≤ c.toNat &&
        (inRuns startRuns (c.toNat - 0x80) || inRuns continueRuns (c.toNat - 0x80)))

def split? : List Char → Option (List Char × List Char)
  | [] => none
  | c :: rest =>
    if isStart c then some (c :: rest.takeWhile isContinue, rest.dropWhile isContinue) else none

def isPlainStart (c : Char) : Bool := c.isAlpha || c = '_'

def isPlainContinue (c : Char) : Bool := c.isAlphanum || c = '_'

def splitPlain? : List Char → Option (List Char × List Char)
  | [] => none
  | c :: rest =>
    if isPlainStart c then some (c :: rest.takeWhile isPlainContinue,
      rest.dropWhile isPlainContinue)
    else none

end ScriptCompiler.Identifier
