import ScriptCompiler.Literal.Escape
import ScriptCompiler.Literal.Quoted

/-!
# String tokens

A string token is a run of letters, an opening quote of one or three characters, a body and the
closing quote. The letters tell whether the body is raw, holds bytes, or is a format string. A token
without quote is malformed. The ends of the body are counted in bytes; in a token that is not closed
as it is opened, the body may end inside a character.
-/

namespace ScriptCompiler.Literal

/-- What the letters before the opening quote say. -/
structure StringFlags where
  raw : Bool
  bytes : Bool
  format : Bool
deriving DecidableEq, Repr

/-- Upper and lower case letters mean the same and may repeat; other letters mean nothing. -/
def StringFlags.ofLetters (letters : List Char) : StringFlags :=
  { raw := letters.any (fun c => c.toLower = 'r')
    bytes := letters.any (fun c => c.toLower = 'b')
    format := letters.any (fun c => c.toLower = 'f') }

/-- A token taken apart. `first` and `last` are the byte offsets of the body's ends. -/
structure StringParts where
  flags : StringFlags
  body : List Char
  first : Nat
  last : Nat
deriving DecidableEq, Repr

def isQuote (c : Char) : Bool := c = '\x27' || c = '"'

def byteCount (cs : List Char) : Nat := cs.foldr (fun c n => c.utf8Size + n) 0

/-- Whether the body ends inside a character. -/
def StringParts.isCut (p : StringParts) : Bool := byteCount p.body < p.last - p.first

/-- The front of a text that fits in `count` bytes. -/
def takeBytes : Nat → List Char → List Char
  | _, [] => []
  | count, c :: rest => if c.utf8Size ≤ count then c :: takeBytes (count - c.utf8Size) rest else []

def dropBytes (count : Nat) (cs : List Char) : List Char := cs.drop (takeBytes count cs).length

/-- Three equal quotes open a long string. -/
def quoteSize : List Char → Nat
  | a :: b :: c :: _ => if a = b && b = c then 3 else 1
  | _ => 1

/-- Take a token apart; none if it has no quote or too little after it. -/
def splitString? (token : List Char) : Option StringParts :=
  let letters := token.takeWhile (fun c => !isQuote c)
  let rest := token.dropWhile (fun c => !isQuote c)
  if rest.isEmpty then none
  else
    let size := quoteSize rest
    let first := byteCount letters + size
    let total := byteCount token
    if total < first + size then none
    else some {
      flags := .ofLetters letters
      body := takeBytes (total - size - first) (rest.drop size)
      first := first
      last := total - size }

def isFormatString (token : List Char) : Bool :=
  match splitString? token with
  | some parts => parts.flags.format
  | none => false

/-- Look for a format string among tokens that are taken apart one after the other until one is
found. -/
def takeApart : List (List Char) → Except Fault Unit
  | [] => .ok ()
  | token :: rest =>
    match splitString? token with
    | none => takeApart rest
    | some parts =>
      if parts.isCut then .error .brokenSlice
      else if parts.flags.format then .ok ()
      else takeApart rest

/-- Whether the body of a token can be used as text. -/
def StringParts.checked (p : StringParts) : Except Fault Unit :=
  if p.isCut then .error .brokenSlice
  else if p.flags.bytes then .error (.unsupported "bytes literal")
  else .ok ()

def stringValue (token : List Char) : Except Fault (List Char) :=
  match splitString? token with
  | none => .error (.malformedString (String.ofList token))
  | some parts => do
    parts.checked
    if parts.flags.raw then .ok parts.body else decode parts.body

def lowerString (token : List Char) : Except Fault (List Char) := do
  return quoted (← stringValue token)

end ScriptCompiler.Literal
