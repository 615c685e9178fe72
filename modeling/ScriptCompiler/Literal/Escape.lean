import ScriptCompiler.Diagnostic.Fault

/-!
# Escape sequences

The body of a string token that is not raw stands for the text that its escape sequences decode to.
An escape that has no meaning keeps its backslash. Hexadecimal escapes must be complete and name a
code point.
-/

namespace ScriptCompiler.Literal

def digitIn? (base : Nat) (c : Char) : Option Nat :=
  let value? :=
    if c.isDigit then some (c.toNat - '0'.toNat)
    else if 'a' ≤ c && c ≤ 'f' then some (c.toNat - 'a'.toNat + 10)
    else if 'A' ≤ c && c ≤ 'F' then some (c.toNat - 'A'.toNat + 10)
    else none
  value?.filter (· < base)

/-- The number that digits spell, none if one of the characters is no digit. -/
def number? (base : Nat) (cs : List Char) : Option Nat :=
  cs.foldl (fun n? c => do return (← n?) * base + (← digitIn? base c)) (some 0)

/-- Whether a number is a code point that a character can have. -/
def isScalar (n : Nat) : Bool := n < 0xD800 || (0xE000 ≤ n && n ≤ 0x10FFFF)

/-- What a single letter after a backslash stands for. -/
def letterEscape? (c : Char) : Option (List Char) :=
  if c = '\n' then some []
  else if c = '\\' || c = '\x27' || c = '"' then some [c]
  else if c = 'a' then some ['\x07']
  else if c = 'b' then some ['\x08']
  else if c = 'f' then some ['\x0c']
  else if c = 'n' then some ['\n']
  else if c = 'r' then some ['\r']
  else if c = 't' then some ['\t']
  else if c = 'v' then some ['\x0b']
  else none

def isOctal (c : Char) : Bool := '0' ≤ c && c ≤ '7'

/-- An escape with exactly `count` hexadecimal digits, given what follows its letter. -/
def hexEscape (count : Nat) (cs : List Char) : Except Fault (List Char × Nat) :=
  let digits := cs.take count
  match if digits.length = count then number? 16 digits else none with
  | none => .error (.unsupported "truncated hex escape")
  | some n =>
    if isScalar n then .ok ([Char.ofNat n], count + 1)
    else .error (.unsupported "invalid code point escape")

/-- The meaning of what follows a backslash, and how many of the characters belong to it. -/
def escape (cs : List Char) : Except Fault (List Char × Nat) :=
  match cs with
  | [] => .ok (['\\'], 0)
  | c :: rest =>
    match letterEscape? c with
    | some meaning => .ok (meaning, 1)
    | none =>
      if isOctal c then
        let digits := (cs.take 3).takeWhile isOctal
        .ok ([Char.ofNat ((number? 8 digits).getD 0)], digits.length)
      else if c = 'x' then hexEscape 2 rest
      else if c = 'u' then hexEscape 4 rest
      else if c = 'U' then hexEscape 8 rest
      else if c = 'N' then .error (.unsupported "named unicode escape (\\N\x7b...\x7d)")
      else .ok (['\\', c], 1)

/-- Decode a text, after skipping the characters that belong to an escape already decoded. -/
def decodeFrom : Nat → List Char → Except Fault (List Char)
  | _, [] => .ok []
  | skip + 1, _ :: rest => decodeFrom skip rest
  | 0, c :: rest =>
    if c = '\\' then do
      let (meaning, used) ← escape rest
      return meaning ++ (← decodeFrom used rest)
    else return c :: (← decodeFrom 0 rest)

def decode (body : List Char) : Except Fault (List Char) := decodeFrom 0 body

end ScriptCompiler.Literal
