import ScriptCompiler.Json.Reader

/-!
# Reading records

A record is an object of which only some keys matter. What stands under any other key must be well
formed, but nothing is made of it: its numbers may have any size, its strings may hold any escaped
unit, and it may be nested to any depth.
-/

namespace ScriptCompiler.Json

def skipString : List Char → Option (List Char)
  | [] => none
  | '"' :: rest => some rest
  | '\\' :: 'u' :: a :: b :: c :: d :: rest =>
    if [a, b, c, d].all (fun h => (hexDigit? h).isSome) then skipString rest else none
  | '\\' :: e :: rest => if (shortEscape? e).isSome then skipString rest else none
  | c :: rest => if c = '\\' || c.toNat < 0x20 then none else skipString rest

def skipDigits (cs : List Char) : Option (List Char) :=
  let (digits, rest) := Number.splitDigits cs
  if digits.isEmpty then none else some rest

def skipFraction : List Char → Option (List Char)
  | '.' :: rest => skipDigits rest
  | cs => some cs

def skipExponent : List Char → Option (List Char)
  | 'e' :: '+' :: rest | 'e' :: '-' :: rest | 'E' :: '+' :: rest
  | 'E' :: '-' :: rest => skipDigits rest
  | 'e' :: rest | 'E' :: rest => skipDigits rest
  | cs => some cs

def skipUnsigned (cs : List Char) : Option (List Char) :=
  let (digits, rest) := Number.splitDigits cs
  match digits with
  | [] | 0 :: _ :: _ => none
  | _ => (skipFraction rest).bind skipExponent

def skipNumber : List Char → Option (List Char)
  | '-' :: rest => skipUnsigned rest
  | cs => skipUnsigned cs

def skipKey (cs : List Char) : Option (List Char) :=
  match skipBlanks cs with
  | '"' :: rest => do
    match skipBlanks (← skipString rest) with
    | ':' :: rest => some rest
    | _ => none
  | _ => none

mutual

/-- Skip one value. `fuel` bounds the number of values and of steps between them. -/
def skipValue : Nat → List Char → Option (List Char)
  | 0, _ => none
  | fuel + 1, cs =>
    match skipBlanks cs with
    | 'n' :: 'u' :: 'l' :: 'l' :: rest => some rest
    | 't' :: 'r' :: 'u' :: 'e' :: rest => some rest
    | 'f' :: 'a' :: 'l' :: 's' :: 'e' :: rest => some rest
    | '"' :: rest => skipString rest
    | '[' :: rest =>
      match skipBlanks rest with
      | ']' :: rest => some rest
      | rest => skipItems fuel rest
    | '\x7b' :: rest =>
      match skipBlanks rest with
      | '\x7d' :: rest => some rest
      | rest => skipEntries fuel rest
    | cs => skipNumber cs

def skipItems : Nat → List Char → Option (List Char)
  | 0, _ => none
  | fuel + 1, cs => do
    match skipBlanks (← skipValue fuel cs) with
    | ',' :: rest => skipItems fuel rest
    | ']' :: rest => some rest
    | _ => none

def skipEntries : Nat → List Char → Option (List Char)
  | 0, _ => none
  | fuel + 1, cs => do
    match skipBlanks (← skipValue fuel (← skipKey cs)) with
    | ',' :: rest => skipEntries fuel rest
    | '\x7d' :: rest => some rest
    | _ => none

end

/-- The value under a known key, nothing under another key, and the rest of the text. -/
def readField (known : List String) (fuel : Nat) (key : String) (cs : List Char) :
    Option (List (String × Json) × List Char) :=
  if known.contains key then
    (readValue fuel (depthLimit - 1) cs).map fun (value, rest) => ([(key, value)], rest)
  else (skipValue fuel cs).map fun rest => ([], rest)

/-- The fields of a record up to its closing brace, in the order of the text. -/
def readFields (known : List String) : Nat → List Char → Option (List (String × Json) × List Char)
  | 0, _ => none
  | fuel + 1, cs =>
    match skipBlanks cs with
    | '"' :: rest => do
      let (key, rest) ← readString (rest.length + 1) [] rest
      match skipBlanks rest with
      | ':' :: rest =>
        let (field, rest) ← readField known (2 * rest.length + 2) key rest
        match skipBlanks rest with
        | ',' :: rest =>
          let (fields, rest) ← readFields known fuel rest
          some (field ++ fields, rest)
        | '\x7d' :: rest => some (field, rest)
        | _ => none
      | _ => none
    | _ => none

/-- The record that stands in a text, as an object with the known keys alone. A text that holds no
object is read as any other value. -/
def parseRecord? (known : List String) (text : String) : Option Json :=
  match skipBlanks text.toList with
  | '\x7b' :: rest =>
    match skipBlanks rest with
    | '\x7d' :: rest => if (skipBlanks rest).isEmpty then some (.object []) else none
    | rest =>
      match readFields known (rest.length + 1) rest with
      | some (fields, rest) => if (skipBlanks rest).isEmpty then some (.object fields) else none
      | none => none
  | _ => parse? text

end ScriptCompiler.Json
