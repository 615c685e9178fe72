import ScriptCompiler.Json.Basic

/-!
# JSON numbers

A number is read into a significand of at most 64 bits and a power of ten. Digits beyond 64 bits are
dropped, those before the point with their place kept. An integer in range stays an integer; every
other number is the significand scaled by its power of ten in floating-point arithmetic, and one
beyond the range of doubles is refused.
-/

namespace ScriptCompiler.Json.Number

def significandLimit : Nat := 0xFFFFFFFFFFFFFFFF

/-- Larger exponents than this are not told apart. -/
def exponentLimit : Nat := 0x7FFFFFFF

/-- The digits at the front of a text and what follows them. -/
def splitDigits (cs : List Char) : List Nat × List Char :=
  ((cs.takeWhile Char.isDigit).map (fun c => c.toNat - '0'.toNat), cs.dropWhile Char.isDigit)

/-- Append digits while the significand fits. Gives the significand and the number of digits left
over. -/
def accumulate (significand : Nat) : List Nat → Nat × Nat
  | [] => (significand, 0)
  | d :: rest =>
    if significand * 10 + d ≤ significandLimit then accumulate (significand * 10 + d) rest
    else (significand, rest.length + 1)

def powerOfTen (n : Nat) : Float := Float.ofScientific 1 false n

/-- Scale by a power of ten. Below the least power in range the scaling takes several steps. `none`
if the result is beyond the largest double. -/
def scale : Nat → Float → Int → Option Float
  | 0, _, _ => none
  | fuel + 1, x, exponent =>
    if exponent.natAbs ≤ 308 then
      if 0 ≤ exponent then
        let y := x * powerOfTen exponent.natAbs
        if y.isInf then none else some y
      else some (x / powerOfTen exponent.natAbs)
    else if x == 0.0 then some x
    else if 0 ≤ exponent then none
    else scale fuel (x / powerOfTen 308) (exponent + 308)

/-- The double for a significand and a power of ten. Ten steps take every significand to zero. -/
def double? (negative : Bool) (significand : Nat) (exponent : Int) : Option Float :=
  (scale 10 (Float.ofNat significand) exponent).map (fun x => if negative then -x else x)

/-- The exponent part, after its `e`. Gives the double and the rest of the text. -/
def readExponent (negative : Bool) (significand : Nat) (start : Int) (cs : List Char) :
    Option (Float × List Char) :=
  let (down, cs) := match cs with
    | '+' :: rest => (false, rest)
    | '-' :: rest => (true, rest)
    | _ => (false, cs)
  let (digits, rest) := splitDigits cs
  if digits.isEmpty then none
  else
    let power := digits.foldl (fun n d => n * 10 + d) 0
    if exponentLimit < power then
      if significand ≠ 0 && !down then none
      else some (if negative then -0.0 else 0.0, rest)
    else
      let exponent := if down then start - power else start + power
      (double? negative significand exponent).map (fun x => (x, rest))

/-- What follows the digits before the point, if it makes the number a floating-point one. -/
def readTail (negative : Bool) (significand : Nat) (exponent : Int) (cs : List Char) :
    Option (Float × List Char) :=
  match cs with
  | '.' :: rest =>
    let (digits, rest) := splitDigits rest
    if digits.isEmpty then none
    else
      let (significand, dropped) := accumulate significand digits
      let exponent := exponent - (digits.length - dropped : Nat)
      match rest with
      | 'e' :: rest | 'E' :: rest => readExponent negative significand exponent rest
      | _ => (double? negative significand exponent).map (fun x => (x, rest))
  | 'e' :: rest | 'E' :: rest => readExponent negative significand exponent rest
  | _ => (double? negative significand exponent).map (fun x => (x, cs))

def hasTail : List Char → Bool
  | '.' :: _ | 'e' :: _ | 'E' :: _ => true
  | _ => false

/-- An integer without fraction and exponent. Minus zero and what lies below `-2 ^ 63` become
floating-point. -/
def ofInteger (negative : Bool) (n : Nat) : Json :=
  if !negative then .integer n
  else if n = 0 || 0x8000000000000000 < n then .float (-(Float.ofNat n))
  else .integer (-(n : Int))

/-- The number at the front of a text, after its sign, and the rest of the text. -/
def readUnsigned (negative : Bool) (cs : List Char) : Option (Json × List Char) :=
  let (digits, rest) := splitDigits cs
  match digits with
  | [] => none
  | 0 :: _ :: _ => none
  | _ =>
    let (significand, dropped) := accumulate 0 digits
    if dropped = 0 && !hasTail rest then some (ofInteger negative significand, rest)
    else (readTail negative significand dropped rest).map (fun (x, rest) => (.float x, rest))

def read : List Char → Option (Json × List Char)
  | '-' :: rest => readUnsigned true rest
  | cs => readUnsigned false cs

end ScriptCompiler.Json.Number
