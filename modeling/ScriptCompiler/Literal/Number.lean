import ScriptCompiler.Diagnostic.Fault

/-!
# Number tokens

Digit separators and the suffix of long integers are dropped. A leading zero marks octal digits,
which are written with the prefix `0o`. Imaginary numbers have no counterpart.
-/

namespace ScriptCompiler.Literal

/-- A text without the characters at its end that satisfy `p`. -/
def trimEnd (p : Char → Bool) (cs : List Char) : List Char := (cs.reverse.dropWhile p).reverse

/-- Whether digits start with one of the base marks `0x`, `0b` and `0o`, in lower case. -/
def hasBaseMark : List Char → Bool
  | '0' :: 'x' :: _ | '0' :: 'b' :: _ | '0' :: 'o' :: _ => true
  | _ => false

def lowerNumber (token : List Char) : Except Fault (List Char) :=
  let digits := token.filter (· ≠ '_')
  if digits.getLast? == some 'j' || digits.getLast? == some 'J' then
    .error (.unsupported "imaginary number literal")
  else
    let digits := trimEnd (fun c => c = 'l' || c = 'L') digits
    let lower := digits.map Char.toLower
    if hasBaseMark lower then .ok lower
    else if 1 < digits.length && digits.head? == some '0' && digits.all Char.isDigit then
      if digits.all (· = '0') then .ok ['0']
      else .ok ('0' :: 'o' :: digits.dropWhile (· = '0'))
    else .ok digits

end ScriptCompiler.Literal
