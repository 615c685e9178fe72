import ScriptCompiler.Literal.StringToken
import ScriptCompiler.Syntax.Layout
import ScriptCompiler.Text.Identifier

/-!
# Tokens

Words, operators and numbers at the front of a text. Each is the longest that fits. Words that the
grammar uses as keywords are keywords only where the grammar admits them; elsewhere they are names.
-/

namespace ScriptCompiler.Token

def word? (cs : List Char) :
    Option String := (Identifier.split? cs).map (fun p => String.ofList p.1)

/-- Operators and brackets, the longer ones first. -/
def operators : List String := [
  "**=", "//=", ">>=", "<<=", "...", "!=", "==", "<=", ">=", "<>", "<<", ">>", "**", "//", "->",
  ":=", "+=", "-=",
  "*=", "/=", "%=", "@=", "&=", "|=", "^=", "+", "-", "*", "/", "%", "@", "&", "|", "^", "~", "<",
  ">", "=", ":", ",", ".", ";", "(", ")", "[", "]", "\x7b", "\x7d"]

def operator (cs : List Char) : String :=
  (operators.find? (fun op => op.toList.isPrefixOf cs)).getD ""

/-- Letters that may stand before the opening quote of a string. -/
def isStringLetter (c : Char) : Bool :=
  let c := c.toLower
  c = 'f' || c = 'r' || c = 'b' || c = 'u'

/-- A string can be opened by a backquote too. -/
def isOpeningQuote (c : Char) : Bool := Literal.isQuote c || c = '\x60'

def startsString (cs : List Char) : Bool :=
  match cs.dropWhile isStringLetter with
  | c :: _ => isOpeningQuote c
  | [] => false

/-- The length of a run of digits with single underscores in it, and after it if `trailing`. The run
starts with a digit, or with an underscore if `leading`. -/
def digitRun (isDigit : Char → Bool) (leading trailing : Bool) : List Char → Nat
  | [] => 0
  | c :: rest =>
    if isDigit c then 1 + digitRun isDigit true trailing rest
    else if c = '_' && leading then
      match rest with
      | d :: _ =>
        if isDigit d then 1 + digitRun isDigit false trailing rest
        else if trailing then 1 else 0
      | [] => if trailing then 1 else 0
    else 0

/-- Decimal digits; an underscore may stand after each group. -/
def decimalRun (cs : List Char) : Nat := digitRun Char.isDigit false true cs

def hasOne (cs : List Char) (chars : List Char) : Bool :=
  match cs with
  | c :: _ => chars.contains c
  | [] => false

/-- The length of a number with a base mark, zero if there is none. -/
def basedLength (cs : List Char) : Nat :=
  match cs with
  | '0' :: mark :: rest =>
    let run :=
      if mark = 'x' || mark =
        'X' then digitRun (fun c => (Literal.digitIn? 16 c).isSome) true false rest
      else if mark = 'o' || mark =
        'O' then digitRun (fun c => (Literal.digitIn? 8 c).isSome) true false rest
      else if mark = 'b' || mark =
        'B' then digitRun (fun c => (Literal.digitIn? 2 c).isSome) true false rest
      else 0
    if run = 0 then 0
    else 2 + run + (if hasOne (rest.drop run) ['l', 'L'] then 1 else 0)
  | _ => 0

def integerLength (cs : List Char) : Nat :=
  let based := basedLength cs
  if based ≠ 0 then based
  else
    let run := decimalRun cs
    if run = 0 then 0
    else run + (if hasOne (cs.drop run) ['l', 'L', 'j', 'J'] then 1 else 0)

def exponentLength (cs : List Char) : Nat :=
  match cs with
  | e :: rest =>
    if e = 'e' || e = 'E' then
      let sign := if hasOne rest ['+', '-'] then 1 else 0
      let run := decimalRun (rest.drop sign)
      if run = 0 then 0 else 1 + sign + run
    else 0
  | [] => 0

def floatLength (cs : List Char) : Nat :=
  let whole := decimalRun cs
  let rest := cs.drop whole
  let body :=
    match rest with
    | '.' :: more =>
      let fraction := decimalRun more
      if whole = 0 && fraction = 0 then 0
      else whole + 1 + fraction + exponentLength (more.drop fraction)
    | _ =>
      let exponent := exponentLength rest
      if whole = 0 || exponent = 0 then 0 else whole + exponent
  if body = 0 then 0 else body + (if hasOne (cs.drop body) ['j', 'J'] then 1 else 0)

/-- The number at the front of a text: whether it is floating-point, and its length. -/
def number? (cs : List Char) : Option (Bool × Nat) :=
  let asFloat := floatLength cs
  let asInteger := integerLength cs
  if asInteger < asFloat then some (true, asFloat)
  else if asInteger = 0 then none
  else some (false, asInteger)

/-- Whether an operand can start here. The given words are keywords at this point. -/
def startsOperand (keywords : List String) (cs : List Char) : Bool :=
  match word? cs with
  | some w => startsString cs || !keywords.contains w
  | none =>
    startsString cs || (number? cs).isSome
      || ["+", "-", "~", "*", "(", "[", "\x7b", "..."].contains (operator cs)

end ScriptCompiler.Token
