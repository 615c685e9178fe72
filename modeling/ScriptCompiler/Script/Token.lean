import ScriptCompiler.Text.Identifier

/-!
# Tokens of scripts

A script is a sequence of words, numbers, strings, symbols and parts of templates. A template with
holes is split where its holes begin and end.
-/

namespace ScriptCompiler.Script

inductive Token where
  | word (text : String)
  | number (text : String)
  | string
  /-- A template without holes. -/
  | template
  /-- A template up to its first hole. -/
  | templateHead
  /-- A template from one hole to the next. -/
  | templateMiddle
  /-- A template from its last hole on. -/
  | templateTail
  | symbol (text : String)
deriving DecidableEq, Repr

/-- A token, and whether a line ends between the token before and this one. -/
structure Lexeme where
  token : Token
  afterLine : Bool
deriving DecidableEq, Repr

namespace Lexer

def isLineEnd (c : Char) : Bool := c = '\n' || c = '\r' || c = '\u2028' || c = '\u2029'

def isSpace (c : Char) : Bool :=
  c = ' ' || c = '\t' || c = '\x0b' || c = '\x0c' || c = '\xa0' || c = '\ufeff' || isLineEnd c

def isWordStart (c : Char) : Bool := c = '$' || c = '_' || Identifier.isStart c

def isWordPart (c : Char) :
    Bool := c = '$' || c = '\u200c' || c = '\u200d' || Identifier.isContinue c

/-- The symbols, longer ones first. -/
def symbols : List String := [
  ">>>=", "...", "===", "!==", "**=", "<<=", ">>=", ">>>", "=>", "==", "!=", "<=", ">=", "&&", "||",
  "??", "+=", "-=",
  "*=", "/=", "%=", "&=", "|=", "^=", "<<", ">>", "++", "--", "**", "\x7b", "\x7d", "(", ")", "[",
  "]", ".", ";", ",", "<", ">", "+", "-", "*", "/", "%", "&", "|", "^", "!", "~", "?", ":", "="]

def symbol? (cs : List Char) : Option (String × List Char) :=
  (symbols.find? fun s => s.toList.isPrefixOf cs).map fun s => (s, cs.drop s.length)

/-- What follows a comment, after its opening, and whether a line ended in it. -/
def skipComment : List Char → Bool → Option (List Char × Bool)
  | '*' :: '/' :: rest, line => some (rest, line)
  | c :: rest, line => skipComment rest (line || isLineEnd c)
  | [], _ => none

/-- Skip spaces and comments, and tell whether a line ended in them; `fuel` bounds the number of
comments. -/
def skip : Nat → List Char → Bool → Option (List Char × Bool)
  | 0, cs, line => some (cs, line)
  | fuel + 1, cs, line =>
    let spaces := cs.takeWhile isSpace
    let line := line || spaces.any isLineEnd
    match cs.dropWhile isSpace with
    | '/' :: '*' :: rest => (skipComment rest line).bind fun (rest, line) => skip fuel rest line
    | '/' :: '/' :: rest => skip fuel (rest.dropWhile (!isLineEnd ·)) line
    | cs => some (cs, line)

/-- What follows a string, after its opening quote. A string ends on its line. -/
def skipString (quote : Char) : List Char → Option (List Char)
  | '\\' :: _ :: rest => skipString quote rest
  | c :: rest =>
    if c = quote then some rest
    else if c = '\n' || c = '\r' || c = '\\' then none
    else skipString quote rest
  | [] => none

/-- What follows the static text of a template, and whether a hole begins there. -/
def skipTemplate : List Char → Option (List Char × Bool)
  | '\\' :: _ :: rest => skipTemplate rest
  | '\x60' :: rest => some (rest, false)
  | '$' :: '\x7b' :: rest => some (rest, true)
  | '\\' :: [] => none
  | _ :: rest => skipTemplate rest
  | [] => none

def isHexDigit (c : Char) : Bool := c.isDigit || ('a' ≤ c && c ≤ 'f') || ('A' ≤ c && c ≤ 'F')

/-- The digits of a number that starts with a base mark. -/
def baseDigit? : Char → Option (Char → Bool)
  | 'x' | 'X' => some isHexDigit
  | 'o' | 'O' => some fun c => '0' ≤ c && c ≤ '7'
  | 'b' | 'B' => some fun c => c = '0' || c = '1'
  | _ => none

def skipExponent (cs : List Char) : Option (List Char) :=
  match cs with
  | e :: rest =>
    if e = 'e' || e = 'E' then
      let digits := match rest with
        | '+' :: rest | '-' :: rest => rest
        | rest => rest
      if digits.head?.any Char.isDigit then some (digits.dropWhile Char.isDigit) else none
    else some cs
  | [] => some []

def skipDecimal (cs : List Char) : Option (List Char) :=
  match cs.dropWhile Char.isDigit with
  | '.' :: rest => skipExponent (rest.dropWhile Char.isDigit)
  | rest => skipExponent rest

/-- What follows a number that starts with a zero and another digit. Only digits up to seven make it
octal, and then it has no fraction. -/
def skipZeroFirst (cs : List Char) : Option (List Char) :=
  if (cs.takeWhile Char.isDigit).all fun c =>
    c ≤ '7' then some (cs.dropWhile Char.isDigit) else skipDecimal cs

/-- What follows a number. No word may follow it directly. -/
def skipNumber (cs : List Char) : Option (List Char) := do
  let rest ← match cs with
    | '0' :: mark :: digits =>
      match baseDigit? mark with
      | some isDigit => if digits.head?.any isDigit then some (digits.dropWhile isDigit) else none
      | none => if mark.isDigit then skipZeroFirst cs else skipDecimal cs
    | cs => skipDecimal cs
  if rest.head?.any fun c => isWordStart c || c.isDigit then none else some rest

def startsNumber : List Char → Bool
  | '.' :: c :: _ => c.isDigit
  | c :: _ => c.isDigit
  | [] => false

/-- The lexemes of a text. `open` counts, for each template around, the braces that are open in its
current hole, and `fuel` bounds the number of lexemes. -/
def lexemes : Nat → List Nat → List Char → Option (List Lexeme)
  | 0, _, _ => none
  | fuel + 1, holes, cs => do
    let (cs, line) ← skip cs.length cs false
    match cs with
    | [] => if holes.isEmpty then some [] else none
    | c :: rest =>
      if isWordStart c then
        return ⟨.word (String.ofList (cs.takeWhile isWordPart)), line⟩ ::
          (← lexemes fuel holes (cs.dropWhile isWordPart))
      else if startsNumber cs then
        let rest ← skipNumber cs
        let text := String.ofList (cs.take (cs.length - rest.length))
        return ⟨.number text, line⟩ :: (← lexemes fuel holes rest)
      else if c = '"' || c = '\x27' then
        return ⟨.string, line⟩ :: (← lexemes fuel holes (← skipString c rest))
      else if c = '\x60' then
        let (rest, hole) ← skipTemplate rest
        if hole then return ⟨.templateHead, line⟩ :: (← lexemes fuel (0 :: holes) rest)
        else return ⟨.template, line⟩ :: (← lexemes fuel holes rest)
      else if c = '\x7d' && holes.head? == some 0 then
        let (rest, hole) ← skipTemplate rest
        if hole then return ⟨.templateMiddle, line⟩ :: (← lexemes fuel holes rest)
        else return ⟨.templateTail, line⟩ :: (← lexemes fuel holes.tail rest)
      else
        let (s, rest) ← symbol? cs
        let holes := match s, holes with
          | "\x7b", n :: outer => (n + 1) :: outer
          | "\x7d", n :: outer => (n - 1) :: outer
          | _, holes => holes
        return ⟨.symbol s, line⟩ :: (← lexemes fuel holes rest)

end Lexer

def lexemes? (text : String) :
    Option (List Lexeme) := Lexer.lexemes (text.length + 1) [] text.toList

end ScriptCompiler.Script
