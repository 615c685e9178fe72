import ScriptCompiler.Syntax.Grammar.Rules

/-!
# Reading string tokens

A string token is read piece by piece: stretches of text, and, in a format string, holes. What a
hole holds is left to the parser that the rule is given.
-/

namespace ScriptCompiler.Grammar

open ScriptCompiler.Parser

/-- The length of an escape sequence after its backslash, zero if the backslash stands for
itself. -/
def escapeLength (cs : List Char) : Nat :=
  let hexRun (count : Nat) (more : List Char) : Nat :=
    if (more.take count).length = count && (more.take count).all
      (fun c => (Literal.digitIn? 16 c).isSome)
    then count + 1 else 0
  match cs with
  | [] => 0
  | c :: more =>
    if c = 'u' then hexRun 4 more
    else if c = 'U' then hexRun 8 more
    else if c = 'x' then hexRun 2 more
    else if c.isDigit then ((cs.take 3).takeWhile Char.isDigit).length
    else if c = '\n' then 1
    else if c = '\r' then (if more.head? == some '\n' then 2 else 0)
    else if "'\"abfrntv\\".toList.contains c then 1
    else if c = 'N' && more.head? == some '\x7b' then
      let name := (more.drop 1).takeWhile (· ≠ '\x7d')
      if name.isEmpty || (more.drop (1 + name.length)).isEmpty then 0 else name.length + 3
    else 0

structure Opening where
  quote : Char
  long : Bool
  flags : Literal.StringFlags

/-- The pieces of a string read so far. `run` tells whether text precedes in the current stretch of
plain text. -/
structure StringProgress where
  pieces : List Piece
  text : List Char
  run : Bool
  closed : Bool

namespace StringProgress

def allPieces (p : StringProgress) : List Piece :=
  if p.text.isEmpty then p.pieces.reverse else (Piece.text p.text.reverse :: p.pieces).reverse

end StringProgress

def takeText (p : StringProgress) (count : Nat) (run : Bool) : Parser StringProgress := do
  let cs ← rest
  advance count
  return { p with text := (cs.take count).reverse ++ p.text, run := run }

/-- The length of what a backslash hides in a raw string, the backslash included. -/
def rawEscapeLength (quote : Char) (cs : List Char) : Nat :=
  let afterQuote (n : Nat) (more : List Char) : Nat :=
    match more with
    | '\r' :: '\n' :: _ => n + 2
    | '\r' :: _ | '\n' :: _ => n + 1
    | _ => n
  match cs with
  | c :: more => if c = quote || c = '\\' then afterQuote 2 more else afterQuote 1 cs
  | [] => 1

def stringStep (hole : Parser Piece) (o : Opening) (p : StringProgress) :
    Parser (Option StringProgress) := do
  if p.closed then return none
  match ← rest with
  | [] => failure
  | c :: more =>
    if c = '\x00' then failure
    else if o.flags.format && (c = '\x7b' || c = '\x7d') then
      if more.head? == some c then return some (← takeText p 2 false)
      else if c = '\x7d' then failure
      else
        let piece ← hole
        let pieces := if p.text.isEmpty then p.pieces else .text p.text.reverse :: p.pieces
        return some { p with pieces := piece :: pieces, text := [], run := false }
    else if c = '\\' then
      if o.flags.raw then return some (← takeText p (rawEscapeLength o.quote more) p.run)
      else if o.flags.bytes &&
        (more.head? == some 'N' || more.head? == some 'u' || more.head? == some 'U') then
        return some (← takeText p 3 true)
      else return some (← takeText p (1 + escapeLength more) false)
    else if c = o.quote then
      if o.long then
        match more with
        | d :: e :: _ =>
          if d = c && e = c then
            advance 3
            return some { p with closed := true }
          else if d = c then return some (← takeText p 2 false)
          else return some (← takeText p 1 false)
        | _ => return some (← takeText p 1 false)
      else
        advance 1
        return some { p with closed := true }
    else if c = '\n' && p.run && !o.long then failure
    else return some (← takeText p 1 true)

/-- Change the option of the first of some pieces, if it is a hole and `count` bytes of it lie
outside the body. -/
def markHole (mark : Option HoleOption → Option HoleOption) (count : Nat) : List Piece → List Piece
  | .hole pos option value :: rest =>
    .hole pos (if count = 0 then option else mark option) value :: rest
  | pieces => pieces

/-- Pieces without their first `count` bytes. A hole among these bytes is not looked into. -/
def dropFront (count : Nat) : List Piece → List Piece
  | .text text :: rest =>
    .text (Literal.dropBytes count text) ::
      markHole (fun _ => some .beforeBody) (count - Literal.byteCount text) rest
  | pieces => markHole (fun _ => some .beforeBody) count pieces

/-- Pieces without their last `count` bytes. A hole among these bytes is looked into first. -/
def dropBack (count : Nat) (pieces : List Piece) : List Piece :=
  match pieces.reverse with
  | .text text :: rest =>
    (.text (Literal.takeBytes (Literal.byteCount text - count) text) ::
      markHole (·.or (some .beyondBody)) (count - Literal.byteCount text) rest).reverse
  | pieces => (markHole (·.or (some .beyondBody)) count pieces).reverse

/-- The pieces in the body of a token, out of all that were read between `opened` and `closed` bytes
of quotes. The body is what stands there, unless the token is opened by a backquote: then its text
up to the first quote in it counts as letters, and as many characters as that quote has close the
body. -/
def bodyPieces (token : List Char) (opened closed : Nat) (pieces : List Piece) : List Piece :=
  match Literal.splitString? token with
  | none => pieces
  | some parts =>
    dropBack (Literal.byteCount token - closed - parts.last)
      (dropFront (parts.first - opened) pieces)

/-- A string token. `hole` reads a hole of a format string, from its opening brace on. -/
def stringToken (hole : Parser Piece) : Parser StringToken := do
  let s ← get
  let letters := s.rest.takeWhile Token.isStringLetter
  advance letters.length
  match ← rest with
  | q :: more =>
    if Token.isOpeningQuote q then
      let long := q ≠ '\x60' && more.head? == some q && (more.drop 1).head? == some q
      let flags := Literal.StringFlags.ofLetters letters
      let quotes := if long then 3 else 1
      advance quotes
      modify ({ · with inFormat := flags.format })
      let p ← iterate (stringStep hole ⟨q, long, flags⟩) ⟨[], [], false, false⟩
      modify ({ · with inFormat := false })
      let token := s.rest.take (s.rest.length - (← rest).length)
      let pieces := bodyPieces token (Literal.byteCount letters + quotes) quotes p.allPieces
      return .mk s.pos (String.ofList token) pieces
    else failure
  | [] => failure

end ScriptCompiler.Grammar
