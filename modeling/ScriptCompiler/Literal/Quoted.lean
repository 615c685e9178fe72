/-!
# Quoted text

Text is written between single quotes, or between double quotes if it holds a single quote and no
double quote. Line separators and control characters are escaped, so that the literal stays on its
line. The static part of a template is written between backquotes; line feeds and tabs stand for
themselves there, and a dollar sign is escaped only before a brace.
-/

namespace ScriptCompiler.Literal

/-- The two lowercase hexadecimal digits of a number below 256. -/
def hexByte (n : Nat) : List Char := [Nat.digitChar (n / 16), Nat.digitChar (n % 16)]

def quoteFor (text : List Char) : Char :=
  if text.contains '\x27' && !text.contains '"' then '"' else '\x27'

/-- A character as it is written between the given quotes. -/
def quoteChar (quote c : Char) : List Char :=
  if c = '\\' then ['\\', '\\']
  else if c = '\n' then ['\\', 'n']
  else if c = '\r' then ['\\', 'r']
  else if c = '\t' then ['\\', 't']
  else if c = '\u2028' then ['\\', 'u', '2', '0', '2', '8']
  else if c = '\u2029' then ['\\', 'u', '2', '0', '2', '9']
  else if c = quote then ['\\', c]
  else if c.toNat < 0x20 || c.toNat = 0x7F then '\\' :: 'x' :: hexByte c.toNat
  else [c]

def quoted (text : List Char) : List Char :=
  let quote := quoteFor text
  quote :: text.flatMap (quoteChar quote) ++ [quote]

/-- A character of a template's static part, given the character after it. -/
def templateChar (c : Char) (next : Option Char) : List Char :=
  if c = '\\' then ['\\', '\\']
  else if c = '\x60' then ['\\', '\x60']
  else if c = '$' && next == some '\x7b' then ['\\', '$']
  else if c = '\r' then ['\\', 'r']
  else if c.toNat < 0x20 && c ≠ '\n' && c ≠ '\t' then '\\' :: 'x' :: hexByte c.toNat
  else [c]

def templateText : List Char → List Char
  | [] => []
  | c :: rest => templateChar c rest.head? ++ templateText rest

end ScriptCompiler.Literal
