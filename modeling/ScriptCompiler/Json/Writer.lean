import ScriptCompiler.Json.Basic
import ScriptCompiler.Text.Decimal

/-!
# Writing JSON

Compact text: no blanks, entries in their own order. A string escapes the quote, the backslash and
the control characters below the space, by a letter where there is one; all other characters stand
for themselves.
-/

namespace ScriptCompiler.Json

def shortLetter? (c : Char) : Option Char :=
  if c = '\x08' then some 'b'
  else if c = '\t' then some 't'
  else if c = '\n' then some 'n'
  else if c = '\x0c' then some 'f'
  else if c = '\r' then some 'r'
  else none

def escapeChar (c : Char) : List Char :=
  if c = '"' then ['\\', '"']
  else if c = '\\' then ['\\', '\\']
  else match shortLetter? c with
    | some letter => ['\\', letter]
    | none =>
      if c.toNat < 0x20 then
        ['\\', 'u', '0', '0', Nat.digitChar (c.toNat / 16), Nat.digitChar (c.toNat % 16)]
      else [c]

def quote (s : String) : String := String.ofList ('"' :: s.toList.flatMap escapeChar ++ ['"'])

mutual

def render : Json → String
  | .null => "null"
  | .bool b => if b then "true" else "false"
  | .integer n => toString n
  | .float x => if x.isNaN || x.isInf then "null" else Decimal.ofFloat x
  | .string s => quote s
  | .array items => "[" ++ renderItems items ++ "]"
  | .object entries => "\x7b" ++ renderEntries entries ++ "\x7d"

def renderItems : List Json → String
  | [] => ""
  | [item] => render item
  | item :: rest => render item ++ "," ++ renderItems rest

def renderEntries : List (String × Json) → String
  | [] => ""
  | [(key, value)] => quote key ++ ":" ++ render value
  | (key, value) :: rest => quote key ++ ":" ++ render value ++ "," ++ renderEntries rest

end

end ScriptCompiler.Json
