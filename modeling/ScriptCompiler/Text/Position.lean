/-!
# Positions in source text

Lines and columns count from one. A column counts the UTF-8 bytes that stand before it on its line,
so that a position can be handed to tools that address files by byte.
-/

namespace ScriptCompiler

structure Position where
  line : Nat
  column : Nat
deriving DecidableEq, Repr, Inhabited

namespace Position

def first : Position := ⟨1, 1⟩

/-- The position after the character `c`. Only a line feed ends a line. -/
def after (p : Position) (c : Char) : Position :=
  if c = '\n' then ⟨p.line + 1, 1⟩ else ⟨p.line, p.column + c.utf8Size⟩

def afterAll (p : Position) (cs : List Char) : Position := cs.foldl after p

end Position

end ScriptCompiler
