/-!
# Operators

The operators of the source language and the symbols that write them in a script. Operators without
a symbol are written in another way or refused.
-/

namespace ScriptCompiler

inductive BinaryOp where
  | add | sub | mul | div | mod | floorDiv | matMul | power | shiftLeft | shiftRight | bitOr
  | bitXor | bitAnd
deriving DecidableEq, Repr

namespace BinaryOp

def all : List BinaryOp :=
  [.add, .sub, .mul, .div, .mod, .floorDiv, .matMul, .power, .shiftLeft, .shiftRight, .bitOr,
    .bitXor, .bitAnd]

def text : BinaryOp → String
  | .add => "+" | .sub => "-" | .mul => "*" | .div => "/" | .mod => "%" | .floorDiv =>
    "//" | .matMul => "@"
  | .power => "**" | .shiftLeft => "<<" | .shiftRight => ">>" | .bitOr => "|" | .bitXor =>
    "^" | .bitAnd => "&"

def ofText? (s : String) : Option BinaryOp := all.find? (fun op => op.text == s)

/-- The operator of an augmented assignment such as `+=`. -/
def ofAugmented? (s : String) : Option BinaryOp := all.find? (fun op => op.text ++ "=" == s)

/-- The symbol in a script. Floor division and powers are calls; matrix products do not exist. -/
def symbol? : BinaryOp → Option String
  | .floorDiv | .matMul | .power => none
  | op => some op.text

def strength : BinaryOp → Nat
  | .bitOr => 16
  | .bitAnd => 17
  | .bitXor => 18
  | .shiftLeft | .shiftRight => 19
  | .add | .sub => 20
  | .mul | .div | .mod | .floorDiv | .matMul => 21
  | .power => 23

end BinaryOp

inductive UnaryOp where
  | invert | not | plus | minus
deriving DecidableEq, Repr

namespace UnaryOp

def all : List UnaryOp := [.invert, .not, .plus, .minus]

def text : UnaryOp → String
  | .invert => "~" | .not => "not" | .plus => "+" | .minus => "-"

def ofText? (s : String) : Option UnaryOp := all.find? (fun op => op.text == s)

def symbol : UnaryOp → String
  | .invert => "~" | .not => "!" | .plus => "+" | .minus => "-"

end UnaryOp

inductive BoolOp where
  | and | or
deriving DecidableEq, Repr

namespace BoolOp

def text : BoolOp → String
  | .and => "and" | .or => "or"

def ofText? (s : String) : Option BoolOp := [BoolOp.and, .or].find? (fun op => op.text == s)

def symbol : BoolOp → String
  | .and => "&&" | .or => "||"

end BoolOp

inductive CompareOp where
  | eq | ne | lt | le | gt | ge | isSame | isNotSame | isIn | isNotIn
deriving DecidableEq, Repr

namespace CompareOp

def spellings : List (String × CompareOp) := [
  ("==", .eq), ("!=", .ne), ("<>", .ne), ("<", .lt), ("<=", .le), (">", .gt), (">=", .ge),
  ("is", .isSame),
  ("is not", .isNotSame), ("in", .isIn), ("not in", .isNotIn)]

def ofText? (s : String) : Option CompareOp := spellings.lookup s

/-- The symbol in a script. Membership is a call. -/
def symbol? : CompareOp → Option String
  | .eq => some "=="
  | .ne => some "!="
  | .lt => some "<"
  | .le => some "<="
  | .gt => some ">"
  | .ge => some ">="
  | .isSame => some "==="
  | .isNotSame => some "!=="
  | .isIn | .isNotIn => none

end CompareOp

end ScriptCompiler
