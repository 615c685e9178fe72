import ScriptCompiler.Literal.StringToken
import ScriptCompiler.Names
import ScriptCompiler.Syntax.Tree

/-!
# Fragments

The texts that expressions are lowered to, and how they are put together. A text is enclosed in
parentheses where it is made, except for the kinds of expressions that `grouped` lists; those are
enclosed where they are used.
-/

namespace ScriptCompiler

/-- The text of an expression. Operands joined by one boolean operator are kept apart, so that a
longer chain of the same operator becomes one group. -/
inductive Fragment where
  | plain (text : String)
  | chain (op : BoolOp) (operands : List String)
deriving DecidableEq, Repr

namespace Fragment

def text : Fragment → String
  | .plain text => text
  | .chain op operands => "(" ++ (" " ++ op.symbol ++ " ").intercalate operands ++ ")"

/-- The operands that a fragment brings into a chain of an operator. -/
def operands (op : BoolOp) : Fragment → List String
  | .chain op' operands => if op' = op then operands else [Fragment.text (.chain op' operands)]
  | .plain text => [text]

end Fragment

namespace Script

def parens (text : String) : String := "(" ++ text ++ ")"

def braces (text : String) : String := "\x7b" ++ text ++ "\x7d"

def brackets (text : String) : String := "[" ++ text ++ "]"

def commas (parts : List String) : String := ", ".intercalate parts

/-- Kinds of expressions whose texts are not enclosed yet. -/
def isOpen : NodeKind → Bool
  | .comparisonOperator | .notOperator | .unaryOperator | .lambda | .await => true
  | _ => false

def grouped (kind : NodeKind) (text : String) : String := if isOpen kind then parens text else text

def isNumeralChar (c : Char) : Bool := c.isAlphanum || c = '.' || c = '+' || c = '-'

/-- Whether a text is a number, as far as its characters tell. -/
def isNumeral (text : String) : Bool :=
  match text.toList with
  | '-' :: rest => rest.all isNumeralChar
  | cs => cs.all isNumeralChar && cs.head?.any (fun c => c.isDigit || c = '.')

/-- The text of an object whose member is taken. A point after a number would be part of the
number. -/
def receiver (kind : NodeKind) (text : String) : String :=
  let text := grouped kind text
  if isNumeral text then parens text else text

def sliceArguments : Option String → Option String → Option String → String
  | none, none, none => "null"
  | some lower, none, none => lower ++ ", null"
  | none, some upper, none => upper
  | some lower, some upper, none => lower ++ ", " ++ upper
  | lower, upper, some step => lower.getD "null" ++ ", " ++ upper.getD "null" ++ ", " ++ step

def slice (base arguments : String) : String :=
  base ++ ".__getitem__(" ++ Names.helper ++ ".slice(" ++ arguments ++ "))"

/-- Calls that are written in another way, when they have positional arguments only. -/
def specialCall? (function : String) (arguments : List String) : Option String :=
  match function, arguments with
  | "len", [value] => some (value ++ ".length")
  | "range", [stop] => some ("[...Array(" ++ stop ++ ").keys()]")
  | "range", [start, stop] =>
    some ("Array.from(\x7blength: Math.max(0, " ++ stop ++ " - " ++ start ++ ")\x7d, (_, i) => " ++
      start ++ " + i)")
  | "range", [start, stop, step] =>
    some ("Array.from(\x7blength: Math.max(0, Math.ceil((" ++ stop ++ " - " ++ start ++
      ") / " ++ step ++
      "))\x7d, (_, i) => " ++ start ++ " + i * " ++ step ++ ")")
  | _, _ => none

def hasSpecialCall (function : String) : Bool := function == "len" || function == "range"

/-- A call. Keyword arguments are passed by a method of the function. -/
def call (function : String) (positional keywords : List String) : String :=
  if keywords.isEmpty then function ++ parens (commas positional)
  else function ++ ".args(" ++ brackets (commas positional) ++ ", " ++
    braces (commas keywords) ++ ")"

/-- Formatting by a string. A tuple or list gives the values for its fields one by one. -/
def format (argumentKind : NodeKind) (template argument : String) : String :=
  let function := match argumentKind with
    | .tuple | .list => "vsprintf"
    | _ => "sprintf"
  function ++ parens (template ++ ", " ++ argument)

/-- A binary operation that is not refused. -/
def binary (op : BinaryOp) (leftKind : NodeKind) (left : String) (rightKind : NodeKind)
    (right : String) : String :=
  match op.symbol? with
  | some symbol => parens (left ++ " " ++ symbol ++ " " ++ right)
  | none =>
    match op with
    | .power => "Math.pow" ++ parens (left ++ ", " ++ right)
    | _ => "Math.floor" ++ parens (grouped leftKind left ++ " / " ++ grouped rightKind right)

def comparison (op : CompareOp) (left : String) (rightKind : NodeKind) (right : String) : String :=
  match op.symbol? with
  | some symbol => left ++ " " ++ symbol ++ " " ++ right
  | none =>
    let test := receiver rightKind right ++ ".includes" ++ parens left
    if op = .isIn then test else "!" ++ parens test

structure Formal where
  name : String
  default : Option String
deriving DecidableEq, Repr

def arrowSignature (formals : List Formal) : String :=
  commas (formals.map fun p => match p.default with
    | some default => p.name ++ " = " ++ default
    | none => p.name)

/-- A generator function, called at once, that yields a value inside the given loops and
conditions. -/
def generator (openings : List String) (value : String) : String :=
  "(function* () \x7b " ++ String.join openings ++ "yield " ++ value ++ " " ++
    String.join (openings.map fun _ => "\x7d ") ++ "\x7d).call(this)"

def collected : ComprehensionForm → String → String
  | .list, generator | .generator, generator => brackets ("..." ++ generator)
  | .set, generator => "new Set([..." ++ generator ++ "])"

def collection : SequenceForm → List String → String
  | .set, items => "new Set([" ++ commas items ++ "])"
  | _, items => brackets (commas items)

def propertyKey (isLiteral : Bool) (text : String) :
    String := if isLiteral then text else brackets text

def template (body : String) : String := "\x60" ++ body ++ "\x60"

/-- The static text of a format string: doubled braces stand for single ones. -/
def undoubled (brace : Char) : List Char → List Char
  | [] => []
  | [c] => [c]
  | c :: d :: rest => if c = brace ∧ d = brace then brace :: undoubled brace rest else c ::
      undoubled brace (d :: rest)

/-- The static text between two holes of a format string, as part of a template. -/
def templateSegment (raw : Bool) (text : List Char) : Except Fault String := do
  let text := undoubled '\x7d' (undoubled '\x7b' text)
  let value ← if raw then pure text else Literal.decode text
  return String.ofList (Literal.templateText value)

end Script

namespace StringToken

def isFormat (t : StringToken) : Bool := Literal.isFormatString t.token.toList

end StringToken

namespace Expr

/-- Whether the expression is a string without holes, or several such strings. -/
def isPlainString : Expr → Bool
  | .string t => !t.isFormat
  | .joined first rest => !first.isFormat && rest.all (!·.isFormat)
  | _ => false

/-- Whether the expression is a key that needs no brackets. -/
def isLiteralKey : Expr → Bool
  | .string t => !t.isFormat
  | .joined _ _ | .number _ _ _ => true
  | _ => false

end Expr

end ScriptCompiler
