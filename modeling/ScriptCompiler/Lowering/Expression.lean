import ScriptCompiler.Literal.Number
import ScriptCompiler.Lowering.Fragment
import ScriptCompiler.Lowering.State

/-!
# Lowering expressions

Each form of expression gives one fragment of text. Names and chains of attributes are looked up in
the scopes first and in the context after that.
-/

namespace ScriptCompiler

/-- A value of the context that a name or a chain of attributes leads to. -/
structure ContextHit where
  value : ContextValue
  /-- The last name of the chain. -/
  access : String
  /-- The object that the value was read from. -/
  owner : Option String

/-- The value that an expression has in the context. A missing attribute of an object is a fault. -/
def Expr.contextHit? (scopes : Scopes) (binder : Binder) :
    Expr → Except Diagnostic (Option ContextHit)
  | .name _ id =>
    if scopes.isBound id then .ok none
    else .ok ((binder.lookup id).map fun value => ⟨value, id, none⟩)
  | .member object key => do
    match ← object.contextHit? scopes binder with
    | none => return none
    | some base =>
      let owner := match base.value with
        | .object objectName _ => some objectName
        | _ => none
      match Binder.attributeOf? base.value key with
      | .ok found => return found.map fun value => ⟨value, key, owner⟩
      | .error f => throw (f.reportAt object.start)
  | _ => .ok none

namespace Lowering

open Script

def contextText? (e : Expr) : Lowering (Option String) := do
  let s ← get
  match e.contextHit? s.scopes s.binder with
  | .error d => fail d
  | .ok none => return none
  | .ok (some hit) => render e.start hit.value hit.access hit.owner

/-- The variables of a comprehension clause, bound from here on. -/
def clauseTarget : ClauseTarget → Lowering String
  | .name id => do
    register id
    return Names.variableName id
  | .names ids => do
    ids.forM register
    return brackets (commas (ids.map Names.variableName))
  | .foreign pos kind => refuseKind kind pos

def arrow (formals : List Formal) (body : String) : Lowering String := do
  let buffer := (← get).buffer
  return "\n" ++ buffer.indentationAt (buffer.depth + 1) ++
    parens (arrowSignature formals) ++ " => " ++
    braces ("return " ++ body) ++ "\n" ++ buffer.indentation

def tall (entries : List String) : Lowering String := do
  let s ← get
  let depth := s.buffer.depth + s.dictNesting
  let inner := s.buffer.indentationAt (depth + 1)
  return "\x7b\n" ++ inner ++ (",\n" ++ inner).intercalate entries ++ "\n" ++
    s.buffer.indentationAt depth ++ "\x7d"

/-- Why a hole is not lowered. -/
def holeFault : HoleOption → Fault
  | .conversion => .unsupported "f-string conversion"
  | .specifier => .unsupported "f-string format specifier"
  | .selfDocumenting => .unsupported "self-documenting f-string"
  | .beforeBody | .beyondBody => .brokenSlice

structure ArgumentTexts where
  positional : List String
  keywords : List String

/-- The positional arguments of a special call. The one that `len` measures is the object of a
member access. -/
def specialArguments (function : String) (firstKind : Option NodeKind) (positional : List String) :
    List String :=
  match function, firstKind, positional with
  | "len", some kind, first :: rest => receiver kind first :: rest
  | _, _, positional => positional

/-- A call of a function that is neither in scope nor in the context and has special calls. -/
def specialCall (function : String) (firstKind : Option NodeKind) (arguments : ArgumentTexts) :
    String :=
  if arguments.keywords.isEmpty then
    let positional := specialArguments function firstKind arguments.positional
    (specialCall? function positional).getD (call (Names.spell function) positional [])
  else call (Names.spell function) arguments.positional arguments.keywords

/-- The function of a call, if its calls are special here. -/
def specialFunction? : Expr → Lowering (Option String)
  | .name _ id => do
    if hasSpecialCall id && (← isFree id) then return some id else return none
  | _ => return none

/-- Whether the expression is the free name `new`, whose members are constructors. -/
def isConstructorMark : Expr → Lowering Bool
  | .name _ id => do
    if id == "new" then isFree id else return false
  | _ => return false

def firstKind? : List Argument → Option NodeKind
  | .positional e :: _ => some e.kind
  | _ => none

mutual

def fragment : Expr → Lowering Fragment
  | .name pos id => do
    if (← get).scopes.isBound id then return .plain (Names.variableName id)
    match ← contextText? (.name pos id) with
    | some text => return .plain text
    | none => return .plain (Names.spell id)
  | .member object key => do
    if ← isConstructorMark object then return .plain ("new " ++ key)
    match ← contextText? (.member object key) with
    | some text => return .plain text
    | none =>
      let base ← fragment object
      return .plain (receiver object.kind base.text ++ "." ++ key)
  | .subscript value [.item index] => do
    let base ← fragment value
    let index ← fragment index
    return .plain (receiver value.kind base.text ++ brackets index.text)
  | .subscript value [.slice lower upper step] => do
    let base ← fragment value
    let lower ← optional lower
    let upper ← optional upper
    let step ← optional step
    return .plain (slice (receiver value.kind base.text) (sliceArguments lower upper step))
  | .subscript value _ => refuse "multi-index subscript" value.start
  | .call function arguments => do
    match ← specialFunction? function with
    | some name =>
      let texts ← argumentTexts arguments
      return .plain (specialCall name (firstKind? arguments) texts)
    | none =>
      let callee ← fragment function
      let texts ← argumentTexts arguments
      return .plain (call callee.text texts.positional texts.keywords)
  | .paren _ inner => do
    let text ← fragment inner
    return .plain (grouped inner.kind text.text)
  | .binary op left right => do
    if op = .matMul then refuse "matrix multiplication (@)" left.start
    let l ← fragment left
    let r ← fragment right
    if op = .mod && left.isPlainString then return .plain (format right.kind l.text r.text)
    return .plain (binary op left.kind l.text right.kind r.text)
  | .unary _ op operand => do
    let text ← fragment operand
    return .plain (op.symbol ++ parens text.text)
  | .boolean op left right => do
    let l ← fragment left
    let r ← fragment right
    return .chain op (l.operands op ++ r.operands op)
  | .comparison op left right => do
    if left.kind = .comparisonOperator then refuse "chained comparison" left.start
    let l ← fragment left
    let r ← fragment right
    return .plain (comparison op l.text right.kind r.text)
  | .conditional body condition alternative => do
    let c ← fragment condition
    let b ← fragment body
    let a ← fragment alternative
    return .plain (parens (c.text ++ " ? " ++ b.text ++ " : " ++ a.text))
  | .lambda _ parameters body => do
    let formals ← formals parameters
    let text ← inFrame do
      formals.forM (register ·.name)
      fragment body
    return .plain (← arrow formals text.text)
  | .await _ operand => do
    let text ← fragment operand
    return .plain ("await " ++ text.text)
  | .number pos _ token => do
    return .plain (String.ofList (← locate pos (Literal.lowerNumber token.toList)))
  | .string token => do
    if token.isFormat then return .plain (template (← templatePart token))
    else return .plain (String.ofList (← locate token.pos (Literal.lowerString token.token.toList)))
  | .joined first rest => do
    locate first.pos (Literal.takeApart ((first :: rest).map (·.token.toList)))
    if first.isFormat || rest.any (·.isFormat) then
      let head ← templatePart first
      let tail ← templateParts rest
      return .plain (template (head ++ tail))
    else
      let values ← (first :: rest).mapM fun t => locate t.pos (Literal.stringValue t.token.toList)
      return .plain (String.ofList (Literal.quoted values.flatten))
  | .constant _ .true => return .plain "true"
  | .constant _ .false => return .plain "false"
  | .constant _ .none => return .plain "null"
  | .sequence _ form items => do
    return .plain (collection form (← sequenceTexts items))
  | .dictionary _ entries => do
    if entries.length > 1 then
      let texts ← nested (entryTexts entries)
      return .plain (← tall texts)
    else
      let texts ← entryTexts entries
      return .plain (braces (commas texts))
  | .comprehension _ form body clauses => do
    let text ← inFrame do
      let openings ← clauseTexts clauses
      let value ← fragment body
      return generator openings value.text
    return .plain (collected form text)
  | .dictComprehension _ key value clauses => do
    let text ← inFrame do
      let openings ← clauseTexts clauses
      let k ← fragment key
      let v ← fragment value
      return generator openings (brackets (k.text ++ ", " ++ v.text))
    return .plain ("Object.fromEntries([..." ++ text ++ "])")
  | .splat pos _ => refuseKind .listSplat pos
  | .foreign pos kind => refuseKind kind pos

def optional : Option Expr → Lowering (Option String)
  | none => return none
  | some e => do
    let text ← fragment e
    return some text.text

/-- The texts of the items of a sequence; a starred item is spread. -/
def sequenceTexts : List Expr → Lowering (List String)
  | [] => return []
  | .splat _ operand :: rest => do
    let text ← fragment operand
    let texts ← sequenceTexts rest
    return ("..." ++ text.text) :: texts
  | e :: rest => do
    let text ← fragment e
    let texts ← sequenceTexts rest
    return text.text :: texts

def argumentTexts : List Argument → Lowering ArgumentTexts
  | [] => return ⟨[], []⟩
  | .positional value :: rest => do
    let text ← fragment value
    let texts ← argumentTexts rest
    return { texts with positional := text.text :: texts.positional }
  | .keyword _ name value :: rest => do
    let text ← fragment value
    let texts ← argumentTexts rest
    return { texts with keywords := (name ++ ": " ++ text.text) :: texts.keywords }
  | .keywordSplat pos :: _ => refuseKind .dictionarySplat pos

def entryTexts : List Entry → Lowering (List String)
  | [] => return []
  | .pair key value :: rest => do
    let k ← fragment key
    let v ← fragment value
    let texts ← entryTexts rest
    return (propertyKey key.isLiteralKey k.text ++ ": " ++ v.text) :: texts
  | .splat value :: rest => do
    let text ← fragment value
    let texts ← entryTexts rest
    return ("..." ++ text.text) :: texts

def clauseTexts : List Clause → Lowering (List String)
  | [] => return []
  | .loop pos isAsync target iterable :: rest => do
    if isAsync then refuse "async comprehension" pos
    let values ← fragment iterable
    let name ← clauseTarget target
    let texts ← clauseTexts rest
    return ("for (const " ++ name ++ " of " ++ values.text ++ ") \x7b ") :: texts
  | .guard condition :: rest => do
    let text ← fragment condition
    let texts ← clauseTexts rest
    return ("if (" ++ text.text ++ ") \x7b ") :: texts

def templatePart : StringToken → Lowering String
  | .mk pos token pieces => do
    match Literal.splitString? token.toList with
    | some parts =>
      if parts.flags.format then
        locate pos parts.checked
        templatePieces parts.flags.raw pos pieces
      else
        return String.ofList
          (Literal.templateText (← locate pos (Literal.stringValue token.toList)))
    | none => locate pos (.error (.malformedString token))

def templateParts : List StringToken → Lowering String
  | [] => return ""
  | token :: rest => do
    let text ← templatePart token
    let texts ← templateParts rest
    return text ++ texts

def templatePieces (raw : Bool) (pos : Position) : List Piece → Lowering String
  | [] => return ""
  | .text text :: rest => do
    let segment ← locate pos (templateSegment raw text)
    let texts ← templatePieces raw pos rest
    return segment ++ texts
  | .hole holePos option value :: rest => do
    match option with
    | some .beyondBody =>
      let _ ← fragment value
      locate holePos (.error .brokenSlice)
    | some option => locate holePos (.error (holeFault option))
    | none =>
      let text ← fragment value
      let texts ← templatePieces raw pos rest
      return "$\x7b" ++ text.text ++ "\x7d" ++ texts

/-- The parameters of a function. Their defaults are lowered outside the function, where they are
evaluated. -/
def formals : List Parameter → Lowering (List Formal)
  | [] => return []
  | .plain name :: rest => do
    let others ← formals rest
    return ⟨name, none⟩ :: others
  | .withDefault name value :: rest => do
    let text ← fragment value
    let others ← formals rest
    return ⟨name, some text.text⟩ :: others
  | .foreign pos construct :: _ => refuse construct pos

end

def text (e : Expr) : Lowering String := do
  return (← fragment e).text

end Lowering

end ScriptCompiler
