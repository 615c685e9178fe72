import ScriptCompiler.Operator
import ScriptCompiler.Syntax.Kind
import ScriptCompiler.Text.Position

/-!
# Syntax trees

A program is a list of statements. Expressions and statements that have no counterpart in a script
at all are kept as `foreign`: only their kind and their place are of use. Nodes carry the position
of their first character unless it is that of their first part.
-/

namespace ScriptCompiler

inductive Constant where
  | true | false | none
deriving DecidableEq, Repr

inductive SequenceForm where
  | list | tuple | set | bare
deriving DecidableEq, Repr

inductive ComprehensionForm where
  | list | set | generator
deriving DecidableEq, Repr

/-- What may follow the expression in a hole of a format string, and where the hole may stand beside
the body of its token. -/
inductive HoleOption where
  | conversion | specifier | selfDocumenting
  /-- The hole begins before the body. -/
  | beforeBody
  /-- The hole ends behind the body. -/
  | beyondBody
deriving DecidableEq, Repr

/-- The variables of a comprehension clause. Only names can be bound there. -/
inductive ClauseTarget where
  | name (id : String)
  | names (ids : List String)
  | foreign (pos : Position) (kind : NodeKind)
deriving DecidableEq, Repr

mutual

inductive Expr where
  | name (pos : Position) (id : String)
  | number (pos : Position) (isFloat : Bool) (token : String)
  | constant (pos : Position) (value : Constant)
  | string (token : StringToken)
  /-- Adjacent string tokens. -/
  | joined (first : StringToken) (rest : List StringToken)
  | member (object : Expr) (key : String)
  | subscript (value : Expr) (indices : List Index)
  | call (function : Expr) (arguments : List Argument)
  | paren (pos : Position) (inner : Expr)
  | binary (op : BinaryOp) (left right : Expr)
  | unary (pos : Position) (op : UnaryOp) (operand : Expr)
  | boolean (op : BoolOp) (left right : Expr)
  /-- A comparison whose left side is a comparison itself, without parentheses, is a chain. -/
  | comparison (op : CompareOp) (left right : Expr)
  | conditional (body condition alternative : Expr)
  | lambda (pos : Position) (parameters : List Parameter) (body : Expr)
  | await (pos : Position) (operand : Expr)
  | sequence (pos : Position) (form : SequenceForm) (items : List Expr)
  | dictionary (pos : Position) (entries : List Entry)
  | comprehension (pos : Position) (form : ComprehensionForm) (body : Expr) (clauses : List Clause)
  | dictComprehension (pos : Position) (key value : Expr) (clauses : List Clause)
  | splat (pos : Position) (operand : Expr)
  | foreign (pos : Position) (kind : NodeKind)

/-- A string token with its text as written. Only a format string has holes among its pieces. -/
inductive StringToken where
  | mk (pos : Position) (token : String) (pieces : List Piece)

inductive Piece where
  | text (raw : List Char)
  | hole (pos : Position) (option : Option HoleOption) (value : Expr)

inductive Index where
  | item (value : Expr)
  | slice (lower upper step : Option Expr)

inductive Argument where
  | positional (value : Expr)
  | keyword (pos : Position) (name : String) (value : Expr)
  | keywordSplat (pos : Position)

inductive Entry where
  | pair (key value : Expr)
  | splat (value : Expr)

inductive Clause where
  | loop (pos : Position) (isAsync : Bool) (target : ClauseTarget) (iterable : Expr)
  | guard (condition : Expr)

/-- A parameter. Annotations are dropped, and so is what only separates parameters. -/
inductive Parameter where
  | plain (name : String)
  | withDefault (name : String) (value : Expr)
  | foreign (pos : Position) (construct : String)

end

namespace StringToken

def pos : StringToken → Position
  | .mk pos _ _ => pos

def token : StringToken → String
  | .mk _ token _ => token

def pieces : StringToken → List Piece
  | .mk _ _ pieces => pieces

end StringToken

namespace Expr

def start : Expr → Position
  | .name pos _ | .number pos _ _ | .constant pos _ | .paren pos _ | .unary pos _ _
  | .lambda pos _ _
  | .await pos _ | .sequence pos _ _ | .dictionary pos _ | .comprehension pos _ _ _
  | .dictComprehension pos _ _ _ | .splat pos _ | .foreign pos _ => pos
  | .string token | .joined token _ => token.pos
  | .member e _ | .subscript e _ | .call e _ | .binary _ e _ | .boolean _ e _ | .comparison _ e _
  | .conditional e _ _ => e.start

def kind : Expr → NodeKind
  | .name _ _ => .identifier
  | .number _ isFloat _ => if isFloat then .float else .integer
  | .constant _ .true => .trueLiteral
  | .constant _ .false => .falseLiteral
  | .constant _ .none => .noneLiteral
  | .string _ => .string
  | .joined _ _ => .concatenatedString
  | .member _ _ => .memberAccess
  | .subscript _ _ => .subscript
  | .call _ _ => .call
  | .paren _ _ => .parenthesizedExpression
  | .binary _ _ _ => .binaryOperator
  | .unary _ .not _ => .notOperator
  | .unary _ _ _ => .unaryOperator
  | .boolean _ _ _ => .booleanOperator
  | .comparison _ _ _ => .comparisonOperator
  | .conditional _ _ _ => .conditionalExpression
  | .lambda _ _ _ => .lambda
  | .await _ _ => .await
  | .sequence _ .list _ => .list
  | .sequence _ .tuple _ => .tuple
  | .sequence _ .set _ => .set
  | .sequence _ .bare _ => .expressionList
  | .dictionary _ _ => .dictionary
  | .comprehension _ .list _ _ => .listComprehension
  | .comprehension _ .set _ _ => .setComprehension
  | .comprehension _ .generator _ _ => .generatorExpression
  | .dictComprehension _ _ _ _ => .dictionaryComprehension
  | .splat _ _ => .listSplat
  | .foreign _ kind => kind

end Expr

inductive Target where
  | name (pos : Position) (id : String)
  | member (object : Expr) (key : String)
  | subscript (value : Expr) (indices : List Index)
  | foreign (pos : Position) (kind : NodeKind)

namespace Target

def start : Target → Position
  | .name pos _ | .foreign pos _ => pos
  | .member e _ | .subscript e _ => e.start

def kind : Target → NodeKind
  | .name _ _ => .identifier
  | .member _ _ => .memberAccess
  | .subscript _ _ => .subscript
  | .foreign _ kind => kind

end Target

/-- The right side of an assignment. A bare annotation has none. -/
inductive Assigned where
  | nothing
  | value (e : Expr)
  | chained

/-- A decorator is known by the name it consists of, if it is a name. -/
structure Decorator where
  pos : Position
  name : Option String
deriving DecidableEq, Repr

/-- A node as listings show it. -/
structure Node where
  kind : NodeKind
  pos : Position
deriving DecidableEq, Repr

def Expr.node (e : Expr) : Node := ⟨e.kind, e.start⟩

def Target.node (t : Target) : Node := ⟨t.kind, t.start⟩

mutual

inductive Stmt where
  /-- One expression, or several separated by commas. -/
  | evaluate (pos : Position) (items : List Expr)
  | assign (target : Target) (right : Assigned)
  | augment (target : Target) (op : BinaryOp) (value : Expr)
  | returns (pos : Position) (value : Option Expr)
  | pass (pos : Position)
  | breaks (pos : Position)
  | continues (pos : Position)
  /-- Names that belong to an outer scope; `first` is the place of the first one. -/
  | outer (pos : Position) (isGlobal : Bool) (first : Position) (names : List String)
  | asserts (pos : Position) (conditions : List Expr)
  | raises (pos : Position) (value : Option Expr) (cause : Option Expr)
  | prints (pos : Position) (redirection : Option Position) (values : List Expr)
  | branch (pos : Position) (condition : Expr) (body : List Stmt) (more : List Branch)
      (otherwise : Option (List Stmt))
  | forLoop (pos : Position) (isAsync : Bool) (target : Target) (iterable : Expr) (body : List Stmt)
      (otherwise : Option (List Stmt))
  | whileLoop (pos : Position) (condition : Expr) (body : List Stmt)
      (otherwise : Option (List Stmt))
  | function (decorators : List Decorator) (definition : FunctionDef)
  | classDef (decorators : List Decorator) (definition : ClassDef)
  /-- A statement without counterpart; `first` is its first part. -/
  | foreign (pos : Position) (kind : NodeKind) (first : Option Node)

/-- A further condition of an `if` statement with its block. -/
inductive Branch where
  | mk (condition : Expr) (body : List Stmt)

inductive FunctionDef where
  | mk (pos : Position) (isAsync : Bool) (namePos : Position) (name : String)
      (parameters : List Parameter)
      (body : List Stmt)

/-- A class. `bases` is the place and the content of the parentheses after its name. -/
inductive ClassDef where
  | mk (pos : Position) (namePos : Position) (name : String)
      (bases : Option (Position × List Argument))
      (body : List Stmt)

end

namespace FunctionDef

def pos : FunctionDef → Position
  | .mk pos _ _ _ _ _ => pos

def isAsync : FunctionDef → Bool
  | .mk _ isAsync _ _ _ _ => isAsync

def namePos : FunctionDef → Position
  | .mk _ _ namePos _ _ _ => namePos

def name : FunctionDef → String
  | .mk _ _ _ name _ _ => name

def parameters : FunctionDef → List Parameter
  | .mk _ _ _ _ parameters _ => parameters

def body : FunctionDef → List Stmt
  | .mk _ _ _ _ _ body => body

end FunctionDef

namespace ClassDef

def pos : ClassDef → Position
  | .mk pos _ _ _ _ => pos

def namePos : ClassDef → Position
  | .mk _ namePos _ _ _ => namePos

def name : ClassDef → String
  | .mk _ _ name _ _ => name

def bases : ClassDef → Option (Position × List Argument)
  | .mk _ _ _ bases _ => bases

def body : ClassDef → List Stmt
  | .mk _ _ _ _ body => body

end ClassDef

namespace Stmt

/-- Where a definition with decorators begins. -/
def decoratedStart (decorators : List Decorator) (pos : Position) : Position :=
  match decorators with
  | [] => pos
  | d :: _ => d.pos

def node : Stmt → Node
  | .evaluate pos _ => ⟨.expressionStatement, pos⟩
  | .assign target _ | .augment target _ _ => ⟨.expressionStatement, target.start⟩
  | .returns pos _ => ⟨.returnStatement, pos⟩
  | .pass pos => ⟨.passStatement, pos⟩
  | .breaks pos => ⟨.breakStatement, pos⟩
  | .continues pos => ⟨.continueStatement, pos⟩
  | .outer pos isGlobal _ _ => ⟨if isGlobal then .globalStatement else .nonlocalStatement, pos⟩
  | .asserts pos _ => ⟨.assertStatement, pos⟩
  | .raises pos _ _ => ⟨.raiseStatement, pos⟩
  | .prints pos _ _ => ⟨.printStatement, pos⟩
  | .branch pos _ _ _ _ => ⟨.ifStatement, pos⟩
  | .forLoop pos _ _ _ _ _ => ⟨.forStatement, pos⟩
  | .whileLoop pos _ _ _ => ⟨.whileStatement, pos⟩
  | .function decorators d =>
    ⟨if decorators.isEmpty then .functionDefinition else .decoratedDefinition,
      decoratedStart decorators d.pos⟩
  | .classDef decorators d =>
    ⟨if decorators.isEmpty then .classDefinition else .decoratedDefinition,
      decoratedStart decorators d.pos⟩
  | .foreign pos kind _ => ⟨kind, pos⟩

def decoratedFirst (decorators : List Decorator) (namePos : Position) : Node :=
  match decorators with
  | [] => ⟨.identifier, namePos⟩
  | d :: _ => ⟨.decorator, d.pos⟩

/-- The first part of a statement that is a node of its own. -/
def first? : Stmt → Option Node
  | .evaluate _ items => items.head?.map Expr.node
  | .assign target _ => some ⟨.assignment, target.start⟩
  | .augment target _ _ => some ⟨.augmentedAssignment, target.start⟩
  | .returns _ value => value.map Expr.node
  | .pass _ | .breaks _ | .continues _ => none
  | .outer _ _ first _ => some ⟨.identifier, first⟩
  | .asserts _ conditions => conditions.head?.map Expr.node
  | .raises _ value cause => (value.orElse (fun _ => cause)).map Expr.node
  | .prints _ redirection values =>
    match redirection with
    | some pos => some ⟨.chevron, pos⟩
    | none => values.head?.map Expr.node
  | .branch _ condition _ _ _ | .whileLoop _ condition _ _ => some condition.node
  | .forLoop _ _ target _ _ _ => some target.node
  | .function decorators d => some (decoratedFirst decorators d.namePos)
  | .classDef decorators d => some (decoratedFirst decorators d.namePos)
  | .foreign _ _ first => first

end Stmt

end ScriptCompiler
