import ScriptCompiler.Proofs.Landmarks

/-!
# Spots of programs

The spots of an expression are read off its tree and the place where it stands, in the order of its
text. Comprehensions, lambdas and the ranges that count from a start become functions in the script.
Every definition that is written becomes a function with a header. Its role says which one: a
function of its own, or a method of a class in one of three forms.
-/

namespace ScriptCompiler

/-! ## Expressions -/

/-- A literal that was read without a fault. -/
def Spot.literals (text : Except Fault (List Char)) :
    List Spot := literalSpots (String.ofList (text.toOption.getD []))

/-- The spots of the arguments of a call. -/
structure ArgumentSpots where
  positional : List (List Spot)
  keywords : List (List Spot)

/-- A range that does not count from zero has its start, and its step, in the function that counts
once more. -/
def specialSpots (function : String) (arguments : List (List Spot)) : List Spot :=
  match function, arguments with
  | "range", [start, stop] => stop ++ start ++ [.function .counter [] start]
  | "range", [start, stop, step] => stop ++ start ++ step ++ [.function .counter [] (start ++ step)]
  | _, arguments => arguments.flatten

def ArgumentSpots.special (function : String) (arguments : ArgumentSpots) : List Spot :=
  if arguments.keywords.isEmpty then specialSpots function arguments.positional
  else arguments.positional.flatten ++ arguments.keywords.flatten

mutual

def Expr.spots (p : Place) : Expr → List Spot
  | .name _ _ | .constant _ _ | .foreign _ _ => []
  | .member object key =>
    if object.marksConstructor p.binding p.scopes then []
    else if ((Expr.member object key).contextMeaning? p.binding p.scopes).isSome then []
    else object.spots p
  | .subscript value [.item index] => value.spots p ++ index.spots p
  | .subscript value [.slice lower upper step] =>
    value.spots p ++ (optionalSpots p lower ++ optionalSpots p upper ++ optionalSpots p step)
  | .subscript _ _ => []
  | .call function arguments =>
    match function.specialFunction? p.binding p.scopes with
    | some name => (argumentSpots p arguments).special name
    | none =>
      function.spots p ++ (argumentSpots p arguments).positional.flatten ++
        (argumentSpots p arguments).keywords.flatten
  | .paren _ inner => inner.spots p
  | .binary _ left right | .boolean _ left right => left.spots p ++ right.spots p
  | .unary _ _ operand => operand.spots p
  | .comparison op left right => if op.symbol?.isSome then left.spots p ++
      right.spots p else right.spots p ++ left.spots p
  | .conditional body condition alternative => condition.spots p ++ body.spots p ++
      alternative.spots p
  | .lambda _ parameters body =>
    [.function .lambda (formalSpots p parameters).flatten
      (body.spots (p.inFrame (declaredNames parameters)))]
  | .await _ operand => .await :: operand.spots p
  | .number _ _ token => Spot.literals (Literal.lowerNumber token.toList)
  | .string token =>
    if token.isFormat then token.spots p
    else Spot.literals (Literal.lowerString token.token.toList)
  | .joined first rest =>
    if first.isFormat || rest.any (·.isFormat) then first.spots p ++ tokenSpots p rest
    else literalSpots (String.ofList (Literal.quoted ((first :: rest).flatMap fun t =>
      (Literal.stringValue t.token.toList).toOption.getD [])))
  | .sequence _ _ items => (itemSpots p items).flatten
  | .dictionary _ entries =>
    if entries.length > 1 then (entrySpots { p with nesting := p.nesting + 1 } entries).flatten
    else (entrySpots p entries).flatten
  | .comprehension _ _ body clauses =>
    [.function .comprehension [] ((clauseSpots (p.inFrame []) clauses).flatten ++
      body.spots { p with scopes := clauseScopes p.scopes.push clauses })]
  | .dictComprehension _ key value clauses =>
    [.function .comprehension [] ((clauseSpots (p.inFrame []) clauses).flatten ++
      (key.spots { p with scopes := clauseScopes p.scopes.push clauses } ++
        value.spots { p with scopes := clauseScopes p.scopes.push clauses }))]
  | .splat _ operand => operand.spots p

def optionalSpots (p : Place) : Option Expr → List Spot
  | none => []
  | some e => e.spots p

def itemSpots (p : Place) : List Expr → List (List Spot)
  | [] => []
  | e :: rest => e.spots p :: itemSpots p rest

def argumentSpots (p : Place) : List Argument → ArgumentSpots
  | [] => ⟨[], []⟩
  | .positional value :: rest =>
    { argumentSpots p rest with positional := value.spots p :: (argumentSpots p rest).positional }
  | .keyword _ _ value :: rest =>
    { argumentSpots p rest with keywords := value.spots p :: (argumentSpots p rest).keywords }
  | .keywordSplat _ :: _ => ⟨[], []⟩

def entrySpots (p : Place) : List Entry → List (List Spot)
  | [] => []
  | .pair key value :: rest => (key.spots p ++ value.spots p) :: entrySpots p rest
  | .splat value :: rest => value.spots p :: entrySpots p rest

def clauseSpots (p : Place) : List Clause → List (List Spot)
  | [] => []
  | .loop _ _ target iterable :: rest =>
    iterable.spots p :: clauseSpots { p with scopes := target.boundIn p.scopes } rest
  | .guard condition :: rest => condition.spots p :: clauseSpots p rest

def StringToken.spots (p : Place) : StringToken → List Spot
  | .mk _ token pieces =>
    match Literal.splitString? token.toList with
    | some parts =>
      if parts.flags.format then pieceSpots p parts.flags.raw pieces
      else Spot.literals ((Literal.stringValue token.toList).map Literal.templateText)
    | none => []

def tokenSpots (p : Place) : List StringToken → List Spot
  | [] => []
  | token :: rest => token.spots p ++ tokenSpots p rest

def pieceSpots (p : Place) (raw : Bool) : List Piece → List Spot
  | [] => []
  | .text text :: rest => literalSpots ((Script.templateSegment raw text).toOption.getD "") ++
      pieceSpots p raw rest
  | .hole _ _ value :: rest => value.spots p ++ pieceSpots p raw rest

/-- The spots of the defaults of parameters. -/
def formalSpots (p : Place) : List Parameter → List (List Spot)
  | [] => []
  | .plain _ :: rest => [] :: formalSpots p rest
  | .withDefault _ value :: rest => value.spots p :: formalSpots p rest
  | .foreign _ _ :: _ => []

end

/-! ## Roles of definitions -/

/-- How a definition is written. -/
inductive Role where
  /-- Outside of a class. A first parameter called `self` makes it a method in short form. -/
  | free
  /-- As a function under a name that is given to it. -/
  | named
  /-- Between the braces of its class. -/
  | native
  | static (className : String)
  | method (className : String)
deriving DecidableEq, Repr

namespace Role

/-- What belongs to the parameters that are written, of what belongs to all parameters. -/
def written {α : Type} (names : List String) (xs : List α) : Role → List α
  | .free | .named => if names.head? = some Lowering.selfName then xs.tail else xs
  | .native | .method _ => xs.tail
  | .static _ => xs

/-- What stands before the parameters. -/
def head (isAsync : Bool) (name : String) (names : List String) : Role → String
  | .free =>
    if names.head? = some Lowering.selfName then Lowering.asyncMark isAsync ++ name
    else Lowering.asyncMark isAsync ++ "function " ++ name
  | .named => Lowering.asyncMark isAsync ++ "function " ++ name
  | .native => Lowering.asyncMark isAsync ++ name
  | .static className | .method className =>
    className ++ ".prototype." ++ name ++ " = " ++ Lowering.asyncMark isAsync ++ "function"

def header (isAsync : Bool) (name : String) (names : List String) (role : Role) : String :=
  role.head isAsync name names ++
    (Script.parens (Script.commas (role.written names names)) ++ " \x7b")

end Role

/-- The spot of a definition, given the names and the spots of the defaults of its parameters. -/
def definitionSpot (role : Role) (isAsync : Bool) (name : String) (names : List String)
    (defaults : List (List Spot))
    (body : List Spot) : Spot :=
  .function (.definition isAsync (role.header isAsync name names))
    (role.written names defaults).flatten body

/-! ## Statements -/

def Target.spots (p : Place) : Target → List Spot
  | .member object _ => object.spots p
  | .subscript value indices => (Expr.subscript value indices).spots p
  | .name _ _ | .foreign _ _ => []

def Assigned.spots (p : Place) (left : Target) : Assigned → List Spot
  | .value right => left.spots p ++ right.spots p
  | .nothing | .chained => []

def Assigned.attributeSpots (p : Place) : Assigned → List Spot
  | .value right => right.spots p
  | .nothing | .chained => []

/-- An operator without a symbol has its target written once more. -/
def augmentSpots (p : Place) (left : Target) (op : BinaryOp) (right : Expr) : List Spot :=
  if op.symbol?.isSome then left.spots p ++ right.spots p else left.spots p ++ left.spots p ++
    right.spots p

mutual

def Stmt.spots (p : Place) : Stmt → List Spot
  | .evaluate _ items => (itemSpots p items).flatten
  | .assign left right => right.spots p left
  | .augment left op right => augmentSpots p left op right
  | .returns _ value | .raises _ value _ => optionalSpots p value
  | .asserts _ values | .prints _ _ values => (values.map (·.spots p)).flatten
  | .branch _ condition body more otherwise =>
    condition.spots p ++ blockSpots p.deeper body ++ branchSpots (p.afterBlock body) more ++
      otherwiseSpots ((p.afterBlock body).afterBranches more) otherwise
  | .forLoop _ _ left iterable body _ =>
    left.spots p ++ iterable.spots p ++ blockSpots (p.assigned left).deeper body
  | .whileLoop _ condition body none => condition.spots p ++ blockSpots p.deeper body
  | .whileLoop _ condition body (some otherwise) =>
    condition.spots p ++ blockSpots (p.later p.scopes 1).deeper body ++
      blockSpots ((p.later p.scopes 1).afterBlock body).deeper otherwise
  | .function decorators (.mk _ isAsync _ name parameters body) =>
    match p.className with
    | none =>
      [definitionSpot .free isAsync name (declaredNames parameters)
        (formalSpots (p.register name) parameters)
        (blockSpots ((p.register name).inFunction (withoutSelf (declaredNames parameters))) body)]
    | some className =>
      match Lowering.methodForm decorators with
      | .ok .native => []
      | .ok .static =>
        [definitionSpot (.static className) isAsync name (declaredNames parameters)
          (formalSpots p parameters)
          (blockSpots (p.inFunction (declaredNames parameters)) body)]
      | _ =>
        [definitionSpot (.method className) isAsync name (declaredNames parameters)
          (formalSpots p parameters)
          (blockSpots (p.inFunction (receiverLast (declaredNames parameters))) body)]
  | .classDef _ (.mk _ _ name _ body) =>
    nativeSpots (p.register name).deeper body ++
      memberSpots { (p.register name).afterNatives body with className := some name } body
  | .pass _ | .breaks _ | .continues _ | .outer _ _ _ _ | .foreign _ _ _ => []

def blockSpots (p : Place) : List Stmt → List Spot
  | [] => []
  | s :: rest => s.spots p ++ blockSpots (p.afterStmt s) rest

def otherwiseSpots (p : Place) : Option (List Stmt) → List Spot
  | none => []
  | some body => blockSpots p.deeper body

def branchSpots (p : Place) : List Branch → List Spot
  | [] => []
  | .mk condition body :: rest => condition.spots p ++ blockSpots p.deeper body ++
      branchSpots (p.afterBlock body) rest

def nativeSpots (p : Place) : List Stmt → List Spot
  | [] => []
  | .function decorators (.mk _ isAsync _ name parameters body) :: rest =>
    if isNative decorators then
      literalSpots (Lowering.asyncMark isAsync ++ name) ++
        definitionSpot .native isAsync name (declaredNames parameters) (formalSpots p parameters)
          (blockSpots (p.inFunction (receiverLast (declaredNames parameters))) body) ::
        nativeSpots (p.later p.scopes (blockSentinels false body)) rest
    else nativeSpots p rest
  | _ :: rest => nativeSpots p rest

def memberSpots (p : Place) : List Stmt → List Spot
  | [] => []
  | .assign _ right :: rest => right.attributeSpots p ++ memberSpots p rest
  | s :: rest => s.spots p ++ memberSpots (p.afterStmt s) rest

end

def programSpots (binding : Option Binding) (statements : List Stmt) : EntryPoint → List Spot
  | .module => blockSpots (.start binding) statements
  | .body =>
    match firstFunction? statements with
    | none => []
    | some d => blockSpots
        ((Place.start binding).registerAll (withoutSelf (declaredNames d.parameters))) d.body
  | .callable name =>
    match firstFunction? statements with
    | none => []
    | some d =>
      [definitionSpot .named d.isAsync name (declaredNames d.parameters)
        (formalSpots (.start binding) d.parameters)
        (blockSpots ((Place.start binding).inFunction (withoutSelf (declaredNames d.parameters)))
        d.body)]

end ScriptCompiler
