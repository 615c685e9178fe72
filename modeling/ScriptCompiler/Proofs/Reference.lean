import ScriptCompiler.Session

/-!
# References to callables

Which callables of a context a program refers to can be read off its tree, the binding and the
scopes; what a binder has seen before does not matter. The functions of this module list the
references in the order in which they are lowered. Where a construct is refused, the list may name
more than the lowering gets to.
-/

namespace ScriptCompiler

/-- A place where a program refers to a callable, with the name and the owner that it is reached by
there. -/
structure Reference where
  identity : Nat
  callable : Callable
  access : String
  owner : Option String
deriving DecidableEq, Repr

namespace ContextHit

def reference? (hit : ContextHit) : Option Reference :=
  match hit.value with
  | .callable identity callable => some ⟨identity, callable, hit.access, hit.owner⟩
  | _ => none

/-- Whether the value has a text of its own: a callable its name, plain data its literal. -/
def isWritten (hit : ContextHit) : Bool :=
  match hit.value with
  | .callable _ _ => true
  | value => value.literal?.isSome

end ContextHit

/-- Whether neither a frame nor a binding gives a name a meaning. -/
def Scopes.leavesFree (scopes : Scopes) (binding : Option Binding) (name : String) : Bool :=
  !scopes.isBound name && ((Binder.ofBinding binding).lookup name).isNone

namespace Expr

/-- The references in the text that the context gives an expression; none if it gives it no text, so
that the parts of the expression are looked up one by one. -/
def contextReferences? (binding : Option Binding) (scopes : Scopes) (e : Expr) :
    Option (List Reference) :=
  match e.contextHit? scopes (.ofBinding binding) with
  | .error _ => some []
  | .ok none => none
  | .ok (some hit) => if hit.isWritten then some hit.reference?.toList else none

/-- Whether members of the expression are constructors. -/
def marksConstructor (binding : Option Binding) (scopes : Scopes) : Expr → Bool
  | .name _ id => id == "new" && scopes.leavesFree binding id
  | _ => false

/-- Whether calls of the expression are written in another way. -/
def isSpecialFunction (binding : Option Binding) (scopes : Scopes) : Expr → Bool
  | .name _ id => Script.hasSpecialCall id && scopes.leavesFree binding id
  | _ => false

end Expr

def declaredNames : List Parameter → List String
  | [] => []
  | .plain name :: rest | .withDefault name _ :: rest => name :: declaredNames rest
  | .foreign _ _ :: _ => []

/-- The scopes with the variables of a comprehension clause. -/
def ClauseTarget.boundIn (scopes : Scopes) : ClauseTarget → Scopes
  | .name id => scopes.register id
  | .names ids => scopes.registerAll ids
  | .foreign _ _ => scopes

/-- The scopes in which the body of a comprehension is evaluated. -/
def clauseScopes (scopes : Scopes) : List Clause → Scopes
  | [] => scopes
  | .loop _ _ target _ :: rest => clauseScopes (target.boundIn scopes) rest
  | .guard _ :: rest => clauseScopes scopes rest

section Expressions

variable (binding : Option Binding)

mutual

def Expr.references (scopes : Scopes) : Expr → List Reference
  | .name pos id => ((Expr.name pos id).contextReferences? binding scopes).getD []
  | .member object key =>
    if object.marksConstructor binding scopes then []
    else ((Expr.member object key).contextReferences? binding scopes).getD
      (object.references scopes)
  | .subscript value indices => value.references scopes ++ indexReferences scopes indices
  | .call function arguments =>
    (if function.isSpecialFunction binding scopes then [] else function.references scopes) ++
      argumentReferences scopes arguments
  | .binary _ left right | .boolean _ left right | .comparison _ left right =>
    left.references scopes ++ right.references scopes
  | .conditional body condition alternative =>
    condition.references scopes ++ body.references scopes ++ alternative.references scopes
  | .lambda _ parameters body =>
    parameterReferences scopes parameters ++ body.references
      (scopes.push.registerAll (declaredNames parameters))
  | .paren _ e | .unary _ _ e | .await _ e | .splat _ e => e.references scopes
  | .string token => token.references scopes
  | .joined first rest => first.references scopes ++ tokenReferences scopes rest
  | .sequence _ _ items => itemReferences scopes items
  | .dictionary _ entries => entryReferences scopes entries
  | .comprehension _ _ body clauses =>
    clauseReferences scopes.push clauses ++ body.references (clauseScopes scopes.push clauses)
  | .dictComprehension _ key value clauses =>
    clauseReferences scopes.push clauses ++
      (key.references (clauseScopes scopes.push clauses) ++
      value.references (clauseScopes scopes.push clauses))
  | .number _ _ _ | .constant _ _ | .foreign _ _ => []

def optionalReferences (scopes : Scopes) : Option Expr → List Reference
  | none => []
  | some e => e.references scopes

def indexReferences (scopes : Scopes) : List Index → List Reference
  | [] => []
  | .item e :: rest => e.references scopes ++ indexReferences scopes rest
  | .slice lower upper step :: rest =>
    optionalReferences scopes lower ++ optionalReferences scopes upper ++
      optionalReferences scopes step ++
      indexReferences scopes rest

def itemReferences (scopes : Scopes) : List Expr → List Reference
  | [] => []
  | e :: rest => e.references scopes ++ itemReferences scopes rest

def argumentReferences (scopes : Scopes) : List Argument → List Reference
  | [] => []
  | .positional e :: rest
  | .keyword _ _ e :: rest => e.references scopes ++ argumentReferences scopes rest
  | .keywordSplat _ :: rest => argumentReferences scopes rest

def entryReferences (scopes : Scopes) : List Entry → List Reference
  | [] => []
  | .pair key value :: rest => key.references scopes ++ value.references scopes ++
      entryReferences scopes rest
  | .splat e :: rest => e.references scopes ++ entryReferences scopes rest

/-- The references of comprehension clauses. Each clause is evaluated with the variables of those
before it. -/
def clauseReferences (scopes : Scopes) : List Clause → List Reference
  | [] => []
  | .loop _ _ target e :: rest => e.references scopes ++
      clauseReferences (target.boundIn scopes) rest
  | .guard e :: rest => e.references scopes ++ clauseReferences scopes rest

/-- The references of a string token. Only a format string has any. -/
def StringToken.references (scopes : Scopes) : StringToken → List Reference
  | .mk _ token pieces =>
    if Literal.isFormatString token.toList then pieceReferences scopes pieces else []

def tokenReferences (scopes : Scopes) : List StringToken → List Reference
  | [] => []
  | token :: rest => token.references scopes ++ tokenReferences scopes rest

def pieceReferences (scopes : Scopes) : List Piece → List Reference
  | [] => []
  | .text _ :: rest => pieceReferences scopes rest
  | .hole _ _ e :: rest => e.references scopes ++ pieceReferences scopes rest

/-- The references of the defaults of parameters. -/
def parameterReferences (scopes : Scopes) : List Parameter → List Reference
  | [] => []
  | .plain _ :: rest | .foreign _ _ :: rest => parameterReferences scopes rest
  | .withDefault _ e :: rest => e.references scopes ++ parameterReferences scopes rest

end

end Expressions

/-! ## Statements -/

/-- The names that the frame of a function binds, without the receiver of a function outside a
class. -/
def withoutSelf : List String → List String
  | name :: rest => if name = Lowering.selfName then rest else name :: rest
  | [] => []

/-- The names that the frame of a method binds, its receiver last. -/
def receiverLast : List String → List String
  | receiver :: rest => rest ++ [receiver]
  | [] => []

/-- The names that the frame of a method binds. -/
def methodNames (decorators : List Decorator) (names : List String) : List String :=
  match Lowering.methodForm decorators with
  | .ok .static => names
  | _ => receiverLast names

/-- Whether a function is registered between the braces of its class. -/
def isNative (decorators : List Decorator) : Bool :=
  match Lowering.methodForm decorators with
  | .ok .native => true
  | _ => false

namespace Target

/-- The scopes after a value is assigned. -/
def boundIn (scopes : Scopes) : Target → Scopes
  | .name _ id => scopes.register id
  | _ => scopes

def references (binding : Option Binding) (scopes : Scopes) : Target → List Reference
  | .member object _ => object.references binding scopes
  | .subscript value indices => (Expr.subscript value indices).references binding scopes
  | .name _ _ | .foreign _ _ => []

end Target

def Assigned.references (binding : Option Binding) (scopes : Scopes) : Assigned → List Reference
  | .value e => e.references binding scopes
  | .nothing | .chained => []

/-- The references of an assignment. A target that is only declared is not evaluated. -/
def assignmentReferences (binding : Option Binding) (scopes : Scopes) (target : Target) :
    Assigned → List Reference
  | .value e => e.references binding scopes ++ target.references binding scopes
  | .nothing | .chained => []

mutual

/-- The scopes after a statement, which may be a member of a class. -/
def Stmt.scopesAfter (inClass : Bool) (scopes : Scopes) : Stmt → Scopes
  | .assign target _ => target.boundIn scopes
  | .outer _ _ _ names => scopes.registerAll names
  | .branch _ _ body more otherwise =>
    otherwiseScopes inClass (branchScopes inClass (blockScopes inClass scopes body) more) otherwise
  | .forLoop _ _ target _ body _ => blockScopes inClass (target.boundIn scopes) body
  | .whileLoop _ _ body otherwise =>
    otherwiseScopes inClass (blockScopes inClass scopes body) otherwise
  | .function _ d => if inClass then scopes else scopes.register d.name
  | .classDef _ (.mk _ _ name _ body) => memberScopes (scopes.register name) body
  | .evaluate _ _ | .augment _ _ _ | .returns _ _ | .pass _ | .breaks _ | .continues _
  | .asserts _ _ | .raises _ _ _
  | .prints _ _ _ | .foreign _ _ _ => scopes

def blockScopes (inClass : Bool) (scopes : Scopes) : List Stmt → Scopes
  | [] => scopes
  | s :: rest => blockScopes inClass (s.scopesAfter inClass scopes) rest

def otherwiseScopes (inClass : Bool) (scopes : Scopes) : Option (List Stmt) → Scopes
  | none => scopes
  | some body => blockScopes inClass scopes body

def branchScopes (inClass : Bool) (scopes : Scopes) : List Branch → Scopes
  | [] => scopes
  | .mk _ body :: rest => branchScopes inClass (blockScopes inClass scopes body) rest

/-- The scopes after the members of a class. Attributes of a class are no variables. -/
def memberScopes (scopes : Scopes) : List Stmt → Scopes
  | [] => scopes
  | .assign _ _ :: rest => memberScopes scopes rest
  | s :: rest => memberScopes (s.scopesAfter true scopes) rest

end

section Statements

variable (binding : Option Binding)

mutual

def Stmt.references (inClass : Bool) (scopes : Scopes) : Stmt → List Reference
  | .evaluate _ items | .asserts _ items | .prints _ _ items => itemReferences binding scopes items
  | .assign target right => assignmentReferences binding scopes target right
  | .augment target _ right => target.references binding scopes ++ right.references binding scopes
  | .returns _ value | .raises _ value _ => optionalReferences binding scopes value
  | .branch _ condition body more otherwise =>
    condition.references binding scopes ++ blockReferences inClass scopes body ++
      branchReferences inClass (blockScopes inClass scopes body) more ++
      otherwiseReferences inClass
      (branchScopes inClass (blockScopes inClass scopes body) more) otherwise
  | .forLoop _ _ target iterable body _ =>
    iterable.references binding scopes ++ blockReferences inClass (target.boundIn scopes) body
  | .whileLoop _ condition body otherwise =>
    condition.references binding scopes ++ blockReferences inClass scopes body ++
      otherwiseReferences inClass (blockScopes inClass scopes body) otherwise
  | .function decorators (.mk _ _ _ name parameters body) =>
    if inClass then
      if isNative decorators then []
      else
        parameterReferences binding scopes parameters ++
          blockReferences false
          (scopes.push.registerAll (methodNames decorators (declaredNames parameters))) body
    else
      parameterReferences binding (scopes.register name) parameters ++
        blockReferences false
        ((scopes.register name).push.registerAll (withoutSelf (declaredNames parameters))) body
  | .classDef _ (.mk _ _ name _ body) =>
    nativeReferences (scopes.register name) body ++ memberReferences (scopes.register name) body
  | .pass _ | .breaks _ | .continues _ | .outer _ _ _ _ | .foreign _ _ _ => []

def blockReferences (inClass : Bool) (scopes : Scopes) : List Stmt → List Reference
  | [] => []
  | s :: rest => s.references inClass scopes ++ blockReferences inClass
      (s.scopesAfter inClass scopes) rest

def otherwiseReferences (inClass : Bool) (scopes : Scopes) : Option (List Stmt) → List Reference
  | none => []
  | some body => blockReferences inClass scopes body

def branchReferences (inClass : Bool) (scopes : Scopes) : List Branch → List Reference
  | [] => []
  | .mk condition body :: rest =>
    condition.references binding scopes ++ blockReferences inClass scopes body ++
      branchReferences inClass (blockScopes inClass scopes body) rest

/-- The references of the methods that are registered between the braces of a class. -/
def nativeReferences (scopes : Scopes) : List Stmt → List Reference
  | [] => []
  | .function decorators (.mk _ _ _ _ parameters body) :: rest =>
    (if isNative decorators then
      parameterReferences binding scopes parameters ++
        blockReferences false
        (scopes.push.registerAll (receiverLast (declaredNames parameters))) body
    else []) ++ nativeReferences scopes rest
  | _ :: rest => nativeReferences scopes rest

def memberReferences (scopes : Scopes) : List Stmt → List Reference
  | [] => []
  | .assign _ right :: rest => right.references binding scopes ++ memberReferences scopes rest
  | s :: rest => s.references true scopes ++ memberReferences (s.scopesAfter true scopes) rest

end

def programReferences (statements : List Stmt) : EntryPoint → List Reference
  | .module => blockReferences binding false .empty statements
  | .body =>
    match firstFunction? statements with
    | none => []
    | some d =>
      parameterReferences binding .empty d.parameters ++
        blockReferences binding false
        (Scopes.empty.registerAll (withoutSelf (declaredNames d.parameters))) d.body
  | .callable _ =>
    match firstFunction? statements with
    | none => []
    | some d =>
      parameterReferences binding .empty d.parameters ++
        blockReferences binding false
        (Scopes.empty.push.registerAll (withoutSelf (declaredNames d.parameters))) d.body

/-- The references of a source; a text that is no program has none. -/
def Session.references (source : String) (entry : EntryPoint) : List Reference :=
  match Session.parse source with
  | .ok program => programReferences binding program entry
  | .error _ => []

/-- The references of a callable. The name that it is written under does not matter. -/
def Callable.references (c : Callable) :
    List Reference := Session.references binding c.source (.callable c.name)

end Statements

end ScriptCompiler
