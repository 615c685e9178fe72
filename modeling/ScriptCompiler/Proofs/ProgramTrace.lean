import ScriptCompiler.Proofs.NameTrace

/-!
# Traces of programs

The trace of a program is read off its tree alone.
-/

namespace ScriptCompiler

/-! ## Traces of expressions -/

open NameTrace

/-- A function, or a comprehension, with its variables. -/
def functionTrace (binds body : NameTrace) : NameTrace := .enter :: (binds ++ body) ++ [.leave]

/-- The variables of parameters. -/
def parameterBinds (names : List String) : NameTrace := names.map (.bind .parameter)

def ClauseTarget.binds : ClauseTarget → NameTrace
  | .name id => [.bind .comprehended id]
  | .names ids => ids.map (.bind .comprehended)
  | .foreign _ _ => []

mutual

def Expr.trace : Expr → NameTrace
  | .name pos id => [.mention (.name pos id)]
  | .member object key => .mention (.member object key) :: object.trace
  | .subscript value [.item index] => value.trace ++ index.trace
  | .subscript value [.slice lower upper step] =>
    value.trace ++ (optionalTrace lower ++ (optionalTrace upper ++ optionalTrace step))
  | .call function arguments => function.trace ++ argumentTrace arguments
  | .binary _ left right | .boolean _ left right
  | .comparison _ left right => left.trace ++ right.trace
  | .conditional body condition alternative => condition.trace ++ (body.trace ++ alternative.trace)
  | .lambda _ parameters body =>
    defaultTrace parameters ++ functionTrace (parameterBinds (declaredNames parameters)) body.trace
  | .paren _ e | .unary _ _ e | .await _ e | .splat _ e => e.trace
  | .string token => token.trace
  | .joined first rest => first.trace ++ tokenTrace rest
  | .sequence _ _ items => itemTrace items
  | .dictionary _ entries => entryTrace entries
  | .comprehension _ _ body clauses => functionTrace (clauseTrace clauses) body.trace
  | .dictComprehension _ key value clauses =>
    functionTrace (clauseTrace clauses) (key.trace ++ value.trace)
  | .number _ _ _ | .constant _ _ | .foreign _ _ | .subscript _ _ => []

def optionalTrace : Option Expr → NameTrace
  | none => []
  | some e => e.trace

def itemTrace : List Expr → NameTrace
  | [] => []
  | e :: rest => e.trace ++ itemTrace rest

def argumentTrace : List Argument → NameTrace
  | [] => []
  | .positional e :: rest | .keyword _ _ e :: rest => e.trace ++ argumentTrace rest
  | .keywordSplat _ :: _ => []

def entryTrace : List Entry → NameTrace
  | [] => []
  | .pair key value :: rest => key.trace ++ (value.trace ++ entryTrace rest)
  | .splat e :: rest => e.trace ++ entryTrace rest

/-- The variables of a clause are bound when its iterable has been looked at. -/
def clauseTrace : List Clause → NameTrace
  | [] => []
  | .loop _ _ target e :: rest => e.trace ++ (target.binds ++ clauseTrace rest)
  | .guard e :: rest => e.trace ++ clauseTrace rest

def StringToken.trace : StringToken → NameTrace
  | .mk _ token pieces => if Literal.isFormatString token.toList then pieceTrace pieces else []

def tokenTrace : List StringToken → NameTrace
  | [] => []
  | token :: rest => token.trace ++ tokenTrace rest

def pieceTrace : List Piece → NameTrace
  | [] => []
  | .text _ :: rest => pieceTrace rest
  | .hole _ _ e :: rest => e.trace ++ pieceTrace rest

/-- Defaults are looked at outside the function that they belong to. -/
def defaultTrace : List Parameter → NameTrace
  | [] => []
  | .plain _ :: rest => defaultTrace rest
  | .withDefault _ e :: rest => e.trace ++ defaultTrace rest
  | .foreign _ _ :: _ => []

end

/-! ## Traces of statements -/

def Target.trace : Target → NameTrace
  | .member object _ => object.trace
  | .subscript value indices => (Expr.subscript value indices).trace
  | .name _ _ | .foreign _ _ => []

def Target.binds : Target → NameTrace
  | .name _ id => [.bind .declared id]
  | _ => []

def Assigned.trace : Assigned → NameTrace
  | .value e => e.trace
  | .nothing | .chained => []

/-- A target that is only declared is not evaluated. -/
def assignmentTrace (target : Target) : Assigned → NameTrace
  | .value e => e.trace ++ (target.trace ++ target.binds)
  | .nothing | .chained => target.binds

/-- The variables of a method, its receiver last. -/
def methodBinds : List String → NameTrace
  | receiver :: rest => parameterBinds rest ++ [.bind .receiver receiver]
  | [] => []

/-- The parameters of a method besides its receiver. -/
def behindReceiver : List Parameter → List Parameter
  | .plain _ :: rest | .withDefault _ _ :: rest => rest
  | [] | .foreign _ _ :: _ => []

/-- The parameters of a function besides a receiver that needs no variable. -/
def besideSelf (parameters : List Parameter) : List Parameter :=
  if (declaredNames parameters).head? =
    some Lowering.selfName then behindReceiver parameters else parameters

/-- The base of a class. -/
def baseTrace : Option (Position × List Argument) → NameTrace
  | some (_, [.positional (.name _ id)]) => [.base id]
  | _ => []

mutual

/-- The trace of a statement, which may be a member of a class. -/
def Stmt.trace (inClass : Bool) : Stmt → NameTrace
  | .evaluate _ items | .asserts _ items | .prints _ _ items => itemTrace items
  | .assign target right => assignmentTrace target right
  | .augment target _ right => target.trace ++ right.trace
  | .returns _ value | .raises _ value _ => optionalTrace value
  | .outer _ _ _ names => names.map .outer
  | .branch _ condition body more otherwise =>
    condition.trace ++
      (blockTrace inClass body ++ (branchTrace inClass more ++ otherwiseTrace inClass otherwise))
  | .forLoop _ _ target iterable body _ => iterable.trace ++
      (target.trace ++ (target.binds ++ blockTrace inClass body))
  | .whileLoop _ condition body otherwise =>
    condition.trace ++ (blockTrace inClass body ++ otherwiseTrace inClass otherwise)
  | .function decorators (.mk _ _ _ name parameters body) =>
    if inClass then
      if isNative decorators then []
      else
        match Lowering.methodForm decorators with
        | .ok .static =>
          defaultTrace parameters ++ functionTrace (parameterBinds (declaredNames parameters))
            (blockTrace false body)
        | _ =>
          defaultTrace (behindReceiver parameters) ++
            functionTrace (methodBinds (declaredNames parameters)) (blockTrace false body)
    else
      .bind .function name :: (defaultTrace (besideSelf parameters) ++
        functionTrace (parameterBinds (withoutSelf (declaredNames parameters)))
        (blockTrace false body))
  | .classDef _ (.mk _ _ name bases body) =>
    baseTrace bases ++ (.bind .className name :: (nativeTrace body ++ memberTrace body))
  | .pass _ | .breaks _ | .continues _ | .foreign _ _ _ => []

def blockTrace (inClass : Bool) : List Stmt → NameTrace
  | [] => []
  | s :: rest => s.trace inClass ++ blockTrace inClass rest

def otherwiseTrace (inClass : Bool) : Option (List Stmt) → NameTrace
  | none => []
  | some body => blockTrace inClass body

def branchTrace (inClass : Bool) : List Branch → NameTrace
  | [] => []
  | .mk condition body :: rest =>
    condition.trace ++ (blockTrace inClass body ++ branchTrace inClass rest)

/-- The methods that are registered between the braces of a class. -/
def nativeTrace : List Stmt → NameTrace
  | [] => []
  | .function decorators (.mk _ _ _ _ parameters body) :: rest =>
    if isNative decorators then
      defaultTrace (behindReceiver parameters) ++
        (functionTrace (methodBinds (declaredNames parameters)) (blockTrace false body) ++
        nativeTrace rest)
    else nativeTrace rest
  | _ :: rest => nativeTrace rest

/-- The other members of a class. -/
def memberTrace : List Stmt → NameTrace
  | [] => []
  | .assign _ right :: rest => right.trace ++ memberTrace rest
  | s :: rest => s.trace true ++ memberTrace rest

end

/-- The trace of a program. The name that a callable is written under is not one that its program
binds. -/
def programTrace (statements : List Stmt) : EntryPoint → NameTrace
  | .module => blockTrace false statements
  | .body =>
    match firstFunction? statements with
    | none => []
    | some d => parameterBinds (withoutSelf (declaredNames d.parameters)) ++ blockTrace false d.body
  | .callable _ =>
    match firstFunction? statements with
    | none => []
    | some d =>
      defaultTrace (besideSelf d.parameters) ++
        functionTrace (parameterBinds (withoutSelf (declaredNames d.parameters)))
        (blockTrace false d.body)

end ScriptCompiler
