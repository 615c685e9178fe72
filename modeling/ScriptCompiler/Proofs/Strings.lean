import ScriptCompiler.Syntax.Tree

/-!
# String tokens of a tree

The texts of all string tokens that stand in an expression or a statement, those in the holes of
format strings included.
-/

namespace ScriptCompiler

mutual

def Expr.strings : Expr → List String
  | .string token => token.strings
  | .joined first rest => first.strings ++ tokenStrings rest
  | .member e _ | .paren _ e | .unary _ _ e | .await _ e | .splat _ e => e.strings
  | .subscript value indices => value.strings ++ indexStrings indices
  | .call function arguments => function.strings ++ argumentStrings arguments
  | .binary _ left right | .boolean _ left right
  | .comparison _ left right => left.strings ++ right.strings
  | .conditional body condition alternative => body.strings ++
      (condition.strings ++ alternative.strings)
  | .lambda _ parameters body => parameterStrings parameters ++ body.strings
  | .sequence _ _ items => itemStrings items
  | .dictionary _ entries => entryStrings entries
  | .comprehension _ _ body clauses => body.strings ++ clauseStrings clauses
  | .dictComprehension _ key value clauses => key.strings ++
      (value.strings ++ clauseStrings clauses)
  | .name _ _ | .number _ _ _ | .constant _ _ | .foreign _ _ => []

def optionalStrings : Option Expr → List String
  | none => []
  | some e => e.strings

def indexStrings : List Index → List String
  | [] => []
  | .item e :: rest => e.strings ++ indexStrings rest
  | .slice lower upper step :: rest =>
    optionalStrings lower ++ (optionalStrings upper ++ (optionalStrings step ++ indexStrings rest))

def itemStrings : List Expr → List String
  | [] => []
  | e :: rest => e.strings ++ itemStrings rest

def argumentStrings : List Argument → List String
  | [] => []
  | .positional e :: rest | .keyword _ _ e :: rest => e.strings ++ argumentStrings rest
  | .keywordSplat _ :: rest => argumentStrings rest

def entryStrings : List Entry → List String
  | [] => []
  | .pair key value :: rest => key.strings ++ (value.strings ++ entryStrings rest)
  | .splat e :: rest => e.strings ++ entryStrings rest

def clauseStrings : List Clause → List String
  | [] => []
  | .loop _ _ _ e :: rest | .guard e :: rest => e.strings ++ clauseStrings rest

def StringToken.strings : StringToken → List String
  | .mk _ token pieces => token :: pieceStrings pieces

def tokenStrings : List StringToken → List String
  | [] => []
  | token :: rest => token.strings ++ tokenStrings rest

def pieceStrings : List Piece → List String
  | [] => []
  | .text _ :: rest => pieceStrings rest
  | .hole _ _ e :: rest => e.strings ++ pieceStrings rest

def parameterStrings : List Parameter → List String
  | [] => []
  | .plain _ :: rest | .foreign _ _ :: rest => parameterStrings rest
  | .withDefault _ e :: rest => e.strings ++ parameterStrings rest

end

def Target.strings : Target → List String
  | .member object _ => object.strings
  | .subscript value indices => value.strings ++ indexStrings indices
  | .name _ _ | .foreign _ _ => []

def Assigned.strings : Assigned → List String
  | .value e => e.strings
  | .nothing | .chained => []

def baseStrings : Option (Position × List Argument) → List String
  | none => []
  | some (_, arguments) => argumentStrings arguments

mutual

def Stmt.strings : Stmt → List String
  | .evaluate _ items | .asserts _ items | .prints _ _ items => itemStrings items
  | .assign target right => target.strings ++ right.strings
  | .augment target _ right => target.strings ++ right.strings
  | .returns _ value => optionalStrings value
  | .raises _ value cause => optionalStrings value ++ optionalStrings cause
  | .branch _ condition body more otherwise =>
    condition.strings ++ (blockStrings body ++ (branchStrings more ++ otherwiseStrings otherwise))
  | .forLoop _ _ target iterable body otherwise =>
    target.strings ++ (iterable.strings ++ (blockStrings body ++ otherwiseStrings otherwise))
  | .whileLoop _ condition body otherwise =>
    condition.strings ++ (blockStrings body ++ otherwiseStrings otherwise)
  | .function _ (.mk _ _ _ _ parameters body) => parameterStrings parameters ++ blockStrings body
  | .classDef _ (.mk _ _ _ bases body) => baseStrings bases ++ blockStrings body
  | .pass _ | .breaks _ | .continues _ | .outer _ _ _ _ | .foreign _ _ _ => []

def blockStrings : List Stmt → List String
  | [] => []
  | s :: rest => s.strings ++ blockStrings rest

def otherwiseStrings : Option (List Stmt) → List String
  | none => []
  | some body => blockStrings body

def branchStrings : List Branch → List String
  | [] => []
  | .mk condition body :: rest => condition.strings ++ (blockStrings body ++ branchStrings rest)

end

def FunctionDef.strings (d : FunctionDef) :
    List String := parameterStrings d.parameters ++ blockStrings d.body

end ScriptCompiler
