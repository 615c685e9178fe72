import ScriptCompiler.Session

/-!
# Names in a tree

All names that stand as expressions in an expression, a statement or a source, those in the holes of
format strings included.
-/

namespace ScriptCompiler

mutual

def Expr.names : Expr → List String
  | .name _ id => [id]
  | .string token => token.names
  | .joined first rest => first.names ++ tokenNames rest
  | .member e _ | .paren _ e | .unary _ _ e | .await _ e | .splat _ e => e.names
  | .subscript value indices => value.names ++ indexNames indices
  | .call function arguments => function.names ++ argumentNames arguments
  | .binary _ left right | .boolean _ left right
  | .comparison _ left right => left.names ++ right.names
  | .conditional body condition alternative => body.names ++ (condition.names ++ alternative.names)
  | .lambda _ parameters body => defaultNames parameters ++ body.names
  | .sequence _ _ items => itemNames items
  | .dictionary _ entries => entryNames entries
  | .comprehension _ _ body clauses => body.names ++ clauseNames clauses
  | .dictComprehension _ key value clauses => key.names ++ (value.names ++ clauseNames clauses)
  | .number _ _ _ | .constant _ _ | .foreign _ _ => []

def optionalNames : Option Expr → List String
  | none => []
  | some e => e.names

def indexNames : List Index → List String
  | [] => []
  | .item e :: rest => e.names ++ indexNames rest
  | .slice lower upper step :: rest =>
    optionalNames lower ++ (optionalNames upper ++ (optionalNames step ++ indexNames rest))

def itemNames : List Expr → List String
  | [] => []
  | e :: rest => e.names ++ itemNames rest

def argumentNames : List Argument → List String
  | [] => []
  | .positional e :: rest | .keyword _ _ e :: rest => e.names ++ argumentNames rest
  | .keywordSplat _ :: rest => argumentNames rest

def entryNames : List Entry → List String
  | [] => []
  | .pair key value :: rest => key.names ++ (value.names ++ entryNames rest)
  | .splat e :: rest => e.names ++ entryNames rest

def clauseNames : List Clause → List String
  | [] => []
  | .loop _ _ _ e :: rest | .guard e :: rest => e.names ++ clauseNames rest

def StringToken.names : StringToken → List String
  | .mk _ _ pieces => pieceNames pieces

def tokenNames : List StringToken → List String
  | [] => []
  | token :: rest => token.names ++ tokenNames rest

def pieceNames : List Piece → List String
  | [] => []
  | .text _ :: rest => pieceNames rest
  | .hole _ _ e :: rest => e.names ++ pieceNames rest

def defaultNames : List Parameter → List String
  | [] => []
  | .plain _ :: rest | .foreign _ _ :: rest => defaultNames rest
  | .withDefault _ e :: rest => e.names ++ defaultNames rest

end

def Target.names : Target → List String
  | .member object _ => object.names
  | .subscript value indices => value.names ++ indexNames indices
  | .name _ _ | .foreign _ _ => []

def Assigned.names : Assigned → List String
  | .value e => e.names
  | .nothing | .chained => []

mutual

def Stmt.names : Stmt → List String
  | .evaluate _ items | .asserts _ items | .prints _ _ items => itemNames items
  | .assign target right => target.names ++ right.names
  | .augment target _ right => target.names ++ right.names
  | .returns _ value => optionalNames value
  | .raises _ value cause => optionalNames value ++ optionalNames cause
  | .branch _ condition body more otherwise =>
    condition.names ++ (blockNames body ++ (branchNames more ++ otherwiseNames otherwise))
  | .forLoop _ _ target iterable body otherwise =>
    target.names ++ (iterable.names ++ (blockNames body ++ otherwiseNames otherwise))
  | .whileLoop _ condition body otherwise =>
    condition.names ++ (blockNames body ++ otherwiseNames otherwise)
  | .function _ (.mk _ _ _ _ parameters body) => defaultNames parameters ++ blockNames body
  | .classDef _ (.mk _ _ _ bases body) => bases.elim [] (argumentNames ·.2) ++ blockNames body
  | .pass _ | .breaks _ | .continues _ | .outer _ _ _ _ | .foreign _ _ _ => []

def blockNames : List Stmt → List String
  | [] => []
  | s :: rest => s.names ++ blockNames rest

def otherwiseNames : Option (List Stmt) → List String
  | none => []
  | some body => blockNames body

def branchNames : List Branch → List String
  | [] => []
  | .mk condition body :: rest => condition.names ++ (blockNames body ++ branchNames rest)

end

/-- The names in a source; none if it cannot be read. -/
def sourceNames (source : String) :
    List String := ((Session.parse source).map blockNames).toOption.getD []

theorem mem_itemNames {items : List Expr} {e : Expr} (he : e ∈ items) {id : String}
    (h : id ∈ e.names) : id ∈ itemNames items := by
  induction items with
  | nil => cases he
  | cons first rest ih =>
    rw [itemNames, List.mem_append]
    rcases List.mem_cons.mp he with rfl | he
    · exact .inl h
    · exact .inr (ih he)

theorem names_firstFunction? {statements : List Stmt} {d : FunctionDef}
    (h : firstFunction? statements = some d) :
    defaultNames d.parameters ++ blockNames d.body ⊆ blockNames statements := by
  induction statements with
  | nil => cases h
  | cons s rest ih =>
    cases s with
    | function decorators definition =>
      obtain ⟨pos, isAsync, namePos, name, parameters, body⟩ := definition
      cases h
      exact List.subset_append_left _ _
    | _ => exact List.subset_append_of_subset_right _ (ih h)

end ScriptCompiler
