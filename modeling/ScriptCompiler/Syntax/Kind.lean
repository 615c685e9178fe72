/-!
# Kinds of syntax nodes

Every node of a syntax tree has a kind. A kind has the name that the grammar gives it; diagnostics
speak of a refused construct by its description, or by that name where there is no description.
-/

namespace ScriptCompiler

inductive NodeKind where
  | module | block | expressionStatement | functionDefinition | decoratedDefinition | decorator
  | classDefinition
  | returnStatement | passStatement | breakStatement | continueStatement | globalStatement
  | nonlocalStatement
  | assertStatement | raiseStatement | ifStatement | elifClause | elseClause | forStatement
  | whileStatement
  | printStatement | tryStatement | withStatement | importStatement | importFromStatement
  | futureImportStatement
  | execStatement | deleteStatement | matchStatement | typeAliasStatement | assignment
  | augmentedAssignment
  | identifier | memberAccess | subscript | slice | call | argumentList | keywordArgument
  | listSplat
  | dictionarySplat | parenthesizedExpression | binaryOperator | unaryOperator | notOperator
  | booleanOperator
  | comparisonOperator | conditionalExpression | lambda | lambdaParameters | await | integer | float
  | string
  | concatenatedString | trueLiteral | falseLiteral | noneLiteral | list | tuple | set | dictionary
  | pair
  | expressionList | listComprehension | setComprehension | dictionaryComprehension
  | generatorExpression
  | forInClause | ifClause | namedExpression | yieldExpression | ellipsis | patternList
  | tuplePattern
  | listPattern | parameters | defaultParameter | typedParameter | typedDefaultParameter
  | listSplatPattern
  | dictionarySplatPattern | keywordSeparator | positionalSeparator | typeHint | comment | error
  | asPattern
  | chevron | dottedName | aliasedImport | relativeImport | withClause | parenthesizedListSplat
deriving DecidableEq, Repr, Inhabited

namespace NodeKind

def name : NodeKind → String
  | .module => "module"
  | .block => "block"
  | .expressionStatement => "expression_statement"
  | .functionDefinition => "function_definition"
  | .decoratedDefinition => "decorated_definition"
  | .decorator => "decorator"
  | .classDefinition => "class_definition"
  | .returnStatement => "return_statement"
  | .passStatement => "pass_statement"
  | .breakStatement => "break_statement"
  | .continueStatement => "continue_statement"
  | .globalStatement => "global_statement"
  | .nonlocalStatement => "nonlocal_statement"
  | .assertStatement => "assert_statement"
  | .raiseStatement => "raise_statement"
  | .ifStatement => "if_statement"
  | .elifClause => "elif_clause"
  | .elseClause => "else_clause"
  | .forStatement => "for_statement"
  | .whileStatement => "while_statement"
  | .printStatement => "print_statement"
  | .tryStatement => "try_statement"
  | .withStatement => "with_statement"
  | .importStatement => "import_statement"
  | .importFromStatement => "import_from_statement"
  | .futureImportStatement => "future_import_statement"
  | .execStatement => "exec_statement"
  | .deleteStatement => "delete_statement"
  | .matchStatement => "match_statement"
  | .typeAliasStatement => "type_alias_statement"
  | .assignment => "assignment"
  | .augmentedAssignment => "augmented_assignment"
  | .identifier => "identifier"
  | .memberAccess => "attribute"
  | .subscript => "subscript"
  | .slice => "slice"
  | .call => "call"
  | .argumentList => "argument_list"
  | .keywordArgument => "keyword_argument"
  | .listSplat => "list_splat"
  | .dictionarySplat => "dictionary_splat"
  | .parenthesizedExpression => "parenthesized_expression"
  | .binaryOperator => "binary_operator"
  | .unaryOperator => "unary_operator"
  | .notOperator => "not_operator"
  | .booleanOperator => "boolean_operator"
  | .comparisonOperator => "comparison_operator"
  | .conditionalExpression => "conditional_expression"
  | .lambda => "lambda"
  | .lambdaParameters => "lambda_parameters"
  | .await => "await"
  | .integer => "integer"
  | .float => "float"
  | .string => "string"
  | .concatenatedString => "concatenated_string"
  | .trueLiteral => "true"
  | .falseLiteral => "false"
  | .noneLiteral => "none"
  | .list => "list"
  | .tuple => "tuple"
  | .set => "set"
  | .dictionary => "dictionary"
  | .pair => "pair"
  | .expressionList => "expression_list"
  | .listComprehension => "list_comprehension"
  | .setComprehension => "set_comprehension"
  | .dictionaryComprehension => "dictionary_comprehension"
  | .generatorExpression => "generator_expression"
  | .forInClause => "for_in_clause"
  | .ifClause => "if_clause"
  | .namedExpression => "named_expression"
  | .yieldExpression => "yield"
  | .ellipsis => "ellipsis"
  | .patternList => "pattern_list"
  | .tuplePattern => "tuple_pattern"
  | .listPattern => "list_pattern"
  | .parameters => "parameters"
  | .defaultParameter => "default_parameter"
  | .typedParameter => "typed_parameter"
  | .typedDefaultParameter => "typed_default_parameter"
  | .listSplatPattern => "list_splat_pattern"
  | .dictionarySplatPattern => "dictionary_splat_pattern"
  | .keywordSeparator => "keyword_separator"
  | .positionalSeparator => "positional_separator"
  | .typeHint => "type"
  | .comment => "comment"
  | .error => "ERROR"
  | .asPattern => "as_pattern"
  | .chevron => "chevron"
  | .dottedName => "dotted_name"
  | .aliasedImport => "aliased_import"
  | .relativeImport => "relative_import"
  | .withClause => "with_clause"
  | .parenthesizedListSplat => "parenthesized_list_splat"

def all : List NodeKind := [
  .module, .block, .expressionStatement, .functionDefinition, .decoratedDefinition, .decorator,
  .classDefinition,
  .returnStatement, .passStatement, .breakStatement, .continueStatement, .globalStatement,
  .nonlocalStatement,
  .assertStatement, .raiseStatement, .ifStatement, .elifClause, .elseClause, .forStatement,
  .whileStatement,
  .printStatement, .tryStatement, .withStatement, .importStatement, .importFromStatement,
  .futureImportStatement,
  .execStatement, .deleteStatement, .matchStatement, .typeAliasStatement, .assignment,
  .augmentedAssignment,
  .identifier, .memberAccess, .subscript, .slice, .call, .argumentList, .keywordArgument,
  .listSplat,
  .dictionarySplat, .parenthesizedExpression, .binaryOperator, .unaryOperator, .notOperator,
  .booleanOperator,
  .comparisonOperator, .conditionalExpression, .lambda, .lambdaParameters, .await, .integer,
  .float, .string,
  .concatenatedString, .trueLiteral, .falseLiteral, .noneLiteral, .list, .tuple, .set,
  .dictionary, .pair,
  .expressionList, .listComprehension, .setComprehension, .dictionaryComprehension,
  .generatorExpression,
  .forInClause, .ifClause, .namedExpression, .yieldExpression, .ellipsis, .patternList,
  .tuplePattern,
  .listPattern, .parameters, .defaultParameter, .typedParameter, .typedDefaultParameter,
  .listSplatPattern,
  .dictionarySplatPattern, .keywordSeparator, .positionalSeparator, .typeHint, .comment, .error,
  .asPattern,
  .chevron, .dottedName, .aliasedImport, .relativeImport, .withClause, .parenthesizedListSplat]

def ofName? (s : String) : Option NodeKind := all.find? (fun k => k.name == s)

/-- Kinds that occur inside refused constructs only and have no label of their own. -/
def isUnlabelled : NodeKind → Bool
  | .asPattern | .chevron | .dottedName | .aliasedImport | .relativeImport | .withClause
  | .parenthesizedListSplat => true
  | _ => false

/-- Words joined by underscores as one capitalised word. -/
def capitalised : Bool → List Char → List Char
  | _, [] => []
  | up, c :: rest =>
    if c = '_' then capitalised true rest
    else (if up then c.toUpper else c.toLower) :: capitalised false rest

def label (k : NodeKind) : String :=
  if k.isUnlabelled then "Unknown" else String.ofList (capitalised true k.name.toList)

/-- What diagnostics call a construct of this kind, if not by its name in the grammar. -/
def description? : NodeKind → Option String
  | .tryStatement => some "exception handling (try)"
  | .withStatement => some "context-scoped resource block (with)"
  | .importStatement | .importFromStatement => some "module import"
  | .futureImportStatement => some "__future__ import"
  | .execStatement => some "exec block"
  | .deleteStatement => some "del statement"
  | .matchStatement => some "match statement"
  | .typeAliasStatement => some "type alias"
  | .namedExpression => some "assignment expression (:=)"
  | .yieldExpression => some "yield"
  | .ellipsis => some "ellipsis"
  | .listSplatPattern | .listSplat => some "star arguments"
  | .dictionarySplatPattern | .dictionarySplat => some "keyword arguments"
  | .keywordSeparator => some "keyword-only parameters"
  | .patternList | .tuplePattern | .listPattern => some "destructuring assignment"
  | _ => none

def construct (k : NodeKind) : String := k.description?.getD k.name

end NodeKind

end ScriptCompiler
