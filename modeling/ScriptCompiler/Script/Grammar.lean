import ScriptCompiler.Script.Token

/-!
# The grammar of scripts

A check that a text is a script module. It covers the forms that compiled programs consist of. How
operators bind does not matter for that, so that operands and binary operators simply alternate.
-/

namespace ScriptCompiler.Script

def reservedWords : List String := [
  "break", "case", "catch", "class", "const", "continue", "debugger", "default", "delete", "do",
  "else", "enum",
  "export", "extends", "false", "finally", "for", "function", "if", "import", "in", "instanceof",
  "new", "null",
  "return", "super", "switch", "this", "throw", "true", "try", "typeof", "var", "void",
  "while", "with"]

/-- Reserved words that are expressions by themselves. -/
def wordValues : List String := ["this", "null", "true", "false"]

def prefixSymbols : List String := ["!", "~", "+", "-", "++", "--"]

def prefixWords : List String := ["typeof", "void", "delete"]

def binarySymbols : List String := [
  "||", "&&", "??", "|", "^", "&", "==", "!=", "===", "!==", "<", ">", "<=", ">=", "<<", ">>",
  ">>>", "+", "-", "*", "/", "%", "**"]

def binaryWords : List String := ["in", "instanceof"]

def assignmentSymbols : List String := [
  "=", "+=", "-=", "*=", "/=", "%=", "**=", "<<=", ">>=", ">>>=", "&=", "|=", "^="]

/-- What the functions around a place allow there. -/
structure Surroundings where
  returns : Bool
  awaits : Bool
  yields : Bool
deriving DecidableEq, Repr

namespace Surroundings

/-- Outside all functions of a module. -/
def module : Surroundings := { returns := false, awaits := true, yields := false }

def function (isAsync isGenerator : Bool) : Surroundings :=
  { returns := true, awaits := isAsync, yields := isGenerator }

end Surroundings

/-- Whether an expression may be assigned to. -/
inductive Assignability where
  | assignable | fixed
deriving DecidableEq, Repr

abbrev Recognizer := StateT (List Lexeme) Option

namespace Recognizer

def peek? : Recognizer (Option Lexeme) := return (← get).head?

def peekToken? : Recognizer (Option Token) := return (← peek?).map (·.token)

def advance : Recognizer Unit := modify List.tail

def take (token : Token) : Recognizer Bool := do
  if (← peekToken?) = some token then
    advance
    return true
  else return false

def expect (token : Token) : Recognizer Unit := do
  if !(← take token) then failure

def expectSymbol (text : String) : Recognizer Unit := expect (.symbol text)

def takeSymbol (text : String) : Recognizer Bool := take (.symbol text)

def expectWord (text : String) : Recognizer Unit := expect (.word text)

/-- Whether the next token stands on the line of the one before. -/
def onLine : Recognizer Bool := do
  match ← peek? with
  | some l => return !l.afterLine
  | none => return false

def takeOneOf (texts : List String) : Recognizer Bool := do
  match ← peekToken? with
  | some (.symbol s) => if texts.contains s then do advance; return true else return false
  | _ => return false

def takeWordOf (texts : List String) : Recognizer Bool := do
  match ← peekToken? with
  | some (.word w) => if texts.contains w then do advance; return true else return false
  | _ => return false

def memberName : Recognizer Unit := do
  match ← peekToken? with
  | some (.word _) => advance
  | _ => failure

def bindingName (s : Surroundings) : Recognizer Unit := do
  match ← peekToken? with
  | some (.word w) =>
    if reservedWords.contains w || (w = "await" && s.awaits) ||
      (w = "yield" && s.yields) then failure else advance
  | _ => failure

/-- The end of a statement: a semicolon, or a place where it may be left out. -/
def semicolon : Recognizer Unit := do
  match ← peek? with
  | none => pure ()
  | some l =>
    if l.token = .symbol ";" then advance
    else if l.token = .symbol "\x7d" || l.afterLine then pure ()
    else failure

def operandEnds : List Token :=
  [.symbol ";", .symbol "\x7d", .symbol ")", .symbol "]", .symbol ",", .symbol ":", .templateMiddle,
    .templateTail]

/-- Whether an operand of a word that may stand alone begins here. -/
def startsOperand : Recognizer Bool := do
  match ← peek? with
  | none => return false
  | some l => return !l.afterLine && !operandEnds.contains l.token

def isAssignment : Token → Bool
  | .symbol s => assignmentSymbols.contains s
  | _ => false

def bindingNames (s : Surroundings) : Nat → Recognizer Unit
  | 0 => failure
  | fuel + 1 => do
    bindingName s
    if ← takeSymbol "," then bindingNames s fuel else expectSymbol "]"

/-- The variable of a loop: a name, or names in brackets. -/
def loopBinding (s : Surroundings) (fuel : Nat) : Recognizer Unit := do
  if ← takeSymbol "[" then
    if !(← takeSymbol "]") then bindingNames s fuel
  else bindingName s

mutual

/-- Expressions between commas. -/
def expression : Nat → Surroundings → Recognizer Assignability
  | 0, _ => failure
  | fuel + 1, s => do
    let single ← assignment fuel s
    if ← takeSymbol "," then
      let _ ← expression fuel s
      return .fixed
    else return single

/-- One expression without commas around it. -/
def assignment : Nat → Surroundings → Recognizer Assignability
  | 0, _ => failure
  | fuel + 1, s => (do arrow fuel s; return .fixed) <|> do
    if s.yields && (← peekToken?) = some (.word "yield") then
      advance
      if ← startsOperand then
        let _ ← assignment fuel s
      return .fixed
    else
      let left ← unary fuel s
      if ← takeOneOf assignmentSymbols then
        if left = .fixed then failure
        let _ ← assignment fuel s
        return .fixed
      else
        let chained ← operations fuel s
        if ← takeSymbol "?" then
          let _ ← assignment fuel s
          expectSymbol ":"
          let _ ← assignment fuel s
          return .fixed
        else if (← peekToken?).any isAssignment then failure
        else return if chained then .fixed else left

/-- Further operands of binary operators. Tells whether there are any. -/
def operations : Nat → Surroundings → Recognizer Bool
  | 0, _ => failure
  | fuel + 1, s => do
    let operator ← takeOneOf binarySymbols
    let operator ← if operator then pure true else takeWordOf binaryWords
    if operator then
      let _ ← unary fuel s
      let _ ← operations fuel s
      return true
    else return false

def unary : Nat → Surroundings → Recognizer Assignability
  | 0, _ => failure
  | fuel + 1, s => do
    let operator ← takeOneOf prefixSymbols
    let operator ← if operator then pure true else takeWordOf prefixWords
    let operator ← if !operator && s.awaits then take (.word "await") else pure operator
    if operator then
      let _ ← unary fuel s
      return .fixed
    else
      let head ← primary fuel s
      members fuel s head

/-- Member accesses, subscripts and calls after an expression. -/
def members : Nat → Surroundings → Assignability → Recognizer Assignability
  | 0, _, _ => failure
  | fuel + 1, s, head => do
    match ← peekToken? with
    | some (.symbol ".") => do
      advance
      memberName
      members fuel s .assignable
    | some (.symbol "[") => do
      advance
      let _ ← expression fuel s
      expectSymbol "]"
      members fuel s .assignable
    | some (.symbol "(") => do
      advance
      items fuel s ")"
      members fuel s .fixed
    | some .template => do
      advance
      members fuel s .fixed
    | some .templateHead => do
      advance
      holes fuel s
      members fuel s .fixed
    | _ => return head

def primary : Nat → Surroundings → Recognizer Assignability
  | 0, _ => failure
  | fuel + 1, s => do
    match ← peekToken? with
    | none => failure
    | some (.number _) | some .string | some .template => do
      advance
      return .fixed
    | some .templateHead => do
      advance
      holes fuel s
      return .fixed
    | some (.symbol "(") => do
      advance
      let inner ← expression fuel s
      expectSymbol ")"
      return inner
    | some (.symbol "[") => do
      advance
      items fuel s "]"
      return .fixed
    | some (.symbol "\x7b") => do
      advance
      properties fuel s
      return .fixed
    | some (.word "function") => do
      advance
      functionExpression fuel s false
      return .fixed
    | some (.word "async") => do
      advance
      if (← peekToken?) = some (.word "function") && (← onLine) then
        advance
        functionExpression fuel s true
        return .fixed
      else return .assignable
    | some (.word "new") => do
      advance
      let _ ← primary fuel s
      return .fixed
    | some (.word "super") => do
      advance
      match ← peekToken? with
      | some (.symbol ".") | some (.symbol "[") | some (.symbol "(") => return .fixed
      | _ => failure
    | some (.word w) => do
      if wordValues.contains w then do
        advance
        return .fixed
      else do
        bindingName s
        return .assignable
    | _ => failure

/-- Expressions, which may be spread, between commas up to a closing symbol. -/
def items : Nat → Surroundings → String → Recognizer Unit
  | 0, _, _ => failure
  | fuel + 1, s, close => do
    if ← takeSymbol close then return
    let _ ← takeSymbol "..."
    let _ ← assignment fuel s
    if ← takeSymbol "," then items fuel s close else expectSymbol close

def properties : Nat → Surroundings → Recognizer Unit
  | 0, _ => failure
  | fuel + 1, s => do
    if ← takeSymbol "\x7d" then return
    if ← takeSymbol "..." then
      let _ ← assignment fuel s
    else
      match ← peekToken? with
      | some (.word _) | some .string | some (.number _) => advance
      | some (.symbol "[") => do
        advance
        let _ ← assignment fuel s
        expectSymbol "]"
      | _ => failure
      expectSymbol ":"
      let _ ← assignment fuel s
    if ← takeSymbol "," then properties fuel s else expectSymbol "\x7d"

/-- The holes of a template, and the texts after them. -/
def holes : Nat → Surroundings → Recognizer Unit
  | 0, _ => failure
  | fuel + 1, s => do
    let _ ← expression fuel s
    if ← take .templateMiddle then holes fuel s else expect .templateTail

/-- A function after its keyword. Its name is optional. -/
def functionExpression : Nat → Surroundings → Bool → Recognizer Unit
  | 0, _, _ => failure
  | fuel + 1, s, isAsync => do
    let isGenerator ← takeSymbol "*"
    if (← peekToken?) ≠ some (.symbol "(") then bindingName s
    functionRest fuel (.function isAsync isGenerator)

def functionRest : Nat → Surroundings → Recognizer Unit
  | 0, _ => failure
  | fuel + 1, s => do
    expectSymbol "("
    parameters fuel s
    expectSymbol "\x7b"
    statements fuel s

def parameters : Nat → Surroundings → Recognizer Unit
  | 0, _ => failure
  | fuel + 1, s => do
    if ← takeSymbol ")" then return
    if ← takeSymbol "..." then
      bindingName s
      expectSymbol ")"
    else
      bindingName s
      if ← takeSymbol "=" then
        let _ ← assignment fuel s
      if ← takeSymbol "," then parameters fuel s else expectSymbol ")"

/-- An arrow function. Its body suspends nothing; its parameters belong to what is around it. -/
def arrow : Nat → Surroundings → Recognizer Unit
  | 0, _ => failure
  | fuel + 1, s => do
    expectSymbol "("
    parameters fuel s
    if !(← onLine) then failure
    expectSymbol "=>"
    if ← takeSymbol "\x7b" then statements fuel (.function false false)
    else
      let _ ← assignment fuel { s with awaits := false, yields := false }

def statements : Nat → Surroundings → Recognizer Unit
  | 0, _ => failure
  | fuel + 1, s => do
    if ← takeSymbol "\x7d" then return
    statement fuel s
    statements fuel s

def statement : Nat → Surroundings → Recognizer Unit
  | 0, _ => failure
  | fuel + 1, s => do
    match ← peekToken? with
    | none => failure
    | some (.symbol ";") => advance
    | some (.symbol "\x7b") => do
      advance
      statements fuel s
    | some (.word "var") => do
      advance
      bindingName s
      if ← takeSymbol "=" then
        let _ ← assignment fuel s
      semicolon
    | some (.word "if") => do
      advance
      condition fuel s
      statement fuel s
      if ← take (.word "else") then statement fuel s
    | some (.word "while") => do
      advance
      condition fuel s
      statement fuel s
    | some (.word "do") => do
      advance
      statement fuel s
      expectWord "while"
      condition fuel s
      let _ ← takeSymbol ";"
    | some (.word "for") => do
      advance
      loopHeader fuel s
      statement fuel s
    | some (.word "return") => do
      advance
      if !s.returns then failure
      if ← startsOperand then
        let _ ← expression fuel s
      semicolon
    | some (.word "throw") => do
      advance
      if !(← onLine) then failure
      let _ ← expression fuel s
      semicolon
    | some (.word "break") | some (.word "continue") | some (.word "debugger") => do
      advance
      semicolon
    | some (.word "function") => do
      advance
      functionDeclaration fuel s false
    | some (.word "class") => do
      advance
      classDeclaration fuel s
    | some (.word "async") => asyncDeclaration fuel s <|> expressionStatement fuel s
    | _ => expressionStatement fuel s

def expressionStatement : Nat → Surroundings → Recognizer Unit
  | 0, _ => failure
  | fuel + 1, s => do
    let _ ← expression fuel s
    semicolon

def condition : Nat → Surroundings → Recognizer Unit
  | 0, _ => failure
  | fuel + 1, s => do
    expectSymbol "("
    let _ ← expression fuel s
    expectSymbol ")"

def loopHeader : Nat → Surroundings → Recognizer Unit
  | 0, _ => failure
  | fuel + 1, s => do
    expectSymbol "("
    if ← takeWordOf ["var", "const"] then loopBinding s fuel
    else
      let isAsync := (← peekToken?) = some (.word "async")
      if (← unary fuel s) = .fixed then failure
      if isAsync && (← peekToken?) = some (.word "of") then failure
    expectWord "of"
    let _ ← assignment fuel s
    expectSymbol ")"

def functionDeclaration : Nat → Surroundings → Bool → Recognizer Unit
  | 0, _, _ => failure
  | fuel + 1, s, isAsync => do
    let isGenerator ← takeSymbol "*"
    bindingName s
    functionRest fuel (.function isAsync isGenerator)

def asyncDeclaration : Nat → Surroundings → Recognizer Unit
  | 0, _ => failure
  | fuel + 1, s => do
    advance
    if !(← onLine) then failure
    expectWord "function"
    functionDeclaration fuel s true

def classDeclaration : Nat → Surroundings → Recognizer Unit
  | 0, _ => failure
  | fuel + 1, s => do
    bindingName s
    if ← take (.word "extends") then
      let head ← primary fuel s
      let _ ← members fuel s head
    expectSymbol "\x7b"
    methods fuel s

def methods : Nat → Surroundings → Recognizer Unit
  | 0, _ => failure
  | fuel + 1, s => do
    if ← takeSymbol "\x7d" then return
    if ← takeSymbol ";" then methods fuel s
    else
      let first ← peekToken?
      memberName
      if first = some (.word "async") && (← peekToken?) ≠ some (.symbol "(") then
        memberName
        functionRest fuel (.function true false)
      else functionRest fuel (.function false false)
      methods fuel s

end

def program (fuel : Nat) : Nat → Recognizer Unit
  | 0 => failure
  | count + 1 => do
    if (← get).isEmpty then return
    statement fuel .module
    program fuel count

end Recognizer

/-- Whether a text is a script module. Each token takes only a few steps. -/
def isModule (text : String) : Bool :=
  match lexemes? text with
  | none => false
  | some lexemes =>
    let fuel := 16 * (lexemes.length + 1)
    ((Recognizer.program fuel (lexemes.length + 1)).run lexemes).isSome

end ScriptCompiler.Script
