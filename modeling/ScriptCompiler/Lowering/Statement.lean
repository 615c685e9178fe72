import ScriptCompiler.Lowering.Expression

/-!
# Lowering statements

Statements write lines. A class is written in two passes: first its constructor and the methods that
are registered natively, between the braces, then its attributes and all other methods as
assignments to the class and its prototype.
-/

namespace ScriptCompiler.Lowering

open Script

/-- What a decorator asks for. -/
inductive MethodForm where
  | ordinary
  | static
  /-- Registered inside the braces of the class. -/
  | native
deriving DecidableEq, Repr

def methodForm : List Decorator → Except Diagnostic MethodForm
  | [] => .ok .ordinary
  | [d] =>
    if d.name = some "staticmethod" then .ok .static
    else if d.name = some "JavaScript" then .ok .native
    else .error ((Diagnostic.unsupported "decorator" d.pos).withHint
      "Only @staticmethod and @JavaScript are translated")
  | d :: _ => .error (.unsupported "multiple decorators" d.pos)

/-- How a function gets at the object that it is called on. -/
inductive Receiver where
  | absent
  /-- A variable of the function. -/
  | bound (name : String)
  /-- No variable: the name is looked up as any other. -/
  | unbound
deriving DecidableEq, Repr

/-- The name of a receiver that needs no variable. -/
def selfName : String := "self"

def asyncMark (isAsync : Bool) : String := if isAsync then "async " else ""

def parameterNames (formals : List Formal) : String := commas (formals.map (·.name))

def functionHeader (isAsync : Bool) (name : String) (formals : List Formal) : String :=
  asyncMark isAsync ++ "function " ++ name ++ parens (parameterNames formals) ++ " \x7b"

def shorthandHeader (isAsync : Bool) (name : String) (formals : List Formal) : String :=
  asyncMark isAsync ++ name ++ parens (parameterNames formals) ++ " \x7b"

def prototypeHeader (isAsync : Bool) (className name : String) (formals : List Formal) : String :=
  className ++ ".prototype." ++ name ++ " = " ++ asyncMark isAsync ++ "function" ++
    parens (parameterNames formals) ++ " \x7b"

def defaultLine (name default : String) : String :=
  name ++ " = typeof(" ++ name ++ ") != 'undefined' ? " ++ name ++ " : " ++ default ++ ";"

/-- Write the lines of an action one level deeper, and a closer behind them in any case. -/
def enclosed (closer : String) (inner : Lowering Unit) : Lowering Unit := do
  perform .indent
  ensuring [.dedent, .write closer] inner

/-- Write a function: header, defaults, receiver, body and closer. A function is no part of the
class around it. -/
def functionBody (header : String) (formals : List Formal) (receiver : Receiver) (closer : String)
    (body : Lowering Unit) : Lowering Unit := inClass none do
  write header
  enclosed closer <| inFrame do
    formals.forM (register ·.name)
    formals.forM fun p => match p.default with
      | some default => write (defaultLine p.name default)
      | none => pure ()
    match receiver with
    | .bound name => do
      register name
      if name ≠ selfName then write ("var " ++ name ++ " = this;")
    | .absent | .unbound => pure ()
    body

/-- Take the receiver off the front of the parameters if it is called `self`. -/
def splitSelf (formals : List Formal) : Receiver × List Formal :=
  match formals with
  | p :: rest => if p.name = selfName then (.unbound, rest) else (.absent, formals)
  | [] => (.absent, [])

/-- A function outside a class. One whose first parameter is `self` is a method in short form. -/
def plainFunction (isAsync : Bool) (name : String) (formals : List Formal) (body : Lowering Unit) :
    Lowering Unit :=
  match splitSelf formals with
  | (.unbound, rest) => functionBody (shorthandHeader isAsync name rest) rest .unbound "\x7d" body
  | (receiver, rest) => functionBody (functionHeader isAsync name rest) rest receiver "\x7d" body

/-- A function of its own under a given name. -/
def namedFunction (isAsync : Bool) (name : String) (formals : List Formal) (body : Lowering Unit) :
    Lowering Unit :=
  let (receiver, rest) := splitSelf formals
  functionBody (functionHeader isAsync name rest) rest receiver "\x7d" body

/-- A method that is assigned to the class without a receiver. -/
def staticMethod (className : String) (isAsync : Bool) (name : String) (formals : List Formal)
    (body : Lowering Unit) : Lowering Unit := do
  functionBody (prototypeHeader isAsync className name formals) formals .absent "\x7d;" body
  write (className ++ "." ++ name ++ " = " ++ className ++ ".prototype." ++ name ++ ";")

/-- A method with a receiver, and the function of the class that takes the receiver as its first
argument. -/
def instanceMethod (className : String) (pos : Position) (isAsync : Bool) (name : String)
    (formals : List Formal)
    (body : Lowering Unit) : Lowering Unit :=
  match formals with
  | [] => refuse "method without a receiver parameter" pos
  | p :: rest => do
    functionBody (prototypeHeader isAsync className name rest) rest (.bound p.name) "\x7d;" body
    write (className ++ "." ++ name ++ " = function() \x7b")
    indented do
      write ("return " ++ className ++ ".prototype." ++ name ++
        ".apply(arguments[0], Array.prototype.slice.call(arguments, 1));")
    write "\x7d;"

/-- A method between the braces of its class. -/
def nativeMethod (isAsync : Bool) (name : String) (formals : List Formal) (body : Lowering Unit) :
    Lowering Unit :=
  match formals with
  | [] => functionBody (shorthandHeader isAsync name []) [] .absent "\x7d" body
  | p :: rest => functionBody (shorthandHeader isAsync name rest) rest (.bound p.name) "\x7d" body

def classBase : Option (Position × List Argument) → Lowering (Option String)
  | none | some (_, []) => return none
  | some (_, [.positional (.name _ id)]) => return if id = "object" then none else some id
  | some (_, [argument]) =>
    let pos := match argument with
      | .positional e => e.start
      | .keyword pos _ _ | .keywordSplat pos => pos
    refuse "class base other than a bare name" pos
  | some (pos, _) => refuse "multiple inheritance" pos

def isInitialiser : Stmt → Bool
  | .function _ d => d.name == "__init__"
  | _ => false

/-- The constructor passes its arguments on, to the base first. -/
def constructor (hasBase : Bool) : Lowering Unit := do
  write "constructor(...args) \x7b"
  indented do
    if hasBase then write "super(...args);"
    write "this.__init__(...args);"
  write "\x7d"

def classHeader (name : String) (base : Option String) : String :=
  match base with
  | some base => "class " ++ name ++ " extends " ++ base ++ " \x7b"
  | none => "class " ++ name ++ " \x7b"

def hasSlice (indices : List Index) : Bool :=
  indices.any fun
    | .slice _ _ _ => true
    | .item _ => false

/-- The text of a target that is assigned to. Its last member is never looked up in the context. -/
def target : Target → Lowering String
  | .name _ id => return Names.variableName id
  | .member object key => do
    return (← text object) ++ "." ++ key
  | .subscript value indices => do
    if hasSlice indices then refuse "slice assignment" value.start
    text (.subscript value indices)
  | .foreign pos kind => refuseKind kind pos

def declaring (id : String) : Lowering String := do
  match ← declare id with
  | .fresh => return "var " ++ Names.variableName id
  | .reused => return Names.variableName id

def assign (left : Target) : Assigned → Lowering Unit
  | .chained => refuse "chained assignment" left.start
  | .nothing => do
    if let .name _ id := left then
      if (← declare id) = .fresh then write ("var " ++ Names.variableName id ++ ";")
  | .value right => do
    let value ← text right
    let name ← match left with
      | .name _ id => declaring id
      | left => target left
    write (name ++ " = " ++ value ++ ";")

def augment (left : Target) (op : BinaryOp) (right : Expr) : Lowering Unit := do
  let name ← target left
  let value ← text right
  match op.symbol? with
  | some symbol => write (name ++ " " ++ symbol ++ "= " ++ value ++ ";")
  | none =>
    match op with
    | .power => write (name ++ " = Math.pow(" ++ name ++ ", " ++ value ++ ");")
    | .floorDiv =>
      write (name ++ " = Math.floor(" ++ name ++ " / " ++ grouped right.kind value ++ ");")
    | _ => refuse "matrix multiplication (@=)" left.start

def classAttribute (className : String) (left : Target) (right : Assigned) : Lowering Unit :=
  match left with
  | .name _ id =>
    match right with
    | .nothing => pure ()
    | .chained => refuse "chained assignment" left.start
    | .value e => do
      let value ← text e
      write (className ++ "." ++ id ++ " = " ++ value ++ ";")
      write (className ++ ".prototype." ++ id ++ " = " ++ className ++ "." ++ id ++ ";")
  | left => refuse "class attribute target other than a name" left.start

/-- A loop with a block for the case that its condition became false. A variable, declared ahead of
the loop, tells whether it did. -/
def whileElse (condition : String) (body otherwise : Lowering Unit) : Lowering Unit := do
  let sentinel ← temporary "orelse"
  let mark ← reserve
  write "while (true) \x7b"
  indented do
    write ("if (!(" ++ condition ++ ")) \x7b")
    indented do
      write (sentinel ++ " = true;")
      write "break;"
    write "\x7d"
    body
  write "\x7d"
  patch mark ("var " ++ sentinel ++ " = false;")
  write ("if (" ++ sentinel ++ ") \x7b")
  indented otherwise
  write "\x7d"

def formOf (decorators : List Decorator) : Lowering MethodForm :=
  match methodForm decorators with
  | .ok form => pure form
  | .error d => fail d

mutual

def statement : Stmt → Lowering Unit
  | .evaluate _ [e] => do write ((← text e) ++ ";")
  | .evaluate _ items => do write (brackets (commas (← sequenceTexts items)) ++ ";")
  | .assign left right => assign left right
  | .augment left op right => augment left op right
  | .returns _ none => write "return;"
  | .returns _ (some e) => do write ("return " ++ (← text e) ++ ";")
  | .pass _ => write "/* pass */"
  | .breaks _ => write "break;"
  | .continues _ => write "continue;"
  | .outer _ _ _ names => names.forM register
  | .asserts _ conditions => do write ("assert(" ++ commas (← conditions.mapM text) ++ ");")
  | .raises pos _ (some _) => refuse "exception chaining (raise .. from)" pos
  | .raises pos none none => refuse "bare raise" pos
  | .raises _ (some e) none => do write ("throw " ++ (← text e) ++ ";")
  | .prints _ (some pos) _ => refuse "print redirection (>>)" pos
  | .prints _ none values => do write ("console.log(" ++ commas (← values.mapM text) ++ ");")
  | .branch _ condition body more otherwise => do
    write ("if (" ++ (← text condition) ++ ") \x7b")
    indented (block body)
    branches more
    match otherwise with
    | none => pure ()
    | some otherwise =>
      write "\x7d else \x7b"
      indented (block otherwise)
    write "\x7d"
  | .forLoop pos isAsync left iterable body otherwise => do
    if isAsync then refuse "async for" pos
    if otherwise.isSome then refuse "for-else" pos
    match left with
    | .name _ id =>
      let values ← text iterable
      write ("for (" ++ (← declaring id) ++ " of " ++ values ++ ") \x7b")
      indented (block body)
      write "\x7d"
    | left => refuse "destructuring loop target" left.start
  | .whileLoop _ condition body none => do
    write ("while (" ++ (← text condition) ++ ") \x7b")
    indented (block body)
    write "\x7d"
  | .whileLoop _ condition body (some otherwise) => do
    whileElse (← text condition) (block body) (block otherwise)
  | .function decorators (.mk pos isAsync _ name parameters body) => do
    let form ← formOf decorators
    match (← get).className, form with
    | some _, .native => pure ()
    | some className,
        .static => do staticMethod className isAsync name (← formals parameters) (block body)
    | some className, .ordinary => do
      instanceMethod className pos isAsync name (← formals parameters) (block body)
    | none, .static => refuse "staticmethod outside a class" pos
    | none, _ => do
      register name
      plainFunction isAsync name (← formals parameters) (block body)
  | .classDef [] (.mk _ _ name bases body) => do
    let base ← classBase bases
    register name
    write (classHeader name base)
    indented do
      if body.any isInitialiser then constructor base.isSome
      nativeMethods body
    write "\x7d"
    inClass (some name) (members name body)
  | .classDef (d :: _) _ => refuse "class decorator" d.pos
  | .foreign pos kind _ => refuseKind kind pos

def block : List Stmt → Lowering Unit
  | [] => pure ()
  | s :: rest => do
    statement s
    block rest

def branches : List Branch → Lowering Unit
  | [] => pure ()
  | .mk condition body :: rest => do
    write ("\x7d else if (" ++ (← text condition) ++ ") \x7b")
    indented (block body)
    branches rest

/-- The methods among the members of a class that are registered natively. -/
def nativeMethods : List Stmt → Lowering Unit
  | [] => pure ()
  | .function decorators (.mk _ isAsync _ name parameters body) :: rest => do
    if (← formOf decorators) = .native then
      nativeMethod isAsync name (← formals parameters) (block body)
    nativeMethods rest
  | _ :: rest => nativeMethods rest

/-- The members of a class, except for the methods that are registered natively. -/
def members (className : String) : List Stmt → Lowering Unit
  | [] => pure ()
  | .assign left right :: rest => do
    classAttribute className left right
    members className rest
  | s :: rest => do
    statement s
    members className rest

end

end ScriptCompiler.Lowering
