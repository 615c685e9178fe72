import ScriptCompiler.Proofs.ExpressionDraft

/-!
# Drafts of statements

The draft of a statement is read off its tree and the place where it stands. A statement changes the
place for the statements after it: it may bind names in the innermost frame and use up synthesized
names. Lowering a statement writes the text of its draft.
-/

namespace ScriptCompiler

/-! ## Synthesized names -/

mutual

/-- The number of names that a statement has synthesized: one for each loop with an alternative. -/
def Stmt.sentinels (inClass : Bool) : Stmt → Nat
  | .branch _ _ body more otherwise =>
    blockSentinels inClass body + branchSentinels inClass more +
      otherwiseSentinels inClass otherwise
  | .forLoop _ _ _ _ body _ => blockSentinels inClass body
  | .whileLoop _ _ body none => blockSentinels inClass body
  | .whileLoop _ _ body (some otherwise) => 1 + blockSentinels inClass body +
      blockSentinels inClass otherwise
  | .function decorators (.mk _ _ _ _ _ body) =>
    if inClass && isNative decorators then 0 else blockSentinels false body
  | .classDef _ (.mk _ _ _ _ body) => nativeSentinels body + memberSentinels body
  | .evaluate _ _ | .assign _ _ | .augment _ _ _ | .returns _ _ | .pass _ | .breaks _ | .continues _
  | .outer _ _ _ _
  | .asserts _ _ | .raises _ _ _ | .prints _ _ _ | .foreign _ _ _ => 0

def blockSentinels (inClass : Bool) : List Stmt → Nat
  | [] => 0
  | s :: rest => s.sentinels inClass + blockSentinels inClass rest

def otherwiseSentinels (inClass : Bool) : Option (List Stmt) → Nat
  | none => 0
  | some body => blockSentinels inClass body

def branchSentinels (inClass : Bool) : List Branch → Nat
  | [] => 0
  | .mk _ body :: rest => blockSentinels inClass body + branchSentinels inClass rest

def nativeSentinels : List Stmt → Nat
  | [] => 0
  | .function decorators (.mk _ _ _ _ _ body) :: rest =>
    (if isNative decorators then blockSentinels false body else 0) + nativeSentinels rest
  | _ :: rest => nativeSentinels rest

def memberSentinels : List Stmt → Nat
  | [] => 0
  | .assign _ _ :: rest => memberSentinels rest
  | s :: rest => s.sentinels true + memberSentinels rest

end

namespace Place

def inClass (p : Place) : Bool := p.className.isSome

/-- After names are bound in the innermost frame and others are synthesized. -/
def later (p : Place) (scopes : Scopes) (count : Nat) : Place :=
  { p with scopes := scopes, temporaries := p.temporaries + count }

def afterStmt (p : Place) (s : Stmt) :
    Place := p.later (s.scopesAfter p.inClass p.scopes) (s.sentinels p.inClass)

def afterBlock (p : Place) (body : List Stmt) : Place :=
  p.later (blockScopes p.inClass p.scopes body) (blockSentinels p.inClass body)

def afterOtherwise (p : Place) (otherwise : Option (List Stmt)) : Place :=
  p.later (otherwiseScopes p.inClass p.scopes otherwise) (otherwiseSentinels p.inClass otherwise)

def afterBranches (p : Place) (more : List Branch) : Place :=
  p.later (branchScopes p.inClass p.scopes more) (branchSentinels p.inClass more)

def afterNatives (p : Place) (body : List Stmt) : Place := p.later p.scopes (nativeSentinels body)

def afterMembers (p : Place) (body : List Stmt) :
    Place := p.later (memberScopes p.scopes body) (memberSentinels body)

end Place

/-! ## Lines -/

namespace Spans

/-- The line that gives a parameter its default. -/
def defaultLine (depth : Nat) (formal : Formal) : Spans :=
  match formal.default with
  | none => []
  | some default =>
    line depth ([parameter formal.name, .text " = typeof(", parameter formal.name,
      .text ") != 'undefined' ? ",
      parameter formal.name, .text " : "] ++ default ++ [.text ";"])

/-- The line for the variable of a receiver. -/
def receiverLine (depth : Nat) : Lowering.Receiver → Spans
  | .bound name =>
    if name ≠ Lowering.selfName then line depth [.text "var ", .introduction ⟨.receiver, name⟩,
      .text " = this;"] else []
  | .absent | .unbound => []

def signature (formals : List Formal) :
    Spans := parens (commas (formals.map fun p => [parameter p.name]))

/-- A function: what stands before its parameters, then its own names and its body. -/
def function (depth : Nat) (head : Spans) (formals : List Formal) (receiver : Lowering.Receiver)
    (closer : String)
    (body : Spans) : Spans :=
  .margin depth :: head ++ [.function (signature formals ++ [.text " \x7b", .text "\n"] ++
    formals.flatMap (defaultLine (depth + 1)) ++ receiverLine (depth + 1) receiver ++ body ++
      [.margin depth, .text closer]), .text "\n"]

/-- The first parameter is a receiver that needs no variable. -/
def startsWithSelf : List Formal → Bool
  | p :: _ => p.name = Lowering.selfName
  | [] => false

def withoutSelf (formals : List Formal) :
    List Formal := if startsWithSelf formals then formals.tail else formals

/-- What a function introduces its name with. -/
def functionHead (isAsync : Bool) (name : String) : Spans :=
  [.text (Lowering.asyncMark isAsync ++ "function "), .introduction ⟨.function, name⟩]

def plainFunction (depth : Nat) (isAsync : Bool) (name : String) (formals : List Formal)
    (body : Spans) : Spans :=
  let head := if startsWithSelf formals then
    [.text (Lowering.asyncMark isAsync), .introduction ⟨.function, name⟩] else functionHead
      isAsync name
  function depth head (withoutSelf formals) .absent "\x7d" body

def namedFunction (depth : Nat) (isAsync : Bool) (name : String) (formals : List Formal)
    (body : Spans) : Spans :=
  function depth (functionHead isAsync name) (withoutSelf formals) .absent "\x7d" body

/-- What a method that is assigned to the prototype of a class begins with. -/
def prototypeHead (isAsync : Bool) (className name : String) : Spans :=
  [.text (className ++ ".prototype." ++ name ++ " = " ++ Lowering.asyncMark isAsync ++ "function")]

def staticMethod (depth : Nat) (className : String) (isAsync : Bool) (name : String)
    (formals : List Formal)
    (body : Spans) : Spans :=
  function depth (prototypeHead isAsync className name) formals .absent "\x7d;" body ++
    textLine depth (className ++ "." ++ name ++ " = " ++ className ++ ".prototype." ++ name ++ ";")

/-- The receiver of a method, and its other parameters. -/
def splitReceiver : List Formal → Lowering.Receiver × List Formal
  | p :: rest => (.bound p.name, rest)
  | [] => (.absent, [])

def instanceMethod (depth : Nat) (className : String) (isAsync : Bool) (name : String)
    (formals : List Formal)
    (body : Spans) : Spans :=
  function depth (prototypeHead isAsync className name) (splitReceiver formals).2
    (splitReceiver formals).1 "\x7d;"
      body ++
    textLine depth (className ++ "." ++ name ++ " = function() \x7b") ++
    textLine (depth + 1) ("return " ++ className ++ ".prototype." ++ name ++
      ".apply(arguments[0], Array.prototype.slice.call(arguments, 1));") ++
    textLine depth "\x7d;"

def nativeMethod (depth : Nat) (isAsync : Bool) (name : String) (formals : List Formal)
    (body : Spans) : Spans :=
  function depth [.text (Lowering.asyncMark isAsync ++ name)] (splitReceiver formals).2
    (splitReceiver formals).1 "\x7d"
    body

def classBase : Option (Position × List Argument) → Spans
  | some (_, [.positional (.name _ id)]) =>
    if id = "object" then [] else [.text " extends ", .mention (.base id)]
  | _ => []

def hasBase : Option (Position × List Argument) → Bool
  | some (_, [.positional (.name _ id)]) => id ≠ "object"
  | _ => false

/-- The constructor of a class with an initialiser. -/
def constructor (depth : Nat) (hasBase : Bool) : Spans :=
  textLine depth "constructor(...args) \x7b" ++
    (if hasBase then textLine (depth + 1) "super(...args);" else []) ++
    textLine (depth + 1) "this.__init__(...args);" ++ textLine depth "\x7d"

/-- A loop with an alternative. -/
def whileElse (depth index : Nat) (condition body otherwise : Spans) : Spans :=
  let sentinel : Span := .introduction ⟨.synthesized, "__orelse" ++ toString index ++ "__"⟩
  line depth [.text "var ", sentinel, .text " = false;"] ++ textLine depth "while (true) \x7b" ++
    line (depth + 1) (.text "if (!(" :: condition ++ [.text ")) \x7b"]) ++
    line (depth + 2) [sentinel, .text " = true;"] ++ textLine (depth + 2) "break;" ++
    textLine (depth + 1) "\x7d" ++
    body ++ textLine depth "\x7d" ++ line depth [.text "if (", sentinel, .text ") \x7b"] ++
    otherwise ++ textLine depth "\x7d"

end Spans

/-! ## Simple statements -/

/-- A target that is assigned to. -/
def Target.spans (p : Place) : Target → Spans
  | .name _ id => [.introduction ⟨.reassigned, id⟩]
  | .member object key => (object.draft p).spans ++ [.text ("." ++ key)]
  | .subscript value indices => ((Expr.subscript value indices).draft p).spans
  | .foreign _ _ => []

namespace Place

/-- A variable, declared where its frame has not had it before. -/
def declaring (p : Place) (id : String) : Spans :=
  if p.scopes.isDeclaredHere id then [.introduction ⟨.reassigned, id⟩]
  else [.text "var ", .introduction ⟨.declared, id⟩]

def assigning (p : Place) : Target → Spans
  | .name _ id => p.declaring id
  | target => target.spans p

/-- After a value is assigned. -/
def assigned (p : Place) (left : Target) : Place := { p with scopes := left.boundIn p.scopes }

def assign (p : Place) (left : Target) : Assigned → Spans
  | .value right =>
    Spans.line p.depth (p.assigning left ++ .text " = " :: (right.draft p).spans ++ [.text ";"])
  | .nothing | .chained =>
    match left with
    | .name _ id =>
      if p.scopes.isDeclaredHere id then []
      else Spans.line p.depth [.text "var ", .introduction ⟨.declared, id⟩, .text ";"]
    | _ => []

def augment (p : Place) (left : Target) (op : BinaryOp) (right : Expr) : Spans :=
  match op.symbol? with
  | some symbol =>
    Spans.line p.depth (left.spans p ++ .text (" " ++ symbol ++ "= ") ::
      (right.draft p).spans ++ [.text ";"])
  | none =>
    match op with
    | .power =>
      Spans.line p.depth (left.spans p ++ .text " = Math.pow(" :: left.spans p ++ .text ", " ::
        (right.draft p).spans ++ [.text ");"])
    | _ =>
      Spans.line p.depth (left.spans p ++ .text " = Math.floor(" :: left.spans p ++ .text " / " ::
        Spans.grouped right.kind (right.draft p).spans ++ [.text ");"])

/-- An attribute of a class. Only names are attributes. -/
def classAttribute (p : Place) (className : String) : Target → Assigned → Spans
  | .name _ id, .value e =>
    Spans.line p.depth
      (.text (className ++ "." ++ id ++ " = ") :: (e.draft p).spans ++ [.text ";"]) ++
      Spans.textLine p.depth (className ++ ".prototype." ++ id ++ " = " ++ className ++
      "." ++ id ++ ";")
  | _, .value e => (e.draft p).spans
  | _, _ => []

end Place

/-! ## All statements -/

mutual

def Stmt.spans (p : Place) : Stmt → Spans
  | .evaluate _ [e] => Spans.line p.depth ((e.draft p).spans ++ [.text ";"])
  | .evaluate _ items =>
    Spans.line p.depth (Spans.brackets (Spans.commas (itemSpans p items)) ++ [.text ";"])
  | .assign left right => p.assign left right
  | .augment left op right => p.augment left op right
  | .returns _ none => Spans.textLine p.depth "return;"
  | .returns _ (some e) => Spans.line p.depth (.text "return " :: (e.draft p).spans ++ [.text ";"])
  | .pass _ => Spans.textLine p.depth "/* pass */"
  | .breaks _ => Spans.textLine p.depth "break;"
  | .continues _ => Spans.textLine p.depth "continue;"
  | .asserts _ conditions =>
    Spans.line p.depth
      (.text "assert(" :: Spans.commas (conditions.map fun e => (e.draft p).spans) ++ [.text ");"])
  | .raises _ (some e) _ => Spans.line p.depth (.text "throw " :: (e.draft p).spans ++ [.text ";"])
  | .prints _ _ values =>
    Spans.line p.depth
      (.text "console.log(" :: Spans.commas (values.map fun e => (e.draft p).spans) ++ [.text ");"])
  | .branch _ condition body more otherwise =>
    Spans.line p.depth (.text "if (" :: (condition.draft p).spans ++ [.text ") \x7b"]) ++
      blockSpans p.deeper body ++
      branchSpans (p.afterBlock body) more ++ otherwiseSpans
      ((p.afterBlock body).afterBranches more) otherwise ++ Spans.textLine p.depth "\x7d"
  | .forLoop _ _ left iterable body _ =>
    Spans.line p.depth (.text "for (" :: p.assigning left ++ .text " of " ::
      (iterable.draft p).spans ++
        [.text ") \x7b"]) ++
      blockSpans (p.assigned left).deeper body ++ Spans.textLine p.depth "\x7d"
  | .whileLoop _ condition body none =>
    Spans.line p.depth (.text "while (" :: (condition.draft p).spans ++ [.text ") \x7b"]) ++
      blockSpans p.deeper body ++ Spans.textLine p.depth "\x7d"
  | .whileLoop _ condition body (some otherwise) =>
    Spans.whileElse p.depth p.temporaries (condition.draft p).spans
      (blockSpans (p.later p.scopes 1).deeper body)
      (blockSpans ((p.later p.scopes 1).afterBlock body).deeper otherwise)
  | .function decorators (.mk _ isAsync _ name parameters body) =>
    match p.className with
    | none =>
      Spans.plainFunction p.depth isAsync name (formalSpans (p.register name) parameters)
        (blockSpans ((p.register name).inFunction (withoutSelf (declaredNames parameters))) body)
    | some className =>
      match Lowering.methodForm decorators with
      | .ok .native => []
      | .ok .static =>
        Spans.staticMethod p.depth className isAsync name (formalSpans p parameters)
          (blockSpans (p.inFunction (declaredNames parameters)) body)
      | _ =>
        Spans.instanceMethod p.depth className isAsync name (formalSpans p parameters)
          (blockSpans (p.inFunction (receiverLast (declaredNames parameters))) body)
  | .classDef _ (.mk _ _ name bases body) =>
    Spans.line p.depth ([.text "class ", .introduction ⟨.className, name⟩] ++
      Spans.classBase bases ++ [.text " \x7b"]) ++
      (if body.any Lowering.isInitialiser then Spans.constructor (p.depth + 1)
      (Spans.hasBase bases) else []) ++
      nativeSpans (p.register name).deeper body ++ Spans.textLine p.depth "\x7d" ++
      memberSpans { (p.register name).afterNatives body with className := some name } name body
  | .outer _ _ _ _ | .raises _ none _ | .foreign _ _ _ => []

def blockSpans (p : Place) : List Stmt → Spans
  | [] => []
  | s :: rest => s.spans p ++ blockSpans (p.afterStmt s) rest

def otherwiseSpans (p : Place) : Option (List Stmt) → Spans
  | none => []
  | some body => Spans.textLine p.depth "\x7d else \x7b" ++ blockSpans p.deeper body

def branchSpans (p : Place) : List Branch → Spans
  | [] => []
  | .mk condition body :: rest =>
    Spans.line p.depth (.text "\x7d else if (" :: (condition.draft p).spans ++ [.text ") \x7b"]) ++
      blockSpans p.deeper body ++ branchSpans (p.afterBlock body) rest

def nativeSpans (p : Place) : List Stmt → Spans
  | [] => []
  | .function decorators (.mk _ isAsync _ name parameters body) :: rest =>
    if isNative decorators then
      Spans.nativeMethod p.depth isAsync name (formalSpans p parameters)
        (blockSpans (p.inFunction (receiverLast (declaredNames parameters))) body) ++
        nativeSpans (p.later p.scopes (blockSentinels false body)) rest
    else nativeSpans p rest
  | _ :: rest => nativeSpans p rest

def memberSpans (p : Place) (className : String) : List Stmt → Spans
  | [] => []
  | .assign left right :: rest => p.classAttribute className left right ++
      memberSpans p className rest
  | s :: rest => s.spans p ++ memberSpans (p.afterStmt s) className rest

end

/-- The draft of a program. The defaults of a function of which only the statements are wanted are
not written. -/
def programSpans (binding : Option Binding) (statements : List Stmt) : EntryPoint → Spans
  | .module => blockSpans (.start binding) statements
  | .body =>
    match firstFunction? statements with
    | none => []
    | some d => blockSpans
        ((Place.start binding).registerAll (withoutSelf (declaredNames d.parameters))) d.body
  | .callable name =>
    match firstFunction? statements with
    | none => []
    | some d =>
      Spans.namedFunction 0 d.isAsync name (formalSpans (.start binding) d.parameters)
        (blockSpans ((Place.start binding).inFunction (withoutSelf (declaredNames d.parameters)))
        d.body)

theorem names_formalSpans (p : Place) (parameters : List Parameter) :
    (formalSpans p parameters).map (·.name) = declaredNames parameters := by
  induction parameters with
  | nil => rw [formalSpans, declaredNames, List.map_nil]
  | cons parameter rest ih =>
    cases parameter with
    | plain name | withDefault name value => rw [formalSpans, declaredNames, List.map_cons, ih]
    | foreign pos construct => rw [formalSpans, declaredNames, List.map_nil]

end ScriptCompiler
