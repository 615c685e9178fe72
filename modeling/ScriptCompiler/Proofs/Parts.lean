import ScriptCompiler.Proofs.Nesting

/-!
# Parts of programs

The expressions and statements that a program consists of, each of them once, with the place where
it is lowered and with the copies of its text. Most parts have one copy. The bounds of some ranges
and the targets of some assignments have two; the defaults of receivers and the targets of bare
annotations have none. A copy is known by the functions around it.

`Phrase.components` has the parts right below a phrase, and `Phrase.parts` all of them. What holds
from a phrase to its components holds of all parts by induction.
-/

namespace ScriptCompiler

variable {indices : List Index} {x : Expr} {arguments : List Argument} {parameters : List Parameter}
  {p : Place}
  {copies : List (List Enclosing)} {body : List Stmt}

/-- An expression or a statement. -/
inductive Phrase where
  | statement (s : Stmt)
  | expression (e : Expr)

def Phrase.spans (p : Place) : Phrase → Spans
  | .statement s => s.spans p
  | .expression e => (e.draft p).spans

/-- A phrase at its place. -/
structure Part where
  phrase : Phrase
  place : Place
  /-- The functions around each copy of the text, from the innermost one on. -/
  copies : List (List Enclosing)

namespace Part

def spans (c : Part) : Spans := c.phrase.spans c.place

/-- A part of something that has copies itself. -/
def within (copies : List (List Enclosing)) (c : Part) : Part :=
  { c with copies := copies.flatMap fun around => c.copies.map (· ++ around) }

def StandsIn (c : Part) (xs : Spans) : Prop := ∀ around ∈ c.copies, Spans.Inside around c.spans xs

end Part

/-! ## Components of expressions -/

namespace Expr

/-- An expression with one copy, right where the phrase around it is. -/
def part (p : Place) (e : Expr) : Part := ⟨.expression e, p, [[]]⟩

/-- An expression with one copy in a function. -/
def partIn (f : Enclosing) (p : Place) (e : Expr) : Part := ⟨.expression e, p, [[f]]⟩

/-- The operands of a chain of an operator. -/
def chained (op : BoolOp) : Expr → List Expr
  | .boolean op' left right =>
    if op' = op then left.chained op ++ right.chained op else [.boolean op' left right]
  | .splat _ operand => operand.chained op
  | e => [e]

/-- An item of a sequence without the star that spreads it. -/
def unstarred : Expr → Expr
  | .splat _ operand => operand
  | e => e

/-- What is written for the star of an item. -/
def star : Expr → Spans
  | .splat _ _ => [.text "..."]
  | _ => []

end Expr

/-- The subscripts: one index, one slice, and others, which are refused. -/
inductive Index.Form : List Index → Prop
  | item (index : Expr) : Form [.item index]
  | slice (lower upper step : Option Expr) : Form [.slice lower upper step]
  | other (indices : List Index) (hitem : ∀ index, indices ≠ [.item index])
      (hslice : ∀ lower upper step, indices ≠ [.slice lower upper step]) : Form indices

theorem Index.form (indices : List Index) : Form indices := by
  by_cases hitem : ∃ index, indices = [.item index]
  · obtain ⟨index, rfl⟩ := hitem
    exact .item index
  by_cases hslice : ∃ lower upper step, indices = [.slice lower upper step]
  · obtain ⟨lower, upper, step, rfl⟩ := hslice
    exact .slice lower upper step
  · exact .other indices (fun index h => hitem ⟨index, h⟩) fun lower upper step h =>
      hslice ⟨lower, upper, step, h⟩

/-- The expressions among the arguments of a call. -/
structure ArgumentValues where
  positional : List Expr
  keywords : List (String × Expr)

/-- The values of arguments as far as they are lowered: a mapping of keywords is refused. -/
def argumentValues : List Argument → ArgumentValues
  | [] => ⟨[], []⟩
  | .positional value :: rest =>
    { argumentValues rest with positional := value :: (argumentValues rest).positional }
  | .keyword _ name value :: rest =>
    { argumentValues rest with keywords := (name, value) :: (argumentValues rest).keywords }
  | .keywordSplat _ :: _ => ⟨[], []⟩

def ArgumentValues.all (a : ArgumentValues) : List Expr := a.positional ++ a.keywords.map (·.2)

def entryValues : List Entry → List Expr
  | [] => []
  | .pair key value :: rest => key :: value :: entryValues rest
  | .splat value :: rest => value :: entryValues rest

def pieceValues : List Piece → List Expr
  | [] => []
  | .text _ :: rest => pieceValues rest
  | .hole _ _ value :: rest => value :: pieceValues rest

/-- The expressions in the holes of a token. -/
def StringToken.holes : StringToken → List Expr
  | .mk _ token pieces =>
    match Literal.splitString? token.toList with
    | some parts => if parts.flags.format then pieceValues pieces else []
    | none => []

/-- The defaults of parameters as far as they are lowered. -/
def defaultValues : List Parameter → List Expr
  | [] => []
  | .plain _ :: rest => defaultValues rest
  | .withDefault _ value :: rest => value :: defaultValues rest
  | .foreign _ _ :: _ => []

namespace Enclosing

/-- The function that counts for a range. -/
def counter (start tail : Spans) : Enclosing :=
  ⟨.arrow, .text "(" :: [.introduction ⟨.synthesized, "_"⟩, .text ", ",
    .introduction ⟨.synthesized, "i"⟩] ++
    .text ") => " :: (start ++ tail)⟩

def lambda (formals : List Spans.Formal) (body : Spans) : Enclosing :=
  ⟨.arrow, Spans.parens (Spans.arrowSignature formals) ++ .text " => " ::
    Spans.braces (.text "return " :: body)⟩

def generator (openings : List Spans) (value : Spans) : Enclosing :=
  ⟨.generator, .text "function* () \x7b " :: (openings.flatten ++ .text "yield " :: value ++
    [.text (" " ++ String.join (openings.map fun _ => "\x7d ") ++ "\x7d")])⟩

end Enclosing

/-- The arguments of a special call. The bounds of a range are written again in the function that
counts. -/
def specialParts (p : Place) (function : String) (values : ArgumentValues) : List Part :=
  match function, values with
  | "range", ⟨[start, stop], []⟩ =>
    [⟨.expression start, p, [[], [.counter (start.draft p).spans [.text " + i"]]]⟩, stop.part p]
  | "range", ⟨[start, stop, step], []⟩ =>
    let counter := Enclosing.counter (start.draft p).spans (.text " + i * " :: (step.draft p).spans)
    [⟨.expression start, p, [[], [counter]]⟩, stop.part p, ⟨.expression step, p, [[], [counter]]⟩]
  | _, values => values.all.map (·.part p)

/-- The iterables and conditions of a comprehension, in its generator. -/
def clauseParts (f : Enclosing) (p : Place) : List Clause → List Part
  | [] => []
  | .loop _ _ target iterable :: rest =>
    iterable.partIn f p :: clauseParts f { p with scopes := target.boundIn p.scopes } rest
  | .guard condition :: rest => condition.partIn f p :: clauseParts f p rest

namespace Place

/-- Inside the clauses of a comprehension. -/
def inClauses (p : Place) (clauses : List Clause) :
    Place := { p with scopes := clauseScopes p.scopes.push clauses }

def nested (p : Place) : Place := { p with nesting := p.nesting + 1 }

end Place

def Expr.components (p : Place) : Expr → List Part
  | .member object key =>
    if object.marksConstructor p.binding p.scopes ||
      ((Expr.member object key).contextMeaning? p.binding p.scopes).isSome
    then [] else [object.part p]
  | .subscript value [.item index] => [value.part p, index.part p]
  | .subscript value [.slice lower upper step] =>
    value.part p :: (lower.toList ++ upper.toList ++ step.toList).map (·.part p)
  | .call function arguments =>
    match function.specialFunction? p.binding p.scopes with
    | some special => specialParts p special (argumentValues arguments)
    | none => function.part p :: (argumentValues arguments).all.map (·.part p)
  | .binary _ left right | .comparison _ left right => [left.part p, right.part p]
  | .boolean op left right => (left.chained op ++ right.chained op).map (·.part p)
  | .conditional body condition alternative => [body.part p, condition.part p, alternative.part p]
  | .paren _ operand | .unary _ _ operand | .await _ operand | .splat _ operand => [operand.part p]
  | .lambda _ parameters body =>
    let inner := p.inFrame (declaredNames parameters)
    let f := Enclosing.lambda (formalSpans p parameters) (body.draft inner).spans
    (defaultValues parameters).map (·.partIn f p) ++ [body.partIn f inner]
  | .string token => if token.isFormat then token.holes.map (·.part p) else []
  | .joined first rest =>
    if first.isFormat || rest.any (·.isFormat) then ((first :: rest).flatMap (·.holes)).map
      (·.part p) else []
  | .sequence _ _ items => (items.map (·.unstarred)).map (·.part p)
  | .dictionary _ entries =>
    (entryValues entries).map (·.part (if entries.length > 1 then p.nested else p))
  | .comprehension _ _ body clauses =>
    let inner := p.inClauses clauses
    let f := Enclosing.generator (clauseSpans (p.inFrame []) clauses) (body.draft inner).spans
    clauseParts f (p.inFrame []) clauses ++ [body.partIn f inner]
  | .dictComprehension _ key value clauses =>
    let inner := p.inClauses clauses
    let f := Enclosing.generator (clauseSpans (p.inFrame []) clauses)
      (Spans.brackets ((key.draft inner).spans ++ .text ", " :: (value.draft inner).spans))
    clauseParts f (p.inFrame []) clauses ++ [key.partIn f inner, value.partIn f inner]
  | .name _ _ | .number _ _ _ | .constant _ _ | .subscript _ _ | .foreign _ _ => []

/-- Subscripts that are refused have neither parts nor a text. -/
theorem Expr.components_subscript_other (p : Place) (value : Expr)
    (hitem : ∀ index, indices ≠ [.item index]) (hslice : ∀ lower upper step,
    indices ≠ [.slice lower upper step]) :
    (Expr.subscript value indices).components p = [] := by
  rw [Expr.components]
  · exact hitem
  · exact hslice

theorem Expr.draft_subscript_other (p : Place) (value : Expr)
    (hitem : ∀ index, indices ≠ [.item index]) (hslice : ∀ lower upper step,
    indices ≠ [.slice lower upper step]) :
    (Expr.subscript value indices).draft p = .plain [] := by
  rw [Expr.draft]
  · exact hitem
  · exact hslice

/-! ## Components of statements -/

/-- The expression that a target consists of, apart from its last member. -/
def Target.parts (p : Place) (copies : List (List Enclosing)) : Target → List Part
  | .member object _ => [⟨.expression object, p, copies⟩]
  | .subscript value indices => [⟨.expression (.subscript value indices), p, copies⟩]
  | .name _ _ | .foreign _ _ => []

def blockParts (p : Place) (copies : List (List Enclosing)) : List Stmt → List Part
  | [] => []
  | s :: rest => ⟨.statement s, p, copies⟩ :: blockParts (p.afterStmt s) copies rest

def branchParts (p : Place) : List Branch → List Part
  | [] => []
  | .mk condition body :: rest =>
    condition.part p :: blockParts p.deeper [[]] body ++ branchParts (p.afterBlock body) rest

def otherwiseParts (p : Place) (otherwise : Option (List Stmt)) : List Part :=
  match otherwise with
  | none => []
  | some body => blockParts p.deeper [[]] body

/-- A function that is written as statements. -/
structure WrittenFunction where
  depth : Nat
  /-- Where its defaults are lowered. -/
  outside : Place
  /-- Its first parameter, if it is not written as one. -/
  dropped : List Parameter
  parameters : List Parameter
  receiver : Lowering.Receiver
  closer : String
  /-- Where its body begins. -/
  inside : Place
  body : List Stmt

namespace WrittenFunction

def inner (f : WrittenFunction) : Spans :=
  Spans.signature (formalSpans f.outside f.parameters) ++ .text " \x7b" :: (.text "\n" ::
    ((formalSpans f.outside f.parameters).flatMap (Spans.defaultLine (f.depth + 1)) ++
      Spans.receiverLine (f.depth + 1) f.receiver ++
      blockSpans f.inside f.body ++ [.margin f.depth, .text f.closer]))

def enclosing (f : WrittenFunction) : Enclosing := ⟨.block, f.inner⟩

def parts (f : WrittenFunction) : List Part :=
  (defaultValues f.dropped).map (⟨.expression ·, f.outside, []⟩) ++
    ((defaultValues f.parameters).map (·.partIn f.enclosing f.outside) ++
    blockParts f.inside [[f.enclosing]] f.body)

end WrittenFunction

namespace Parameter

/-- Whether the first parameter is called `self`. -/
def startsWithSelf (parameters : List Parameter) :
    Bool := (declaredNames parameters).head? = some Lowering.selfName

/-- The parameters behind the first one. -/
def rest : List Parameter → List Parameter
  | .plain _ :: rest | .withDefault _ _ :: rest => rest
  | _ => []

def receiver (parameters : List Parameter) : Lowering.Receiver :=
  match (declaredNames parameters).head? with
  | some name => .bound name
  | none => .absent

end Parameter

namespace WrittenFunction

/-- A function without a receiver, or whose receiver is not bound. -/
def free (depth : Nat) (outside : Place) (parameters : List Parameter) (body : List Stmt) :
    WrittenFunction :=
  let inside := outside.inFunction (withoutSelf (declaredNames parameters))
  if Parameter.startsWithSelf parameters then
    ⟨depth, outside, parameters.take 1, Parameter.rest parameters, .absent, "\x7d", inside, body⟩
  else ⟨depth, outside, [], parameters, .absent, "\x7d", inside, body⟩

def static (p : Place) (parameters : List Parameter) (body : List Stmt) : WrittenFunction :=
  ⟨p.depth, p, [], parameters, .absent, "\x7d;", p.inFunction (declaredNames parameters), body⟩

def method (closer : String) (p : Place) (parameters : List Parameter) (body : List Stmt) :
    WrittenFunction :=
  ⟨p.depth, p, parameters.take 1, Parameter.rest parameters, Parameter.receiver parameters, closer,
    p.inFunction (receiverLast (declaredNames parameters)), body⟩

end WrittenFunction

/-- The function that a definition is written as at its place. Methods that are registered natively
are written with their class. -/
def FunctionDef.written? (p : Place) (decorators : List Decorator) :
    FunctionDef → Option WrittenFunction
  | .mk _ _ _ name parameters body =>
    match p.className with
    | none => some (.free p.depth (p.register name) parameters body)
    | some _ =>
      match Lowering.methodForm decorators with
      | .ok .native => none
      | .ok .static => some (.static p parameters body)
      | _ => some (.method "\x7d;" p parameters body)

/-- The methods among the members of a class that are registered natively. -/
def nativeFunctions (p : Place) : List Stmt → List WrittenFunction
  | [] => []
  | .function decorators (.mk _ _ _ _ parameters body) :: rest =>
    if isNative decorators then
      .method "\x7d" p parameters body :: nativeFunctions
        (p.later p.scopes (blockSentinels false body)) rest
    else nativeFunctions p rest
  | _ :: rest => nativeFunctions p rest

/-- The members of a class, except for the methods that are registered natively. -/
def memberParts (p : Place) : List Stmt → List Part
  | [] => []
  | .assign _ (.value e) :: rest => e.part p :: memberParts p rest
  | .assign _ _ :: rest => memberParts p rest
  | s :: rest => ⟨.statement s, p, [[]]⟩ :: memberParts (p.afterStmt s) rest

def Stmt.components (p : Place) : Stmt → List Part
  | .evaluate _ [e] => [e.part p]
  | .evaluate _ items => (items.map (·.unstarred)).map (·.part p)
  | .assign left (.value right) => left.parts p [[]] ++ [right.part p]
  -- A bare annotation only declares its target.
  | .assign left _ => left.parts p []
  | .augment left op right =>
    left.parts p (if op.symbol?.isSome then [[]] else [[], []]) ++ [right.part p]
  | .returns _ value | .raises _ value _ => (value.toList).map (·.part p)
  | .asserts _ values | .prints _ _ values => values.map (·.part p)
  | .branch _ condition body more otherwise =>
    condition.part p :: (blockParts p.deeper [[]] body ++ (branchParts (p.afterBlock body) more ++
      otherwiseParts ((p.afterBlock body).afterBranches more) otherwise))
  | .forLoop _ _ left iterable body _ =>
    left.parts p [[]] ++ iterable.part p :: blockParts (p.assigned left).deeper [[]] body
  | .whileLoop _ condition body none => condition.part p :: blockParts p.deeper [[]] body
  | .whileLoop _ condition body (some otherwise) =>
    condition.part p :: (blockParts (p.later p.scopes 1).deeper [[]] body ++
      blockParts ((p.later p.scopes 1).afterBlock body).deeper [[]] otherwise)
  | .function decorators d => ((d.written? p decorators).map (·.parts)).getD []
  | .classDef _ (.mk _ _ name _ body) =>
    (nativeFunctions (p.register name).deeper body).flatMap (·.parts) ++
      memberParts { (p.register name).afterNatives body with className := some name } body
  | .pass _ | .breaks _ | .continues _ | .outer _ _ _ _ | .foreign _ _ _ => []

def Phrase.components (p : Place) : Phrase → List Part
  | .statement s => s.components p
  | .expression e => e.components p

/-! ## Bound names stay bound -/

namespace Scopes

variable {scopes : Scopes} {id : String}

@[grind ←] theorem isBound_register (name : String) (h : scopes.isBound id = true) :
    (scopes.register name).isBound id = true := by
  unfold register
  split_ifs
  · exact h
  · simp only [isBound, List.contains_cons, Bool.or_eq_true] at h ⊢
    tauto

@[grind ←] theorem isBound_registerAll (names : List String) (h : scopes.isBound id = true) :
    (scopes.registerAll names).isBound id = true := by
  induction names generalizing scopes with
  | nil => exact h
  | cons name rest ih => exact ih (isBound_register name h)

theorem isBound_of_grows {later : Scopes} (hgrows : later.Grows scopes)
    (h : scopes.isBound id = true) : later.isBound id = true := by
  obtain ⟨names, rfl⟩ := hgrows
  exact isBound_registerAll names h

@[grind ←] theorem isBound_clauseTarget (target : ClauseTarget) (h : scopes.isBound id = true) :
    (target.boundIn scopes).isBound id = true :=
  isBound_of_grows (target.grows_boundIn scopes) h

@[grind ←] theorem isBound_target (target : Target) (h : scopes.isBound id = true) :
    (target.boundIn scopes).isBound id = true :=
  isBound_of_grows (target.grows_boundIn scopes) h

@[grind ←] theorem isBound_push (h : scopes.isBound id = true) : scopes.push.isBound id = true := by
  simpa [push, isBound] using h

end Scopes

section Places

variable {id : String}

namespace Place

@[grind ←] theorem isBound_afterStmt (s : Stmt) (h : p.scopes.isBound id = true) :
    (p.afterStmt s).scopes.isBound id = true :=
  (congrArg (·.isBound id) (s.scopesAfter_eq p.inClass p.scopes)).trans
    (Scopes.isBound_registerAll _ h)

@[grind ←] theorem isBound_afterBlock (body : List Stmt) (h : p.scopes.isBound id = true) :
    (p.afterBlock body).scopes.isBound id = true :=
  Scopes.isBound_of_grows (grows_blockScopes p.inClass p.scopes body) h

@[grind ←] theorem isBound_afterBranches (more : List Branch) (h : p.scopes.isBound id = true) :
    (p.afterBranches more).scopes.isBound id = true :=
  (congrArg (·.isBound id) (branchScopes_eq p.inClass p.scopes more)).trans
    (Scopes.isBound_registerAll _ h)

@[grind ←] theorem isBound_inFrame (names : List String) (h : p.scopes.isBound id = true) :
    (p.inFrame names).scopes.isBound id = true :=
  Scopes.isBound_registerAll names (Scopes.isBound_push h)

@[grind ←] theorem isBound_inFunction (names : List String) (h : p.scopes.isBound id = true) :
    (p.inFunction names).scopes.isBound id = true :=
  isBound_inFrame names h

@[grind ←] theorem isBound_inClauses (clauses : List Clause) (h : p.scopes.isBound id = true) :
    (p.inClauses clauses).scopes.isBound id = true :=
  Scopes.isBound_of_grows (grows_clauseScopes _ clauses) (Scopes.isBound_push h)

end Place

end Places

/-! ## All parts -/

/-- A part of something at a place has at most a certain size, and what is bound at the place is
bound where it stands. -/
@[grind] def Part.Below (c : Part) (p : Place) (size : Nat) : Prop :=
  sizeOf c.phrase ≤ size ∧ ∀ id, p.scopes.isBound id = true → c.place.scopes.isBound id = true

section Sizes

variable {e : Expr} {c : Part}

@[grind →] theorem sizeOf_chained {op : BoolOp} (he : e ∈ x.chained op) : sizeOf e ≤ sizeOf x := by
  fun_induction Expr.chained op x with
  | case1 left right ihleft ihright => grind [Expr.boolean.sizeOf_spec]
  | case2 op' left right hne => simp_all
  | case3 pos operand ih => grind [Expr.splat.sizeOf_spec]
  | case4 x => simp_all

theorem sizeOf_unstarred (e : Expr) : sizeOf e.unstarred ≤ sizeOf e := by
  cases e <;> simp [Expr.unstarred]

@[grind →] theorem sizeOf_argumentValues (he : e ∈ (argumentValues arguments).all) :
    sizeOf e < sizeOf arguments := by
  unfold ArgumentValues.all at he
  fun_induction argumentValues arguments with
  | case1 => cases he
  | case2 value rest ih => grind [List.cons.sizeOf_spec, Argument.positional.sizeOf_spec]
  | case3 pos name value rest ih => grind [List.cons.sizeOf_spec, Argument.keyword.sizeOf_spec]
  | case4 pos rest => cases he

@[grind →] theorem sizeOf_entryValues {entries : List Entry} (he : e ∈ entryValues entries) :
    sizeOf e < sizeOf entries := by
  fun_induction entryValues entries with
  | case1 => cases he
  | case2 key value rest ih => grind [List.cons.sizeOf_spec, Entry.pair.sizeOf_spec]
  | case3 value rest ih => grind [List.cons.sizeOf_spec, Entry.splat.sizeOf_spec]

@[grind →] theorem sizeOf_holes {token : StringToken} (he : e ∈ token.holes) :
    sizeOf e < sizeOf token := by
  obtain ⟨pos, text, pieces⟩ := token
  have hpieces : ∀ {pieces : List Piece}, e ∈ pieceValues pieces → sizeOf e < sizeOf pieces := by
    intro pieces he
    fun_induction pieceValues pieces with
    | case1 => cases he
    | case2 raw rest ih => grind [List.cons.sizeOf_spec, Piece.text.sizeOf_spec]
    | case3 pos option value rest ih => grind [List.cons.sizeOf_spec, Piece.hole.sizeOf_spec]
  grind [StringToken.holes, StringToken.mk.sizeOf_spec]

@[grind →] theorem sizeOf_defaultValues (he : e ∈ defaultValues parameters) :
    sizeOf e < sizeOf parameters := by
  fun_induction defaultValues parameters with
  | case1 => cases he
  | case2 name rest ih => grind [List.cons.sizeOf_spec, Parameter.plain.sizeOf_spec]
  | case3 name value rest ih => grind [List.cons.sizeOf_spec, Parameter.withDefault.sizeOf_spec]
  | case4 pos construct rest => cases he

def Phrase.isExpression : Phrase → Bool
  | .expression _ => true
  | .statement _ => false

@[simp, grind =] theorem isExpression_part (p : Place) (e : Expr) :
    (e.part p).phrase.isExpression = true := rfl

@[simp, grind =] theorem isExpression_partIn (f : Enclosing) (p : Place) (e : Expr) :
    (e.partIn f p).phrase.isExpression = true := rfl

@[grind =] theorem scopes_deeper (p : Place) : p.deeper.scopes = p.scopes := rfl

@[grind =] theorem place_part (p : Place) (e : Expr) : (e.part p).place = p := rfl

@[grind =] theorem place_partIn (f : Enclosing) (p : Place) (e : Expr) :
    (e.partIn f p).place = p := rfl

@[grind →] theorem smaller_clauseParts {f : Enclosing} {clauses : List Clause}
    (hc : c ∈ clauseParts f p clauses) :
    c.phrase.isExpression = true ∧ c.Below p (sizeOf clauses) := by
  fun_induction clauseParts f p clauses with
  | case1 => cases hc
  | case2 p pos isAsync target iterable rest ih =>
    grind [List.cons.sizeOf_spec, Clause.loop.sizeOf_spec, Phrase.expression.sizeOf_spec,
      Expr.partIn]
  | case3 p condition rest ih =>
    grind [List.cons.sizeOf_spec, Clause.guard.sizeOf_spec, Phrase.expression.sizeOf_spec,
      Expr.partIn]

@[grind →] theorem smaller_specialParts {function : String}
    (hc : c ∈ specialParts p function (argumentValues arguments)) :
    c.phrase.isExpression = true ∧ c.Below p (sizeOf arguments) := by
  have hall : ∃ e ∈ (argumentValues arguments).all, c.phrase = .expression e ∧ c.place = p := by
    unfold specialParts at hc
    split at hc
    · grind [ArgumentValues.all, Expr.part]
    · grind [ArgumentValues.all, Expr.part]
    · obtain ⟨e, he, rfl⟩ := List.mem_map.mp hc
      exact ⟨e, he, rfl, rfl⟩
  obtain ⟨e, he, hphrase, hplace⟩ := hall
  have := sizeOf_argumentValues he
  rw [Part.Below, hphrase, hplace, Phrase.expression.sizeOf_spec]
  exact ⟨rfl, by omega, fun _ h => h⟩

@[simp, grind =] theorem sizeOf_part (p : Place) (e : Expr) :
    sizeOf (e.part p).phrase = 1 + sizeOf e := by
  simp [Expr.part]

@[simp, grind =] theorem sizeOf_partIn (f : Enclosing) (p : Place) (e : Expr) :
    sizeOf (e.partIn f p).phrase = 1 + sizeOf e := by
  simp [Expr.partIn]

/-- A component of an expression is a smaller expression. -/
theorem Expr.smaller_component (hc : c ∈ x.components p) :
    c.phrase.isExpression = true ∧ c.Below p (sizeOf x) := by
  cases x with
  | member object key => grind [Expr.components, Expr.member.sizeOf_spec]
  | subscript value indices =>
    cases Index.form indices with
    | item | slice => grind [Expr.components]
    | other _ hitem hslice =>
      rw [Expr.components_subscript_other p value hitem hslice] at hc
      cases hc
  | call function arguments =>
    simp only [Expr.components] at hc
    rw [Expr.call.sizeOf_spec]
    split at hc
    · have := smaller_specialParts hc
      grind
    · rcases List.mem_cons.mp hc with rfl | hc
      · grind
      · obtain ⟨e, he, rfl⟩ := List.mem_map.mp hc
        grind
  | binary | comparison | boolean | conditional | paren | unary | await | splat | lambda | string
  | comprehension
  | dictComprehension => grind [Expr.components]
  | joined first rest => grind [Expr.components, → List.sizeOf_lt_of_mem]
  | sequence pos form items => grind [Expr.components, sizeOf_unstarred, → List.sizeOf_lt_of_mem]
  | dictionary pos entries => grind [Expr.components, Place.nested]
  | name | number | constant | foreign => cases hc

theorem below_targetParts {t : Target} (hc : c ∈ t.parts p copies) : c.Below p (1 + sizeOf t) := by
  cases t with
  | member | subscript => grind [Target.parts]
  | name | foreign => cases hc

theorem below_blockParts (hc : c ∈ blockParts p copies body) : c.Below p (sizeOf body) := by
  fun_induction blockParts p copies body with
  | case1 => cases hc
  | case2 p s rest ih => grind

theorem below_branchParts {more : List Branch} (hc : c ∈ branchParts p more) :
    c.Below p (sizeOf more) := by
  fun_induction branchParts p more with
  | case1 => cases hc
  | case2 p condition body rest ih => grind [→ below_blockParts]

theorem below_otherwiseParts {otherwise : Option (List Stmt)}
    (hc : c ∈ otherwiseParts p otherwise) : c.Below p (sizeOf otherwise) := by
  cases otherwise with
  | none => cases hc
  | some body => grind [otherwiseParts, → below_blockParts]

theorem defaultValues_take_append_rest (parameters : List Parameter) :
    defaultValues (parameters.take 1) ++ defaultValues (Parameter.rest parameters) =
    defaultValues parameters := by
  cases parameters with
  | nil => rfl
  | cons parameter rest => cases parameter <;> simp [Parameter.rest, defaultValues]

variable {f : WrittenFunction}

theorem below_writtenParts
    (hdefaults : defaultValues f.dropped ++ defaultValues f.parameters = defaultValues parameters)
    (houtside : ∀ id, p.scopes.isBound id = true → f.outside.scopes.isBound id = true)
    (hinside : ∀ id, p.scopes.isBound id = true → f.inside.scopes.isBound id = true)
    (hc : c ∈ f.parts) : c.Below p (sizeOf parameters + sizeOf f.body) := by
  have hvalue : ∀ e ∈ defaultValues f.dropped ++ defaultValues f.parameters,
      sizeOf e < sizeOf parameters := by
    intro e he
    exact sizeOf_defaultValues (hdefaults ▸ he)
  rcases List.mem_append.mp hc with hc | hc
  · grind
  · rcases List.mem_append.mp hc with hc | hc
    · grind
    · grind [→ below_blockParts]

theorem below_freeParts {depth : Nat}
    (hc : c ∈ (WrittenFunction.free depth p parameters body).parts) :
    c.Below p (sizeOf parameters + sizeOf body) := by
  unfold WrittenFunction.free at hc
  split_ifs at hc
  · exact below_writtenParts (defaultValues_take_append_rest parameters) (by grind) (by grind) hc
  · exact below_writtenParts rfl (by grind) (by grind) hc

theorem below_methodParts {closer : String}
    (hc : c ∈ (WrittenFunction.method closer p parameters body).parts) :
    c.Below p (sizeOf parameters + sizeOf body) :=
  below_writtenParts (defaultValues_take_append_rest parameters) (by grind [WrittenFunction.method])
    (by grind [WrittenFunction.method]) hc

theorem below_nativeParts (hf : f ∈ nativeFunctions p body) (hc : c ∈ f.parts) :
    c.Below p (sizeOf body) := by
  fun_induction nativeFunctions p body with
  | case1 => cases hf
  | case2 p decorators pos isAsync namePos name parameters body rest hnative ih =>
    rcases List.mem_cons.mp hf with rfl | hf
    · grind [below_methodParts hc]
    · grind [ih hf, Place.later]
  | case3 p decorators pos isAsync namePos name parameters body rest hnative ih => grind
  | case4 p s rest hother ih => grind

theorem below_memberParts (hc : c ∈ memberParts p body) : c.Below p (sizeOf body) := by
  fun_induction memberParts p body with
  | case1 => cases hc
  | case2 p target e rest ih => grind
  | case3 p target right rest hother ih => grind
  | case4 p s rest hattribute hother ih => grind

/-- A component of a statement is smaller. -/
theorem Stmt.below_component {s : Stmt} (hc : c ∈ s.components p) : c.Below p (sizeOf s) := by
  cases s with
  | evaluate pos items =>
    unfold Stmt.components at hc
    split at hc
    all_goals grind [sizeOf_unstarred, → List.sizeOf_lt_of_mem]
  | assign left right => cases right <;> grind [Stmt.components, → below_targetParts]
  | augment left op right => grind [Stmt.components, → below_targetParts]
  | returns pos value | raises pos value cause => cases value <;> grind [Stmt.components]
  | asserts | prints => grind [Stmt.components, → List.sizeOf_lt_of_mem]
  | branch pos condition body more otherwise =>
    grind [Stmt.components, → below_blockParts, → below_branchParts, → below_otherwiseParts]
  | forLoop pos isAsync left iterable body otherwise =>
    grind [Stmt.components, Place.assigned, → below_targetParts, → below_blockParts]
  | whileLoop pos condition body otherwise =>
    cases otherwise <;> grind [Stmt.components, Place.later, → below_blockParts]
  | function decorators d =>
    obtain ⟨pos, isAsync, namePos, name, parameters, body⟩ := d
    have hparts : c.Below p (sizeOf parameters + sizeOf body) := by
      simp only [Stmt.components, FunctionDef.written?] at hc
      split at hc
      · have := below_freeParts hc
        grind [Place.register]
      · split at hc
        · cases hc
        · exact below_writtenParts rfl (by grind [WrittenFunction.static])
            (by grind [WrittenFunction.static]) hc
        · exact below_methodParts hc
    grind [Stmt.function.sizeOf_spec, FunctionDef.mk.sizeOf_spec]
  | classDef decorators d =>
    obtain ⟨pos, namePos, name, bases, body⟩ := d
    have hparts : c.Below (p.register name) (sizeOf body) := by
      rcases List.mem_append.mp hc with hc | hc
      · obtain ⟨f, hf, hc⟩ := List.mem_flatMap.mp hc
        exact below_nativeParts (p := (p.register name).deeper) hf hc
      · have hmember := below_memberParts hc
        exact ⟨hmember.1, hmember.2⟩
    grind [Place.register, Stmt.classDef.sizeOf_spec, ClassDef.mk.sizeOf_spec]
  | pass | breaks | continues | outer | foreign => cases hc

theorem Phrase.below_component {x : Phrase} (hc : c ∈ x.components p) :
    c.Below p (sizeOf x - 1) := by
  cases x with
  | statement s =>
    rw [Phrase.statement.sizeOf_spec, Nat.add_sub_cancel_left]
    exact Stmt.below_component hc
  | expression e =>
    rw [Phrase.expression.sizeOf_spec, Nat.add_sub_cancel_left]
    exact (Expr.smaller_component hc).2

theorem Phrase.sizeOf_component {x : Phrase} (hc : c ∈ x.components p) :
    sizeOf c.phrase < sizeOf x := by
  have hbelow := (below_component hc).1
  cases x <;> grind

end Sizes

namespace Phrase

/-- A phrase and everything that it consists of. -/
def parts (p : Place) (x : Phrase) : List Part :=
  ⟨x, p, [[]]⟩ :: (x.components p).attach.flatMap fun c =>
    (parts c.1.place c.1.phrase).map (·.within c.1.copies)
termination_by sizeOf x
decreasing_by exact sizeOf_component c.2

theorem parts_eq (p : Place) (x : Phrase) :
    x.parts p = ⟨x, p, [[]]⟩ :: (x.components p).flatMap fun c =>
    (c.phrase.parts c.place).map (·.within c.copies) := by
  rw [parts]
  simp [List.flatMap_subtype]

end Phrase

/-- The parts of a program that no other part is around. -/
def programComponents (binding : Option Binding) (statements : List Stmt) : EntryPoint → List Part
  | .module => blockParts (.start binding) [[]] statements
  | .body =>
    match firstFunction? statements with
    | none => []
    | some d =>
      (defaultValues d.parameters).map (⟨.expression ·, .start binding, []⟩) ++
        blockParts ((Place.start binding).registerAll
        (withoutSelf (declaredNames d.parameters))) [[]] d.body
  | .callable _ =>
    match firstFunction? statements with
    | none => []
    | some d => (WrittenFunction.free 0 (.start binding) d.parameters d.body).parts

/-- Everything that a program consists of. -/
def programParts (binding : Option Binding) (statements : List Stmt) (entry : EntryPoint) :
    List Part :=
  (programComponents binding statements entry).flatMap fun c =>
    (c.phrase.parts c.place).map (·.within c.copies)

end ScriptCompiler
