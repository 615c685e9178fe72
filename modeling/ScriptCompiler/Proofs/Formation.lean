import ScriptCompiler.Proofs.Places

/-!
# Trees that the grammar forms

An expression that is read from a text has its string tokens from there, its nodes stand at places
of characters, its names are words, and its operands bind as tightly as the operator that they stand
next to demands.
-/

namespace ScriptCompiler

/-! ## String tokens -/

/-- A string that is opened by a backquote. -/
def Token.IsBackquoted (token : List Char) :
    Prop := (token.dropWhile isStringLetter).head? = some '\x60'

/-- A string token that was read in a text. Quotes enclose it, unless it is opened by a
backquote. -/
structure Token.StringIn (text : List Char) (token : String) : Prop where
  isInfix : token.toList <:+: text
  splits : ¬ IsBackquoted token.toList → Literal.splitString? token.toList ≠ none

abbrev StringsIn (text : List Char) (tokens : List String) :
    Prop := ∀ token ∈ tokens, Token.StringIn text token

variable {text : List Char} {items : List Expr} {indices : List Index} {arguments : List Argument}
  {entries : List Entry} {clauses : List Clause} {parameters : List Parameter}

theorem StringsIn.nil : StringsIn text [] := nofun

theorem StringsIn.append {tokens more : List String} (h : StringsIn text tokens)
    (hmore : StringsIn text more) : StringsIn text (tokens ++ more) :=
  List.forall_mem_append.mpr ⟨h, hmore⟩

/-! ## How tightly operators bind -/

def BoolOp.strength : BoolOp → Nat
  | .or => 12
  | .and => 13

/-- Binary operators bind more tightly than comparisons. -/
theorem BinaryOp.lt_strength (op : BinaryOp) : 15 < op.strength := by cases op <;> decide

namespace Expr

/-- How tightly the operator of an expression binds. An expression without operator is a unit, and
so is a `lambda`, which extends as far as it can and may be the last operand of any operator. -/
def strength : Expr → Nat
  | .conditional _ _ _ => 1
  | .boolean op _ _ => op.strength
  | .unary _ .not _ => 14
  | .comparison _ _ _ => 15
  | .binary op _ _ => op.strength
  | .unary _ _ _ | .await _ _ => 22
  | _ => 24

end Expr

mutual

/-- The operands of operators bind as tightly as the grammar demands. What an expression in brackets
of its own holds does not matter here. -/
def Expr.Layered : Expr → Prop
  | .name _ id => Identifier.IsWord id
  | .member object key => Identifier.IsWord key ∧ object.Layered
  | .subscript value indices => value.Layered ∧ indicesLayered indices
  | .call function arguments => function.strength = 24 ∧ function.Layered ∧
      argumentsLayered arguments
  | .paren _ e | .unary _ _ e => e.Layered
  | .binary _ left right => (15 < left.strength ∧ left.Layered) ∧ 15 < right.strength ∧
      right.Layered
  | .boolean op left right => left.Layered ∧ op.strength < right.strength ∧ right.Layered
  | .comparison _ left right => left.Layered ∧ 15 < right.strength ∧ right.Layered
  | .conditional body condition alternative => body.Layered ∧ condition.Layered ∧
      alternative.Layered
  | _ => True

def Index.Layered : Index → Prop
  | .item e => e.Layered
  | .slice _ _ _ => True

def indicesLayered : List Index → Prop
  | [] => True
  | i :: rest => i.Layered ∧ indicesLayered rest

def Argument.Layered : Argument → Prop
  | .positional e => e.Layered
  | .keyword _ _ _ | .keywordSplat _ => True

def argumentsLayered : List Argument → Prop
  | [] => True
  | a :: rest => a.Layered ∧ argumentsLayered rest

end

/-- An expression as the grammar forms it from a text. -/
structure Expr.Formed (text : Passage) (e : Expr) : Prop where
  strings : StringsIn text.chars e.strings
  placed : e.Placed text.Marks
  layered : e.Layered

structure Index.Formed (text : Passage) (i : Index) : Prop where
  strings : StringsIn text.chars (indexStrings [i])
  placed : indicesPlaced text.Marks [i]
  layered : i.Layered

structure Argument.Formed (text : Passage) (a : Argument) : Prop where
  strings : StringsIn text.chars (argumentStrings [a])
  placed : argumentsPlaced text.Marks [a]
  layered : a.Layered

structure Entry.Formed (text : Passage) (e : Entry) : Prop where
  strings : StringsIn text.chars (entryStrings [e])
  placed : entriesPlaced text.Marks [e]

structure Clause.Formed (text : Passage) (c : Clause) : Prop where
  strings : StringsIn text.chars (clauseStrings [c])
  placed : clausesPlaced text.Marks [c]

structure StringToken.Formed (text : Passage) (t : StringToken) : Prop where
  strings : StringsIn text.chars t.strings
  placed : t.Placed text.Marks

structure Piece.Formed (text : Passage) (p : Piece) : Prop where
  strings : StringsIn text.chars (pieceStrings [p])
  placed : piecesPlaced text.Marks [p]

structure Parameter.Formed (text : Passage) (p : Parameter) : Prop where
  strings : StringsIn text.chars (parameterStrings [p])
  placed : parametersPlaced text.Marks [p]

/-! ## Lists -/

section Lists

variable {text : Passage}

/-- The tokens of a list are those of its members. -/
theorem StringsIn.ofList {α : Type} {chars : List Char} {strings : List α → List String}
    (hnil : strings [] = [])
    (hcons : ∀ a rest, strings (a :: rest) = strings [a] ++ strings rest) {list : List α}
    (h : ∀ a ∈ list, StringsIn chars (strings [a])) : StringsIn chars (strings list) := by
  induction list with
  | nil =>
    rw [hnil]
    exact .nil
  | cons a rest ih =>
    rw [hcons]
    exact StringsIn.append (h a List.mem_cons_self) (ih fun a ha => h a (List.mem_cons_of_mem _ ha))

theorem stringsIn_items (h : ∀ e ∈ items, e.Formed text) :
    StringsIn text.chars (itemStrings items) := by
  refine .ofList rfl (fun e rest => by simp [itemStrings]) fun e he => ?_
  simpa [itemStrings] using (h e he).strings

theorem stringsIn_indices (h : ∀ i ∈ indices, i.Formed text) :
    StringsIn text.chars (indexStrings indices) :=
  .ofList rfl (fun i rest => by cases i <;> simp [indexStrings]) fun i hi => (h i hi).strings

theorem stringsIn_arguments (h : ∀ a ∈ arguments, a.Formed text) :
    StringsIn text.chars (argumentStrings arguments) :=
  .ofList rfl (fun a rest => by cases a <;> simp [argumentStrings]) fun a ha => (h a ha).strings

theorem stringsIn_entries (h : ∀ e ∈ entries, e.Formed text) :
    StringsIn text.chars (entryStrings entries) :=
  .ofList rfl (fun e rest => by cases e <;> simp [entryStrings]) fun e he => (h e he).strings

theorem stringsIn_clauses (h : ∀ c ∈ clauses, c.Formed text) :
    StringsIn text.chars (clauseStrings clauses) :=
  .ofList rfl (fun c rest => by cases c <;> simp [clauseStrings]) fun c hc => (h c hc).strings

theorem stringsIn_tokens {tokens : List StringToken} (h : ∀ t ∈ tokens, t.Formed text) :
    StringsIn text.chars (tokenStrings tokens) := by
  refine .ofList rfl (fun t rest => by simp [tokenStrings]) fun t ht => ?_
  simpa [tokenStrings] using (h t ht).strings

theorem stringsIn_pieces {pieces : List Piece} (h : ∀ p ∈ pieces, p.Formed text) :
    StringsIn text.chars (pieceStrings pieces) :=
  .ofList rfl (fun p rest => by cases p <;> simp [pieceStrings]) fun p hp => (h p hp).strings

theorem stringsIn_parameters (h : ∀ p ∈ parameters, p.Formed text) :
    StringsIn text.chars (parameterStrings parameters) :=
  .ofList rfl (fun p rest => by cases p <;> simp [parameterStrings]) fun p hp => (h p hp).strings

theorem layered_indices (h : ∀ i ∈ indices, i.Formed text) : indicesLayered indices := by
  induction indices with
  | nil => trivial
  | cons i rest ih =>
    exact ⟨(h i List.mem_cons_self).layered, ih fun i hi => h i (List.mem_cons_of_mem _ hi)⟩

theorem layered_arguments (h : ∀ a ∈ arguments, a.Formed text) :
    argumentsLayered arguments := by
  induction arguments with
  | nil => trivial
  | cons a rest ih =>
    exact ⟨(h a List.mem_cons_self).layered, ih fun a ha => h a (List.mem_cons_of_mem _ ha)⟩

end Lists

/-! ## Nodes -/

section Nodes

variable {text : Passage} {pos : Position} {e left right body : Expr}

namespace Expr.Formed

theorem name {id : String} (hpos : text.Marks pos) (h : Identifier.IsWord id) :
    (Expr.name pos id).Formed text :=
  ⟨.nil, hpos, h⟩

theorem number {isFloat : Bool} {token : String} (hpos : text.Marks pos) :
    (Expr.number pos isFloat token).Formed text :=
  ⟨.nil, hpos, trivial⟩

theorem constant {value : Constant} (hpos : text.Marks pos) :
    (Expr.constant pos value).Formed text :=
  ⟨.nil, hpos, trivial⟩

theorem foreign {kind : NodeKind} (hpos : text.Marks pos) : (Expr.foreign pos kind).Formed text :=
  ⟨.nil, hpos, trivial⟩

theorem string {t : StringToken} (h : t.Formed text) :
    (Expr.string t).Formed text := ⟨h.strings, h.placed, trivial⟩

theorem joined {first : StringToken} {rest : List StringToken} (hfirst : first.Formed text)
    (hrest : ∀ t ∈ rest, t.Formed text) : (Expr.joined first rest).Formed text :=
  ⟨hfirst.strings.append (stringsIn_tokens hrest),
    ⟨hfirst.placed, placed_tokens fun t ht => (hrest t ht).placed⟩, trivial⟩

theorem member {key : String} (h : e.Formed text) (hkey : Identifier.IsWord key) :
    (Expr.member e key).Formed text :=
  ⟨h.strings, h.placed, hkey, h.layered⟩

theorem subscript (h : e.Formed text) (hindices : ∀ i ∈ indices, i.Formed text) :
    (Expr.subscript e indices).Formed text :=
  ⟨h.strings.append (stringsIn_indices hindices),
    ⟨h.placed, placed_indices fun i hi => (hindices i hi).placed⟩,
    h.layered, layered_indices hindices⟩

theorem call (h : e.Formed text) (hunit : e.strength = 24)
    (harguments : ∀ a ∈ arguments, a.Formed text) : (Expr.call e arguments).Formed text :=
  ⟨h.strings.append (stringsIn_arguments harguments),
    ⟨h.placed, placed_arguments fun a ha => (harguments a ha).placed⟩, hunit, h.layered,
    layered_arguments harguments⟩

theorem paren (hpos : text.Marks pos) (h : e.Formed text) : (Expr.paren pos e).Formed text :=
  ⟨h.strings, ⟨hpos, h.placed⟩, h.layered⟩

theorem unary {op : UnaryOp} (hpos : text.Marks pos) (h : e.Formed text) :
    (Expr.unary pos op e).Formed text :=
  ⟨h.strings, ⟨hpos, h.placed⟩, h.layered⟩

theorem await (hpos : text.Marks pos) (h : e.Formed text) : (Expr.await pos e).Formed text :=
  ⟨h.strings, ⟨hpos, h.placed⟩, trivial⟩

theorem splat (hpos : text.Marks pos) (h : e.Formed text) : (Expr.splat pos e).Formed text :=
  ⟨h.strings, ⟨hpos, h.placed⟩, trivial⟩

theorem binary {op : BinaryOp} (hleft : left.Formed text) (hright : right.Formed text)
    (htight : 15 < left.strength)
    (htight' : 15 < right.strength) : (Expr.binary op left right).Formed text :=
  ⟨hleft.strings.append hright.strings, ⟨hleft.placed, hright.placed⟩,
    ⟨htight, hleft.layered⟩, htight',
    hright.layered⟩

theorem boolean {op : BoolOp} (hleft : left.Formed text) (hright : right.Formed text)
    (htight : op.strength < right.strength) : (Expr.boolean op left right).Formed text :=
  ⟨hleft.strings.append hright.strings, ⟨hleft.placed, hright.placed⟩, hleft.layered, htight,
    hright.layered⟩

theorem comparison {op : CompareOp} (hleft : left.Formed text) (hright : right.Formed text)
    (htight : 15 < right.strength) : (Expr.comparison op left right).Formed text :=
  ⟨hleft.strings.append hright.strings, ⟨hleft.placed, hright.placed⟩, hleft.layered, htight,
    hright.layered⟩

theorem conditional {condition alternative : Expr} (hbody : body.Formed text)
    (hcondition : condition.Formed text)
    (halternative : alternative.Formed text) :
    (Expr.conditional body condition alternative).Formed text :=
  ⟨hbody.strings.append (hcondition.strings.append halternative.strings),
    ⟨hbody.placed, hcondition.placed, halternative.placed⟩, hbody.layered, hcondition.layered,
    halternative.layered⟩

theorem lambda (hpos : text.Marks pos) (hparameters : ∀ p ∈ parameters, p.Formed text)
    (hbody : body.Formed text) : (Expr.lambda pos parameters body).Formed text :=
  ⟨(stringsIn_parameters hparameters).append hbody.strings,
    ⟨hpos, placed_parameters fun p hp => (hparameters p hp).placed, hbody.placed⟩, trivial⟩

theorem sequence {form : SequenceForm} (hpos : text.Marks pos) (h : ∀ e ∈ items, e.Formed text) :
    (Expr.sequence pos form items).Formed text :=
  ⟨stringsIn_items h, ⟨hpos, placed_items fun e he => (h e he).placed⟩, trivial⟩

theorem dictionary (hpos : text.Marks pos) (h : ∀ e ∈ entries, e.Formed text) :
    (Expr.dictionary pos entries).Formed text :=
  ⟨stringsIn_entries h, ⟨hpos, placed_entries fun e he => (h e he).placed⟩, trivial⟩

theorem comprehension {form : ComprehensionForm} (hpos : text.Marks pos)
    (hbody : body.Formed text) (hclauses : ∀ c ∈ clauses, c.Formed text) :
    (Expr.comprehension pos form body clauses).Formed text :=
  ⟨hbody.strings.append (stringsIn_clauses hclauses),
    ⟨hpos, hbody.placed, placed_clauses fun c hc => (hclauses c hc).placed⟩, trivial⟩

theorem dictComprehension {key value : Expr} (hpos : text.Marks pos) (hkey : key.Formed text)
    (hvalue : value.Formed text) (hclauses : ∀ c ∈ clauses, c.Formed text) :
    (Expr.dictComprehension pos key value clauses).Formed text :=
  ⟨hkey.strings.append (hvalue.strings.append (stringsIn_clauses hclauses)),
    ⟨hpos, hkey.placed, hvalue.placed, placed_clauses fun c hc => (hclauses c hc).placed⟩, trivial⟩

end Expr.Formed

/-! ## Parts of nodes -/

/-- An expression that need not be there. -/
structure OptionalFormed (text : Passage) (e : Option Expr) : Prop where
  strings : StringsIn text.chars (optionalStrings e)
  placed : optionalPlaced text.Marks e

theorem OptionalFormed.none : OptionalFormed text none := ⟨.nil, trivial⟩

theorem OptionalFormed.some (h : e.Formed text) :
    OptionalFormed text (some e) := ⟨h.strings, h.placed⟩

theorem Index.Formed.item (h : e.Formed text) : (Index.item e).Formed text :=
  ⟨by simpa [indexStrings] using h.strings, ⟨h.placed, trivial⟩, h.layered⟩

theorem Index.Formed.slice {lower upper step : Option Expr} (hlower : OptionalFormed text lower)
    (hupper : OptionalFormed text upper) (hstep : OptionalFormed text step) :
    (Index.slice lower upper step).Formed text := by
  refine ⟨?_, ⟨⟨hlower.placed, hupper.placed, hstep.placed⟩, trivial⟩, trivial⟩
  simpa [indexStrings] using hlower.strings.append (StringsIn.append hupper.strings hstep.strings)

theorem Argument.Formed.positional (h : e.Formed text) : (Argument.positional e).Formed text :=
  ⟨by simpa [argumentStrings] using h.strings, ⟨h.placed, trivial⟩, h.layered⟩

theorem Argument.Formed.keyword {name : String} (hpos : text.Marks pos) (h : e.Formed text) :
    (Argument.keyword pos name e).Formed text :=
  ⟨by simpa [argumentStrings] using h.strings, ⟨⟨hpos, h.placed⟩, trivial⟩, trivial⟩

theorem Argument.Formed.keywordSplat (hpos : text.Marks pos) :
    (Argument.keywordSplat pos).Formed text :=
  ⟨.nil, ⟨hpos, trivial⟩, trivial⟩

theorem Argument.Formed.value (h : (Argument.positional e).Formed text) : e.Formed text :=
  ⟨by simpa [argumentStrings] using h.strings, h.placed.1, h.layered⟩

theorem Entry.Formed.pair {key value : Expr} (hkey : key.Formed text) (hvalue : value.Formed text) :
    (Entry.pair key value).Formed text :=
  ⟨by simpa [entryStrings] using hkey.strings.append hvalue.strings,
    ⟨⟨hkey.placed, hvalue.placed⟩, trivial⟩⟩

theorem Entry.Formed.splat (h : e.Formed text) : (Entry.splat e).Formed text :=
  ⟨by simpa [entryStrings] using h.strings, ⟨h.placed, trivial⟩⟩

theorem Clause.Formed.loop {isAsync : Bool} {target : ClauseTarget} (hpos : text.Marks pos)
    (htarget : target.Placed text.Marks) (h : e.Formed text) :
    (Clause.loop pos isAsync target e).Formed text :=
  ⟨by simpa [clauseStrings] using h.strings, ⟨⟨hpos, htarget, h.placed⟩, trivial⟩⟩

theorem Clause.Formed.guard (h : e.Formed text) : (Clause.guard e).Formed text :=
  ⟨by simpa [clauseStrings] using h.strings, ⟨h.placed, trivial⟩⟩

theorem Piece.Formed.raw {raw : List Char} : (Piece.text raw).Formed text := ⟨.nil, trivial⟩

theorem Piece.Formed.hole {option : Option HoleOption} (hpos : text.Marks pos) (h : e.Formed text) :
    (Piece.hole pos option e).Formed text :=
  ⟨by simpa [pieceStrings] using h.strings, ⟨⟨hpos, h.placed⟩, trivial⟩⟩

theorem Parameter.Formed.plain {name : String} :
    (Parameter.plain name).Formed text := ⟨.nil, trivial⟩

theorem Parameter.Formed.withDefault {name : String} (h : e.Formed text) :
    (Parameter.withDefault name e).Formed text :=
  ⟨by simpa [parameterStrings] using h.strings, ⟨h.placed, trivial⟩⟩

theorem Parameter.Formed.foreign {construct : String} (hpos : text.Marks pos) :
    (Parameter.foreign pos construct).Formed text :=
  ⟨.nil, ⟨hpos, trivial⟩⟩

end Nodes

end ScriptCompiler
