import ScriptCompiler.Proofs.Reading

/-!
# Places of nodes

`Placed` says that the positions in a tree have a property: those of all nodes that a report about
the tree can name. The position of a statement is left out where no report is about the statement
itself. Functions and classes also have words for names.
-/

namespace ScriptCompiler

def ClauseTarget.Placed (Q : Position → Prop) : ClauseTarget → Prop
  | .foreign pos _ => Q pos
  | .name _ | .names _ => True

mutual

def Expr.Placed (Q : Position → Prop) : Expr → Prop
  | .name pos _ | .number pos _ _ | .constant pos _ | .foreign pos _ => Q pos
  | .string token => token.Placed Q
  | .joined first rest => first.Placed Q ∧ tokensPlaced Q rest
  | .member e _ => e.Placed Q
  | .paren pos e | .unary pos _ e | .await pos e | .splat pos e => Q pos ∧ e.Placed Q
  | .subscript value indices => value.Placed Q ∧ indicesPlaced Q indices
  | .call function arguments => function.Placed Q ∧ argumentsPlaced Q arguments
  | .binary _ left right | .boolean _ left right
  | .comparison _ left right => left.Placed Q ∧ right.Placed Q
  | .conditional body condition alternative => body.Placed Q ∧ condition.Placed Q ∧
      alternative.Placed Q
  | .lambda pos parameters body => Q pos ∧ parametersPlaced Q parameters ∧ body.Placed Q
  | .sequence pos _ items => Q pos ∧ itemsPlaced Q items
  | .dictionary pos entries => Q pos ∧ entriesPlaced Q entries
  | .comprehension pos _ body clauses => Q pos ∧ body.Placed Q ∧ clausesPlaced Q clauses
  | .dictComprehension pos key value clauses => Q pos ∧ key.Placed Q ∧ value.Placed Q ∧
      clausesPlaced Q clauses

def optionalPlaced (Q : Position → Prop) : Option Expr → Prop
  | none => True
  | some e => e.Placed Q

def indicesPlaced (Q : Position → Prop) : List Index → Prop
  | [] => True
  | .item e :: rest => e.Placed Q ∧ indicesPlaced Q rest
  | .slice lower upper step :: rest =>
    (optionalPlaced Q lower ∧ optionalPlaced Q upper ∧ optionalPlaced Q step) ∧ indicesPlaced Q rest

def itemsPlaced (Q : Position → Prop) : List Expr → Prop
  | [] => True
  | e :: rest => e.Placed Q ∧ itemsPlaced Q rest

def argumentsPlaced (Q : Position → Prop) : List Argument → Prop
  | [] => True
  | .positional e :: rest => e.Placed Q ∧ argumentsPlaced Q rest
  | .keyword pos _ e :: rest => (Q pos ∧ e.Placed Q) ∧ argumentsPlaced Q rest
  | .keywordSplat pos :: rest => Q pos ∧ argumentsPlaced Q rest

def entriesPlaced (Q : Position → Prop) : List Entry → Prop
  | [] => True
  | .pair key value :: rest => (key.Placed Q ∧ value.Placed Q) ∧ entriesPlaced Q rest
  | .splat e :: rest => e.Placed Q ∧ entriesPlaced Q rest

def clausesPlaced (Q : Position → Prop) : List Clause → Prop
  | [] => True
  | .loop pos _ target e :: rest => (Q pos ∧ target.Placed Q ∧ e.Placed Q) ∧ clausesPlaced Q rest
  | .guard e :: rest => e.Placed Q ∧ clausesPlaced Q rest

def StringToken.Placed (Q : Position → Prop) : StringToken → Prop
  | .mk pos _ pieces => Q pos ∧ piecesPlaced Q pieces

def tokensPlaced (Q : Position → Prop) : List StringToken → Prop
  | [] => True
  | token :: rest => token.Placed Q ∧ tokensPlaced Q rest

def piecesPlaced (Q : Position → Prop) : List Piece → Prop
  | [] => True
  | .text _ :: rest => piecesPlaced Q rest
  | .hole pos _ e :: rest => (Q pos ∧ e.Placed Q) ∧ piecesPlaced Q rest

def parametersPlaced (Q : Position → Prop) : List Parameter → Prop
  | [] => True
  | .plain _ :: rest => parametersPlaced Q rest
  | .withDefault _ e :: rest => e.Placed Q ∧ parametersPlaced Q rest
  | .foreign pos _ :: rest => Q pos ∧ parametersPlaced Q rest

end

def Target.Placed (Q : Position → Prop) : Target → Prop
  | .name pos _ | .foreign pos _ => Q pos
  | .member object _ => object.Placed Q
  | .subscript value indices => value.Placed Q ∧ indicesPlaced Q indices

def Assigned.Placed (Q : Position → Prop) : Assigned → Prop
  | .value e => e.Placed Q
  | .nothing | .chained => True

def basesPlaced (Q : Position → Prop) : Option (Position × List Argument) → Prop
  | none => True
  | some (pos, arguments) => Q pos ∧ argumentsPlaced Q arguments

def decoratorsPlaced (Q : Position → Prop) (decorators : List Decorator) :
    Prop := ∀ d ∈ decorators, Q d.pos

mutual

def Stmt.Placed (Q : Position → Prop) : Stmt → Prop
  | .evaluate _ items | .asserts _ items => itemsPlaced Q items
  | .prints _ redirection items => (∀ pos ∈ redirection, Q pos) ∧ itemsPlaced Q items
  | .assign target right => target.Placed Q ∧ right.Placed Q
  | .augment target _ right => target.Placed Q ∧ right.Placed Q
  | .returns _ value => optionalPlaced Q value
  | .raises pos value _ => Q pos ∧ optionalPlaced Q value
  | .branch _ condition body more otherwise =>
    condition.Placed Q ∧ blockPlaced Q body ∧ branchesPlaced Q more ∧ otherwisePlaced Q otherwise
  | .forLoop pos _ target iterable body otherwise =>
    Q pos ∧ target.Placed Q ∧ iterable.Placed Q ∧ blockPlaced Q body ∧ otherwisePlaced Q otherwise
  | .whileLoop _ condition body otherwise => condition.Placed Q ∧ blockPlaced Q body ∧
      otherwisePlaced Q otherwise
  | .function decorators (.mk pos _ _ name parameters body) =>
    decoratorsPlaced Q decorators ∧ Identifier.IsWord name ∧ Q pos ∧ parametersPlaced Q parameters ∧
      blockPlaced Q body
  | .classDef decorators (.mk _ _ name bases body) =>
    decoratorsPlaced Q decorators ∧ Identifier.IsWord name ∧ basesPlaced Q bases ∧
      blockPlaced Q body
  | .foreign pos _ _ => Q pos
  | .pass _ | .breaks _ | .continues _ | .outer _ _ _ _ => True

def blockPlaced (Q : Position → Prop) : List Stmt → Prop
  | [] => True
  | s :: rest => s.Placed Q ∧ blockPlaced Q rest

def otherwisePlaced (Q : Position → Prop) : Option (List Stmt) → Prop
  | none => True
  | some body => blockPlaced Q body

def branchesPlaced (Q : Position → Prop) : List Branch → Prop
  | [] => True
  | .mk condition body :: rest => (condition.Placed Q ∧ blockPlaced Q body) ∧ branchesPlaced Q rest

end

variable {Q : Position → Prop}

/-- An expression begins at the place of a node. -/
theorem Expr.Placed.start : ∀ {e : Expr}, e.Placed Q → Q e.start
  | .name .., h | .number .., h | .constant .., h | .foreign .., h => h
  | .string (.mk ..), h => h.1
  | .joined (.mk ..) _, h => h.1.1
  | .paren .., h | .unary .., h | .await .., h | .splat .., h | .lambda .., h | .sequence .., h
  | .dictionary .., h
  | .comprehension .., h | .dictComprehension .., h => h.1
  | .member e _, h => start (e := e) h
  | .subscript e _, h | .call e _, h | .binary _ e _, h | .boolean _ e _, h | .comparison _ e _, h
  | .conditional e _ _, h => start (e := e) h.1

theorem Target.Placed.start {t : Target} (h : t.Placed Q) : Q t.start := by
  cases t with
  | name | foreign => exact h
  | member => exact Expr.Placed.start h
  | subscript => exact h.1.start

/-! ## Lists -/

/-- The places in a list are those of its members. -/
theorem placed_ofList {α : Type} {placed : List α → Prop} (hnil : placed [])
    (hcons : ∀ a rest, placed [a] → placed rest → placed (a :: rest)) {list : List α}
    (h : ∀ a ∈ list, placed [a]) : placed list := by
  induction list with
  | nil => exact hnil
  | cons a rest ih =>
    exact hcons a rest (h a List.mem_cons_self) (ih fun a ha => h a (List.mem_cons_of_mem _ ha))

theorem placed_items {items : List Expr} (h : ∀ e ∈ items, e.Placed Q) : itemsPlaced Q items :=
  placed_ofList trivial (fun _ _ h hrest => ⟨h.1, hrest⟩) fun e he => ⟨h e he, trivial⟩

theorem placed_tokens {tokens : List StringToken} (h : ∀ t ∈ tokens, t.Placed Q) :
    tokensPlaced Q tokens :=
  placed_ofList trivial (fun _ _ h hrest => ⟨h.1, hrest⟩) fun t ht => ⟨h t ht, trivial⟩

theorem placed_block {body : List Stmt} (h : ∀ s ∈ body, s.Placed Q) : blockPlaced Q body :=
  placed_ofList trivial (fun _ _ h hrest => ⟨h.1, hrest⟩) fun s hs => ⟨h s hs, trivial⟩

theorem placed_indices {indices : List Index} (h : ∀ i ∈ indices, indicesPlaced Q [i]) :
    indicesPlaced Q indices :=
  placed_ofList trivial (fun i _ h hrest => by cases i <;> exact ⟨h.1, hrest⟩) h

theorem placed_arguments {arguments : List Argument} (h : ∀ a ∈ arguments, argumentsPlaced Q [a]) :
    argumentsPlaced Q arguments :=
  placed_ofList trivial (fun a _ h hrest => by cases a <;> exact ⟨h.1, hrest⟩) h

theorem placed_entries {entries : List Entry} (h : ∀ e ∈ entries, entriesPlaced Q [e]) :
    entriesPlaced Q entries :=
  placed_ofList trivial (fun e _ h hrest => by cases e <;> exact ⟨h.1, hrest⟩) h

theorem placed_clauses {clauses : List Clause} (h : ∀ c ∈ clauses, clausesPlaced Q [c]) :
    clausesPlaced Q clauses :=
  placed_ofList trivial (fun c _ h hrest => by cases c <;> exact ⟨h.1, hrest⟩) h

theorem placed_pieces {pieces : List Piece} (h : ∀ p ∈ pieces, piecesPlaced Q [p]) :
    piecesPlaced Q pieces := by
  refine placed_ofList trivial (fun p rest h hrest => ?_) h
  cases p with
  | text => exact hrest
  | hole => exact ⟨h.1, hrest⟩

theorem placed_parameters {parameters : List Parameter}
    (h : ∀ p ∈ parameters, parametersPlaced Q [p]) : parametersPlaced Q parameters := by
  refine placed_ofList trivial (fun p rest h hrest => ?_) h
  cases p with
  | plain => exact hrest
  | withDefault | foreign => exact ⟨h.1, hrest⟩

theorem placed_branches {branches : List Branch} (h : ∀ b ∈ branches, branchesPlaced Q [b]) :
    branchesPlaced Q branches :=
  placed_ofList trivial (fun b _ h hrest => by cases b; exact ⟨h.1, hrest⟩) h

end ScriptCompiler
