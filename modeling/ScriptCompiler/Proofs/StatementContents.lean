import ScriptCompiler.Proofs.ExpressionContents
import ScriptCompiler.Proofs.LoweredParts

/-!
# Contents of statements

The draft of a statement is put together from copies of its components and the spots that belong to
it, as that of an expression is. By induction this holds of every phrase, and of the draft of a
program. What stands before a statement does not matter for the calls in it, because it begins a
line.
-/

namespace ScriptCompiler

/-! ## Functions -/

namespace Spans

variable {A : Prop} {xs ys zs : Spans} {b c d : Contents}

theorem fresh_defaultLine (depth : Nat) (formal : Formal) : Fresh (defaultLine depth formal) := by
  unfold defaultLine
  split
  · exact .nil
  · exact .margin _ _

theorem fresh_receiverLine (depth : Nat) (receiver : Lowering.Receiver) :
    Fresh (receiverLine depth receiver) := by
  cases receiver with
  | bound name =>
    rw [receiverLine]
    split_ifs
    · exact .margin _ _
    · exact .nil
  | absent | unbound => exact .nil

theorem headText?_text (t : String) : headText? [.text t] = some t := by
  simp [headText?]

theorem headText?_named (t name : String) :
    headText? [.introduction ⟨.function, name⟩, .text t] = some (t ++ name) := by
  rfl

theorem asyncMark_ne_awaitMark (isAsync : Bool) :
    Lowering.asyncMark isAsync ≠ Script.awaitMark := by
  cases isAsync <;> decide

example : Lowering.asyncMark true ≠ Script.awaitMark := by decide +kernel

namespace MadeOf

theorem defaultLine (depth : Nat) {formal : Formal} (h : formal.MadeOf A c) :
    MadeOf A .statement (defaultLine depth formal) c := by
  obtain ⟨name, default⟩ := formal
  cases default with
  | none => exact h .statement
  | some default =>
    have hvalue : MadeOf A .statement (default ++ [.text ";"]) c :=
      before (by decide) (h .statement)
    exact ((((((hvalue.text (by decide)).introduction (by decide) _).text (by decide)).introduction
      (by decide) _).text
      (by decide)).introduction (by decide) _).line depth

theorem receiverLine (depth : Nat) (receiver : Lowering.Receiver) :
    MadeOf A .statement (receiverLine depth receiver) .empty := by
  cases receiver with
  | bound name =>
    rw [Spans.receiverLine]
    split_ifs
    · exact (((nil.text (by decide)).introduction (by decide) _).text (by decide)).line depth
    · exact nil
  | absent | unbound => exact nil

theorem signature (formals : List Formal) : MadeOf A .statement (signature formals) .empty :=
  (names (by decide) (fun formal : Formal => ⟨.parameter, formal.name⟩) formals).parens

theorem classBase (bases : Option (Position × List Argument)) :
    MadeOf A .statement (classBase bases) .empty := by
  unfold Spans.classBase
  split
  · split_ifs
    · exact nil
    · exact (mention _).text (by decide)
  · exact nil

theorem constructor (depth : Nat) (hasBase : Bool) :
    MadeOf A .statement (constructor depth hasBase) .empty := by
  have hrest := fun {xs : Spans} (h : MadeOf A .statement xs .empty) =>
    (h.below (textLine (depth + 1) (t := "this.__init__(...args);") (by decide))
      (.textLine _ _)).below
      (textLine depth (t := "\x7d") (by decide)) (.textLine _ _)
  have hopening := textLine (A := A) (l := .statement) depth (t := "constructor(...args) \x7b")
      (by decide)
  unfold Spans.constructor
  split_ifs
  · exact hrest (hopening.below (textLine (depth + 1) (by decide)) (.textLine _ _))
  · exact hrest (hopening.below nil .nil)

theorem classHead (depth : Nat) (name : String) (bases : Option (Position × List Argument))
    (initialises : Bool) : MadeOf A .statement (Spans.line depth
        ([.text "class ", .introduction ⟨.className, name⟩] ++
        Spans.classBase bases ++ [.text " \x7b"]) ++
      if initialises then Spans.constructor (depth + 1) (hasBase bases) else []) .empty := by
  have hname := (nil (A := A)).introduction (l := .statement) (by decide) ⟨.className, name⟩ |>.text
      (t := "class ")
    (by decide)
  have hline :=
    ((hname.append (classBase bases) fun _ => .settled rfl).before (t := " \x7b")
      (by decide)).line depth
  split_ifs
  · exact hline.below (constructor _ _) (.margin _ _)
  · exact hline.below nil .nil

/-- Step: a loop with an alternative is made of its condition and its two blocks. -/
theorem whileElse (depth index : Nat) (hcondition : MadeOf A .statement xs b)
    (hbody : MadeOf A .statement ys c)
    (hotherwise : MadeOf A .statement zs d) (hys : Fresh ys) (hzs : Fresh zs) :
    MadeOf A .statement (whileElse depth index xs ys zs) (b ++ c ++ d) := by
  have hdeclare :=
    (((nil.text (A := A) (l := .statement) (t := " = false;") (by decide)).introduction (by decide)
    ⟨.synthesized, "__orelse" ++ toString index ++ "__"⟩).text (t := "var ") (by decide)).line depth
  have htest := (hcondition.between (t := "if (!(") (u := ")) \x7b") (by decide) (by decide)).line
      (depth + 1)
  have hset :=
    ((nil.text (A := A) (l := .statement) (t := " = true;") (by decide)).introduction (by decide)
    ⟨.synthesized, "__orelse" ++ toString index ++ "__"⟩).line (depth + 2)
  have hquery :=
    (((nil.text (A := A) (l := .statement) (t := ") \x7b") (by decide)).introduction (by decide)
    ⟨.synthesized, "__orelse" ++ toString index ++ "__"⟩).text (t := "if (") (by decide)).line depth
  have hloop :=
    ((((hdeclare.below (textLine depth (t := "while (true) \x7b") (by decide))
      (.textLine _ _)).below htest
    (.line _ _)).below hset (.line _ _)).below (textLine (depth + 2) (t := "break;") (by decide))
      (.textLine _ _)).below
      (textLine (depth + 1) (t := "\x7d") (by decide)) (.textLine _ _)
  have hall :=
    ((((hloop.below hbody hys).below (textLine depth (t := "\x7d") (by decide))
      (.textLine _ _)).below hquery
    (.line _ _)).below hotherwise hzs).below (textLine depth (t := "\x7d") (by decide))
      (.textLine _ _)
  simp only [Contents.empty_append, Contents.append_empty] at hall
  exact hall

end MadeOf

end Spans

namespace WrittenFunction

/-- The text of a function behind what it is introduced with. -/
def spans (f : WrittenFunction) (head : Spans) : Spans :=
  Spans.function f.depth head (formalSpans f.outside f.parameters) f.receiver f.closer
    (blockSpans f.inside f.body)

theorem spans_eq (f : WrittenFunction) (head : Spans) :
    f.spans head = .margin f.depth :: head ++ .function f.inner :: [.text "\n"] := by
  simp [spans, Spans.function, inner]

end WrittenFunction

theorem tail_formalSpans (p : Place) (parameters : List Parameter) :
    (formalSpans p parameters).tail = formalSpans p (Parameter.rest parameters) := by
  cases parameters with
  | nil => simp [formalSpans, Parameter.rest]
  | cons parameter rest => cases parameter <;> simp [formalSpans, Parameter.rest]

theorem startsWithSelf_formalSpans (p : Place) (parameters : List Parameter) :
    Spans.startsWithSelf (formalSpans p parameters) = Parameter.startsWithSelf parameters := by
  rw [Parameter.startsWithSelf, ← names_formalSpans p]
  cases formalSpans p parameters <;> simp [Spans.startsWithSelf]

theorem splitReceiver_formalSpans (p : Place) (parameters : List Parameter) :
    Spans.splitReceiver (formalSpans p parameters) =
      (Parameter.receiver parameters, formalSpans p (Parameter.rest parameters)) := by
  rw [Parameter.receiver, ← names_formalSpans p, ← tail_formalSpans]
  cases formalSpans p parameters <;> simp [Spans.splitReceiver]

namespace WrittenFunction

theorem free_spans (depth : Nat) (p : Place) (parameters : List Parameter) (body : List Stmt)
    (head : Spans) :
    (free depth p parameters body).spans head =
      Spans.function depth head (Spans.withoutSelf (formalSpans p parameters)) .absent "\x7d"
        (blockSpans (p.inFunction (ScriptCompiler.withoutSelf (declaredNames parameters)))
        body) := by
  rw [free, Spans.withoutSelf, startsWithSelf_formalSpans]
  split_ifs
  · rw [tail_formalSpans]
    rfl
  · rfl

end WrittenFunction

theorem tail_formalSpots (p : Place) (parameters : List Parameter) :
    (formalSpots p parameters).tail = formalSpots p (Parameter.rest parameters) := by
  cases parameters with
  | nil => simp [formalSpots, Parameter.rest]
  | cons parameter rest => cases parameter <;> simp [formalSpots, Parameter.rest]

theorem tail_declaredNames (parameters : List Parameter) :
    (declaredNames parameters).tail = declaredNames (Parameter.rest parameters) := by
  rw [← names_formalSpans (.start none), ← names_formalSpans (.start none), ← tail_formalSpans,
    List.map_tail]

example : withoutSelf (declaredNames []) = [] := by decide +kernel

/-- A definition that is not written where it stands has no text there. -/
theorem FunctionDef.spans_eq_nil {decorators : List Decorator} {d : FunctionDef}
    (h : d.written? p decorators = none) :
    (Stmt.function decorators d).spans p = [] := by
  obtain ⟨pos, isAsync, namePos, name, parameters, body⟩ := d
  rw [FunctionDef.written?] at h
  rw [Stmt.spans]
  cases hclass : p.className with
  | none =>
    rw [hclass] at h
    cases h
  | some className =>
    rw [hclass] at h
    cases hform : Lowering.methodForm decorators with
    | error d =>
      rw [hform] at h
      cases h
    | ok form =>
      rw [hform] at h
      cases form with
      | native => rfl
      | static => cases h
      | ordinary => cases h

/-- A definition is written as the function that it is said to be. -/
theorem FunctionDef.exists_spans {decorators : List Decorator} {d : FunctionDef}
    {f : WrittenFunction}
    (h : d.written? p decorators = some f) :
    ∃ head tail, (Stmt.function decorators d).spans p = f.spans head ++ tail := by
  obtain ⟨pos, isAsync, namePos, name, parameters, body⟩ := d
  rw [FunctionDef.written?] at h
  rw [Stmt.spans]
  cases hclass : p.className with
  | none =>
    rw [hclass] at h
    obtain rfl := Option.some_inj.mp h
    exact ⟨_, [], by rw [List.append_nil, WrittenFunction.free_spans, Spans.plainFunction]⟩
  | some className =>
    rw [hclass] at h
    have hmethod :
        ∃ head tail, Spans.instanceMethod p.depth className isAsync name (formalSpans p parameters)
        (blockSpans (p.inFunction (receiverLast (declaredNames parameters))) body) =
        (WrittenFunction.method "\x7d;" p parameters body).spans head ++ tail := by
      rw [Spans.instanceMethod, splitReceiver_formalSpans]
      exact ⟨_, _, by rw [List.append_assoc, List.append_assoc]; rfl⟩
    cases hform : Lowering.methodForm decorators with
    | error d =>
      rw [hform] at h
      obtain rfl := Option.some_inj.mp h
      exact hmethod
    | ok form =>
      rw [hform] at h
      cases form with
      | native => cases h
      | static =>
        obtain rfl := Option.some_inj.mp h
        exact ⟨_, _, rfl⟩
      | ordinary =>
        obtain rfl := Option.some_inj.mp h
        exact hmethod

/-! ## Lines -/

section Fresh

open Spans (Fresh)

/-- The text of a statement begins a line. -/
theorem Stmt.fresh_spans (p : Place) (s : Stmt) : Fresh (s.spans p) := by
  cases s with
  | evaluate pos items =>
    by_cases hsingle : ∃ e, items = [e]
    · obtain ⟨e, rfl⟩ := hsingle
      exact .margin _ _
    · have hsingle : ∀ e, items ≠ [e] := fun e h => hsingle ⟨e, h⟩
      rw [Stmt.spans]
      · exact .margin _ _
      · exact hsingle
  | assign left right =>
    rw [Stmt.spans]
    cases right with
    | value right => exact .margin _ _
    | nothing | chained =>
      cases left with
      | name pos id =>
        rw [Place.assign]
        split_ifs
        · exact .nil
        · exact .margin _ _
      | member | subscript | foreign => exact .nil
  | augment left op right =>
    rw [Stmt.spans]
    unfold Place.augment
    split
    · exact .margin _ _
    · split <;> exact .margin _ _
  | returns pos value =>
    cases value <;> rw [Stmt.spans] <;> exact .margin _ _
  | raises pos value cause =>
    cases value <;> rw [Stmt.spans]
    · exact .nil
    · exact .margin _ _
  | whileLoop pos condition body otherwise =>
    cases otherwise <;> rw [Stmt.spans] <;> exact .margin _ _
  | function decorators d =>
    cases hwritten : d.written? p decorators with
    | none =>
      rw [FunctionDef.spans_eq_nil hwritten]
      exact .nil
    | some f =>
      obtain ⟨head, tail, hspans⟩ := FunctionDef.exists_spans hwritten
      rw [hspans]
      exact .margin _ _
  | classDef decorators d =>
    obtain ⟨pos, namePos, name, bases, body⟩ := d
    exact .margin _ _
  | outer | foreign =>
    exact .nil
  | pass | breaks | continues | asserts | prints | branch | forLoop =>
    exact .margin _ _

/-- Run: a block begins a line, since each statement does. -/
theorem fresh_block (p : Place) (body : List Stmt) : Fresh (blockSpans p body) := by
  induction body generalizing p with
  | nil =>
    exact .nil
  | cons s rest ih =>
    exact (s.fresh_spans p).append (ih _)

theorem fresh_branches (p : Place) (more : List Branch) : Fresh (branchSpans p more) := by
  cases more with
  | nil =>
    exact .nil
  | cons branch rest =>
    obtain ⟨condition, body⟩ := branch
    exact .margin _ _

theorem fresh_otherwise (p : Place) (otherwise : Option (List Stmt)) :
    Fresh (otherwiseSpans p otherwise) := by
  cases otherwise <;> rw [otherwiseSpans]
  · exact .nil
  · exact .margin _ _

theorem fresh_natives (p : Place) (body : List Stmt) : Fresh (nativeSpans p body) := by
  fun_induction nativeFunctions p body with
  | case1 =>
    exact .nil
  | case2 p decorators pos isAsync namePos name parameters body rest hnative ih =>
    rw [nativeSpans, if_pos hnative]
    exact .append (.margin _ _) ih
  | case3 p decorators pos isAsync namePos name parameters body rest hnative ih =>
    rw [nativeSpans, if_neg hnative]
    exact ih
  | case4 p s rest hother ih =>
    rw [nativeSpans]
    · exact ih
    · exact hother

theorem fresh_classAttribute (p : Place) (className : String) (pos : Position) (id : String)
    (right : Assigned) : Fresh (p.classAttribute className (.name pos id) right) := by
  cases right with
  | value e => exact .margin _ _
  | nothing | chained => exact .nil

theorem fresh_members {body : List Stmt} (h : MembersAccepted body) (p : Place)
    (className : String) : Fresh (memberSpans p className body) := by
  induction body generalizing p with
  | nil =>
    exact .nil
  | cons s rest ih =>
    by_cases hassign : ∃ left right, s = .assign left right
    · obtain ⟨left, right, rfl⟩ := hassign
      obtain ⟨⟨pos, id, rfl⟩, h⟩ := h
      exact (fresh_classAttribute p className pos id right).append (ih h p)
    · have hother : ∀ left right, s = .assign left right → False :=
        fun left right heq => hassign ⟨left, right, heq⟩
      rw [MembersAccepted] at h
      · rw [memberSpans]
        · exact (s.fresh_spans p).append (ih h.2 _)
        · exact hother
      · exact hother

example : (blockSpans (.start none) []).length = 0 := by decide +kernel

end Fresh

/-! ## Blocks and functions -/

section Statements

variable {A : Prop}

open Spans (MadeOf)

/-- The copies of a block inside a function. -/
theorem copiesOf_blockParts (f : Enclosing) (p : Place) (body : List Stmt) :
    copiesOf (blockParts p [[f]] body) = (copiesOf (blockParts p [[]] body)).map (·.within f) := by
  induction body generalizing p with
  | nil => rfl
  | cons s rest ih =>
    rw [blockParts, copiesOf_cons, ih]
    rfl

/-- Run: a block is made of its statements, if each of them is. -/
theorem made_block {copies : List (List Enclosing)} {body : List Stmt}
    (h : ∀ c ∈ blockParts p copies body, c.Laid) :
    MadeOf A .statement (blockSpans p body) ⟨copiesOf (blockParts p [[]] body), [],
    blockSpots p body⟩ := by
  induction body generalizing p with
  | nil =>
    exact .nil
  | cons s rest ih =>
    rw [blockParts, List.forall_mem_cons] at h
    have hstatement : MadeOf A .statement (s.spans p) _ := .hole (.inr rfl) h.1
    exact hstatement.below (ih h.2) (fresh_block _ rest)

/-- Run: branches are made of their conditions and blocks. -/
theorem made_branches {more : List Branch} (h : ∀ c ∈ branchParts p more, c.Laid) :
    MadeOf A .statement (branchSpans p more) ⟨copiesOf (branchParts p more), [],
    branchSpots p more⟩ := by
  fun_induction branchParts p more with
  | case1 =>
    exact .nil
  | case2 p condition body rest ih =>
    rw [List.cons_append, List.forall_mem_cons, List.forall_mem_append] at h
    obtain ⟨hcondition, hbody, hrest⟩ := h
    rw [branchSpots]
    have hhead :=
      ((hcondition.made (A := A) (l := .statement)).between (t := "\x7d else if (") (u := ") \x7b")
        (by decide)
      (by decide)).line p.depth
    refine ((hhead.below (made_block hbody) (fresh_block _ body)).below (ih hrest)
      (fresh_branches _ rest)).congr ?_
    simp [Expr.hole_eq]

theorem made_otherwise {otherwise : Option (List Stmt)}
    (h : ∀ c ∈ otherwiseParts p otherwise, c.Laid) :
    MadeOf A .statement (otherwiseSpans p otherwise)
      ⟨copiesOf (otherwiseParts p otherwise), [], otherwiseSpots p otherwise⟩ := by
  cases otherwise with
  | none =>
    exact .nil
  | some body =>
    exact (MadeOf.textLine p.depth (by decide)).below (made_block h) (fresh_block _ body)

namespace WrittenFunction

variable (f : WrittenFunction)

/-- What is copied into a function. -/
def copies : List Copy :=
  copiesOf ((defaultValues f.parameters).map (·.part f.outside) ++ blockParts f.inside [[]] f.body)

theorem copiesOf_parts : copiesOf f.parts = f.copies.map (·.within f.enclosing) := by
  rw [parts, copies, copiesOf_append, copiesOf_append, copiesOf_append, copiesOf_blockParts,
    copiesOf_map_partIn,
    copiesOf_map_unwritten]
  simp [Copy.within]

/-- Step: the lines of a function are made of its defaults and its body. -/
theorem made_inner (h : ∀ c ∈ f.parts, c.Laid) :
    MadeOf A .statement f.inner ⟨f.copies, [], (formalSpots f.outside f.parameters).flatten ++
      (blockSpots f.inside f.body ++ literalSpots f.closer)⟩ := by
  rw [parts, List.forall_mem_append, List.forall_mem_append, List.forall_mem_map,
    List.forall_mem_map] at h
  obtain ⟨-, hdefaults, hbody⟩ := h
  have hlines :
      MadeOf A .statement
      ((formalSpans f.outside f.parameters).flatMap (Spans.defaultLine (f.depth + 1)))
      (.flatten (formalContents f.outside f.parameters)) := by
    refine .flatten ?_
      (.inr (List.forall_mem_map.mpr fun formal _ => Spans.fresh_defaultLine _ formal))
    rw [List.forall₂_map_left_iff]
    exact (made_formals hdefaults).imp fun _ _ h => .defaultLine _ h
  have hlines :=
    (((hlines.below (.receiverLine (f.depth + 1) f.receiver) (Spans.fresh_receiverLine _ _)).below
    (made_block hbody) (fresh_block _ f.body)).below
      ((MadeOf.singleLiteral f.closer).margin f.depth)
      (.margin _ _)).text (t := "\n") (by decide)
  refine ((MadeOf.signature _).separated (by decide) hlines).congr ?_
  rw [flatten_formalContents]
  simp [Contents.ofSpots, copies]

/-- The head of a function stands in its header. -/
theorem made_spans (role : Role) {isAsync : Bool} {name : String} {parameters : List Parameter}
    {head : Spans}
    {ds : List Spot} (hhead : MadeOf A .statement head (.ofSpots ds))
    (hbefore : headText? (head.foldl Span.lineBehind []) =
    some (role.head isAsync name (declaredNames parameters)))
    (hnames : role.written (declaredNames parameters) (declaredNames parameters) =
    declaredNames f.parameters)
    (hspots : role.written (declaredNames parameters) (formalSpots f.outside parameters) =
      formalSpots f.outside f.parameters)
    (hcloser : f.closer ≠ Script.awaitMark) (h : ∀ c ∈ f.parts, c.Laid) :
    MadeOf A .statement (f.spans head)
    ⟨copiesOf f.parts, [], ds ++ [definitionSpot role isAsync name
      (declaredNames parameters) (formalSpots f.outside parameters)
      (blockSpots f.inside f.body)]⟩ := by
  rw [definitionSpot, Role.header, hnames, hspots, spans_eq, copiesOf_parts]
  have hinner := f.made_inner (A := A) h
  rw [literalSpots, if_neg hcloser, List.append_nil] at hinner
  have hfunction :=
    MadeOf.function (f := f.enclosing) (w := .definition isAsync (role.head isAsync name
    (declaredNames parameters) ++
      (Script.parens (Script.commas ((formalSpans f.outside f.parameters).map (·.name))) ++
      " \x7b"))) (.block _ _ _ _) (hhead.margin f.depth) (fun hl => absurd rfl hl)
    (fun line => Spans.opening_block hbefore (Spans.blockHead?_signature _ _)) hinner
    (MadeOf.nil.text (t := "\n") (by decide))
  rwa [names_formalSpans] at hfunction

theorem free_parts_spots (role : Role) (hrole : role = .free ∨ role = .named) (depth : Nat)
    (p : Place)
    (parameters : List Parameter) (body : List Stmt) :
    role.written (declaredNames parameters) (declaredNames parameters) =
        declaredNames (free depth p parameters body).parameters ∧
      role.written (declaredNames parameters) (formalSpots p parameters) =
        formalSpots p (free depth p parameters body).parameters := by
  have hwritten : ∀ {α : Type} (xs : List α), role.written (declaredNames parameters) xs =
      if Parameter.startsWithSelf parameters then xs.tail else xs := by
    rcases hrole with rfl | rfl <;> simp [Role.written, Parameter.startsWithSelf]
  rw [hwritten, hwritten, free]
  split_ifs
  · exact ⟨tail_declaredNames parameters, tail_formalSpots p parameters⟩
  · exact ⟨rfl, rfl⟩

theorem free_place (depth : Nat) (p : Place) (parameters : List Parameter) (body : List Stmt) :
    (free depth p parameters body).outside = p ∧ (free depth p parameters body).closer = "\x7d" ∧
      (free depth p parameters body).inside = p.inFunction
      (withoutSelf (declaredNames parameters)) ∧
        (free depth p parameters body).body = body := by
  unfold free
  split_ifs <;> exact ⟨rfl, rfl, rfl, rfl⟩

end WrittenFunction

section Definitions

variable {depth : Nat} {isAsync : Bool} {name : String} {parameters : List Parameter}
  {body : List Stmt}

theorem made_prototypeHead (isAsync : Bool) (className name : String) :
    MadeOf A .statement (Spans.prototypeHead isAsync className name) (.ofSpots []) :=
  MadeOf.nil.text (ne_awaitMark_of_end (by decide) _)

theorem made_free (role : Role) (hrole : role = .free ∨ role = .named) {head : Spans}
    (hhead : MadeOf A .statement head .empty)
    (hbefore : headText? (head.foldl Span.lineBehind []) =
    some (role.head isAsync name (declaredNames parameters)))
    (h : ∀ c ∈ (WrittenFunction.free depth p parameters body).parts, c.Laid) :
    MadeOf A .statement ((WrittenFunction.free depth p parameters body).spans head)
      ⟨copiesOf (WrittenFunction.free depth p parameters body).parts, [], [definitionSpot role
      isAsync name
        (declaredNames parameters) (formalSpots p parameters)
        (blockSpots (p.inFunction (withoutSelf (declaredNames parameters))) body)]⟩ := by
  obtain ⟨hnames, hspots⟩ := WrittenFunction.free_parts_spots role hrole depth p parameters body
  obtain ⟨houtside, hcloser, hinside, hbody⟩ := WrittenFunction.free_place depth p parameters body
  have hfunction :=
    (WrittenFunction.free depth p parameters body).made_spans role hhead hbefore hnames
    (houtside.symm ▸ hspots) (by rw [hcloser]; decide) h
  rwa [houtside, hinside, hbody] at hfunction

theorem made_method {closer : String} (hcloser : closer ≠ Script.awaitMark) (role : Role)
    (hrole : ∀ {α : Type} (names : List String) (xs : List α), role.written names xs = xs.tail)
    {head : Spans}
    {ds : List Spot} (hhead : MadeOf A .statement head (.ofSpots ds))
    (hbefore : headText? (head.foldl Span.lineBehind []) =
    some (role.head isAsync name (declaredNames parameters)))
    (h : ∀ c ∈ (WrittenFunction.method closer p parameters body).parts, c.Laid) :
    MadeOf A .statement ((WrittenFunction.method closer p parameters body).spans head)
      ⟨copiesOf (WrittenFunction.method closer p parameters body).parts, [],
      ds ++ [definitionSpot role isAsync name
        (declaredNames parameters) (formalSpots p parameters)
        (blockSpots (p.inFunction (receiverLast (declaredNames parameters))) body)]⟩ :=
  (WrittenFunction.method closer p parameters body).made_spans role hhead hbefore
    ((hrole _ _).trans (tail_declaredNames parameters))
    ((hrole _ _).trans (tail_formalSpots p parameters)) hcloser h

/-- The name of a function outside of classes stands behind what is written before it. -/
theorem made_plainHead (p : Place) (isAsync : Bool) (name : String) (parameters : List Parameter) :
    MadeOf A .statement (if Spans.startsWithSelf (formalSpans p parameters) then
      [.text (Lowering.asyncMark isAsync), .introduction ⟨.function, name⟩] else Spans.functionHead
        isAsync name) .empty ∧
    headText? ((if Spans.startsWithSelf (formalSpans p parameters) then
      [.text (Lowering.asyncMark isAsync), .introduction ⟨.function, name⟩] else
        Spans.functionHead isAsync name).foldl Span.lineBehind []) =
      some (Role.free.head isAsync name (declaredNames parameters)) := by
  rw [startsWithSelf_formalSpans, Parameter.startsWithSelf]
  simp only [decide_eq_true_eq, Role.head]
  split_ifs
  · exact ⟨(MadeOf.nil.introduction (by decide) _).text (Spans.asyncMark_ne_awaitMark isAsync),
      Spans.headText?_named _ name⟩
  · exact ⟨(MadeOf.nil.introduction (by decide) _).text (ne_awaitMark_of_end (by decide) _),
      Spans.headText?_named _ name⟩

end Definitions

/-- Step: a definition is made of the function that it is written as. -/
theorem made_definition {decorators : List Decorator} {d : FunctionDef}
    (h : ∀ c ∈ (Stmt.function decorators d).components p, c.Laid) :
    MadeOf A .statement ((Stmt.function decorators d).spans p)
      ⟨copiesOf ((Stmt.function decorators d).components p), [],
      (Stmt.function decorators d).spots p⟩ := by
  obtain ⟨pos, isAsync, namePos, name, parameters, body⟩ := d
  rw [Stmt.components, FunctionDef.written?] at h
  rw [Stmt.components, FunctionDef.written?, Stmt.spans, Stmt.spots]
  cases hclass : p.className with
  | none =>
    simp only [hclass] at h
    obtain ⟨hhead, hbefore⟩ := made_plainHead (A := A) (p.register name) isAsync name parameters
    have hfunction := made_free .free (.inl rfl) hhead hbefore h
    rw [WrittenFunction.free_spans] at hfunction
    exact hfunction
  | some className =>
    simp only [hclass] at h
    have hmethod : (∀ c ∈ (WrittenFunction.method "\x7d;" p parameters body).parts, c.Laid) →
        MadeOf A .statement
        (Spans.instanceMethod p.depth className isAsync name (formalSpans p parameters)
          (blockSpans (p.inFunction (receiverLast (declaredNames parameters))) body))
        ⟨copiesOf (WrittenFunction.method "\x7d;" p parameters body).parts, [], [definitionSpot
        (.method className) isAsync
          name (declaredNames parameters) (formalSpots p parameters)
          (blockSpots (p.inFunction (receiverLast (declaredNames parameters))) body)]⟩ := by
      intro h
      have hfunction := made_method (A := A) (by decide) (.method className) (fun _ _ => rfl)
        (made_prototypeHead isAsync className name) (Spans.headText?_text _) h
      rw [Spans.instanceMethod, splitReceiver_formalSpans]
      refine (((hfunction.below (.textLine p.depth (ne_awaitMark_of_end (by decide) _))
        (.textLine _ _)).below
        (.textLine (p.depth + 1) (ne_awaitMark_of_end (by decide) _)) (.textLine _ _)).below
          (.textLine p.depth (by decide)) (.textLine _ _)).congr ?_
      simp
    cases hform : Lowering.methodForm decorators with
    | error d =>
      simp only [hform] at h
      exact hmethod h
    | ok form =>
      cases form with
      | native => exact .nil
      | static =>
        simp only [hform] at h
        have hfunction :=
          (WrittenFunction.static p parameters body).made_spans (A := A) (.static className)
          (made_prototypeHead isAsync className name) (Spans.headText?_text _) rfl rfl
            (show "\x7d;" ≠ Script.awaitMark by decide) h
        refine (hfunction.below (.textLine p.depth (ne_awaitMark_of_end (by decide) _))
          (.textLine _ _)).congr ?_
        simp
        rfl
      | ordinary =>
        simp only [hform] at h
        exact hmethod h

/-- Run: native methods are made of their functions. -/
theorem made_natives {body : List Stmt} (h : ∀ f ∈ nativeFunctions p body, ∀ c ∈ f.parts, c.Laid) :
    MadeOf A .statement (nativeSpans p body)
      ⟨copiesOf ((nativeFunctions p body).flatMap (·.parts)), [], nativeSpots p body⟩ := by
  fun_induction nativeFunctions p body with
  | case1 =>
    exact .nil
  | case2 p decorators pos isAsync namePos name parameters body rest hnative ih =>
    obtain ⟨hmethod, hrest⟩ := List.forall_mem_cons.mp h
    rw [nativeSpans, nativeSpots, if_pos hnative, if_pos hnative, Spans.nativeMethod,
      splitReceiver_formalSpans]
    have hfunction := made_method (A := A) (by decide) .native (fun _ _ => rfl)
      (.singleLiteral (Lowering.asyncMark isAsync ++ name)) (Spans.headText?_text _) hmethod
    refine (hfunction.below (ih hrest) (fresh_natives _ rest)).congr ?_
    simp
  | case3 p decorators pos isAsync namePos name parameters body rest hnative ih =>
    rw [nativeSpans, nativeSpots, if_neg hnative, if_neg hnative]
    exact ih h
  | case4 p s rest hother ih =>
    rw [nativeSpans, nativeSpots]
    · exact ih h
    · exact hother
    · exact hother

example : (nativeFunctions (.start none) []).length = 0 := by decide +kernel

theorem made_classAttribute (className : String) (target : Target) {e : Expr} (h : e.Laid p) :
    MadeOf A .statement (p.classAttribute className target (.value e)) (e.hole p) := by
  cases target with
  | name pos id =>
    have hown : className ++ "." ++ id ++ " = " ≠ Script.awaitMark :=
      ne_awaitMark_of_end (by decide) _
    have hshared : className ++ ".prototype." ++ id ++ " = " ++ className ++ "." ++ id ++ ";" ≠
        Script.awaitMark :=
      ne_awaitMark_of_end (by decide) _
    have hline :=
      (((h.made (A := A) (l := .statement)).text hown).before (t := ";") (by decide)).line p.depth
    exact (hline.below (.textLine p.depth hshared) (.textLine _ _)).congr (Contents.append_empty _)
  | member | subscript | foreign => exact h.made

/-- Run: members of a class are made of attributes and methods. -/
theorem made_members (className : String) {body : List Stmt} (h : ∀ c ∈ memberParts p body, c.Laid)
    (haccepted : A → MembersAccepted body) :
    MadeOf A .statement (memberSpans p className body) ⟨copiesOf (memberParts p body), [],
    memberSpots p body⟩ := by
  fun_induction memberParts p body with
  | case1 =>
    exact .nil
  | case2 p target e rest ih =>
    obtain ⟨hvalue, hrest⟩ := List.forall_mem_cons.mp h
    exact (made_classAttribute className target hvalue).append (ih hrest fun hA => (haccepted hA).2)
      fun hA => .fresh (fresh_members (haccepted hA).2 p className)
  | case3 p target right rest hother ih =>
    have hnothing : p.classAttribute className target right = [] ∧ right.attributeSpots p = [] := by
      cases right with
      | value e => exact absurd rfl (hother e)
      | nothing | chained => cases target <;> exact ⟨rfl, rfl⟩
    rw [memberSpans, memberSpots, hnothing.1, hnothing.2]
    exact ih h fun hA => (haccepted hA).2
  | case4 p s rest hattribute hother ih =>
    have hrest : A → MembersAccepted rest := by
      intro hA
      have h := haccepted hA
      rw [MembersAccepted] at h
      · exact h.2
      · exact hother
    obtain ⟨hs, hlaid⟩ := List.forall_mem_cons.mp h
    have hstatement : MadeOf A .statement (s.spans p) _ := .hole (.inr rfl) hs
    rw [memberSpans, memberSpots]
    · exact hstatement.append (ih hlaid hrest) fun hA =>
        .fresh (fresh_members (hrest hA) _ className)
    · exact hother
    · exact hother

example : (memberParts (.start none) []).length = 0 := by decide +kernel

/-! ## Statements -/

theorem Target.made_spans {copies : List (List Enclosing)} {target : Target}
    (h : ∀ c ∈ target.parts p copies, c.Laid) :
    MadeOf A .statement (target.spans p) ⟨copiesOf (target.parts p [[]]), [], target.spots p⟩ := by
  cases target with
  | name pos id => exact MadeOf.nil.introduction (by decide) _
  | member object key => exact (List.forall_mem_singleton.mp h).made.dotted key
  | subscript value indices => exact (List.forall_mem_singleton.mp h).made
  | foreign pos kind => exact .nil

theorem made_assigning {copies : List (List Enclosing)} {target : Target}
    (h : ∀ c ∈ target.parts p copies, c.Laid) :
    MadeOf A .statement (p.assigning target) ⟨copiesOf (target.parts p [[]]), [],
    target.spots p⟩ := by
  cases target with
  | name pos id =>
    rw [Place.assigning, Place.declaring]
    split_ifs
    · exact MadeOf.nil.introduction (by decide) _
    · exact (MadeOf.nil.introduction (by decide) _).text (by decide)
  | member | subscript | foreign => exact Target.made_spans h

/-- Step: an assignment is made of its target and its value. -/
theorem made_assign {left : Target} {right : Assigned}
    (h : ∀ c ∈ (Stmt.assign left right).components p, c.Laid) :
    MadeOf A .statement (p.assign left right)
      ⟨copiesOf ((Stmt.assign left right).components p), [], right.spots p left⟩ := by
  cases right with
  | value right =>
    rw [Stmt.components, List.forall_mem_append, List.forall_mem_singleton] at h
    rw [Stmt.components, copiesOf_append]
    exact (((made_assigning h.1).separated (by decide) h.2.made).before (by decide)).line p.depth
  | nothing | chained =>
    rw [Stmt.components]
    · cases left with
      | name pos id =>
        rw [Place.assign]
        split_ifs
        · exact .nil
        · exact (((MadeOf.nil.text (by decide)).introduction (by decide) _).text
            (by decide)).line p.depth
      | member | subscript | foreign => exact .nil
    · simp

/-- Step: an update is made of the copies of its target and of its value. -/
theorem made_augment {left : Target} {op : BinaryOp} {right : Expr}
    (h : ∀ c ∈ (Stmt.augment left op right).components p, c.Laid) :
    MadeOf A .statement (p.augment left op right)
      ⟨copiesOf ((Stmt.augment left op right).components p), [], augmentSpots p left op right⟩ := by
  rw [Stmt.components, List.forall_mem_append, List.forall_mem_singleton] at h
  have hleft := Target.made_spans (A := A) h.1
  have hright := h.2.made (A := A) (l := .statement)
  rw [Stmt.components, copiesOf_append]
  unfold Place.augment augmentSpots
  cases op.symbol? with
  | some symbol =>
    refine ((hleft.separated ?_ hright).before (by decide)).line p.depth
    rw [String.append_assoc]
    exact Spans.isPlain_spaced _
  | none =>
    have htwice : copiesOf (left.parts p [[], []]) = copiesOf (left.parts p [[]]) ++
        copiesOf (left.parts p [[]]) := by
      cases left <;> rfl
    show MadeOf A .statement _ ⟨copiesOf (left.parts p [[], []]) ++ copiesOf [right.part p], [],
      left.spots p ++ left.spots p ++ right.spots p⟩
    rw [htwice]
    dsimp only
    split
    · exact (((hleft.separated (by decide) hleft).separated (by decide) hright).before
        (by decide)).line p.depth
    · exact (((hleft.separated (by decide) hleft).separated (by decide)
        (hright.grouped right.kind)).before
        (by decide)).line p.depth

/-- The draft of a statement has its components. -/
theorem Stmt.made_of_laid {s : Stmt} (h : ∀ c ∈ s.components p, c.Laid)
    (haccepted : A → ∃ inClass, s.Accepted inClass) :
    (s.spans p).MadeOf A .statement ⟨copiesOf (s.components p), [], s.spots p⟩ := by
  cases s with
  | evaluate pos items =>
    rw [Stmt.spots]
    by_cases hsingle : ∃ e, items = [e]
    · obtain ⟨e, rfl⟩ := hsingle
      rw [Stmt.components] at h
      rw [Stmt.components, Stmt.spans, itemSpots, itemSpots, List.flatten_singleton]
      exact ((List.forall_mem_singleton.mp h).made.before (by decide)).line p.depth
    · have hsingle : ∀ e, items ≠ [e] := fun e h => hsingle ⟨e, h⟩
      rw [Stmt.components] at h
      · rw [Stmt.components, Stmt.spans, itemSpots_eq]
        · simp only [List.forall_mem_map] at h
          refine (((MadeOf.commas (made_items h)).brackets.before (by decide)).line p.depth).congr
            ?_
          rw [flatten_map_hole, copiesOf_map_part]
          simp [List.flatMap_def, Function.comp_def]
        · exact hsingle
        · exact hsingle
      · exact hsingle
  | assign left right =>
    rw [Stmt.spans, Stmt.spots]
    exact made_assign h
  | augment left op right =>
    rw [Stmt.spans, Stmt.spots]
    exact made_augment h
  | returns pos value =>
    cases value with
    | none =>
      rw [Stmt.spans, Stmt.spots, optionalSpots]
      exact .textLine p.depth (by decide)
    | some e =>
      rw [Stmt.components] at h
      rw [Stmt.components, Stmt.spans, Stmt.spots, optionalSpots]
      exact ((List.forall_mem_singleton.mp h).made.between (by decide) (by decide)).line p.depth
  | raises pos value cause =>
    cases value with
    | none =>
      rw [Stmt.spans, Stmt.spots, optionalSpots]
      exact .nil
    | some e =>
      rw [Stmt.components] at h
      rw [Stmt.components, Stmt.spans, Stmt.spots, optionalSpots]
      exact ((List.forall_mem_singleton.mp h).made.between (by decide) (by decide)).line p.depth
  | asserts pos values | prints pos redirection values =>
    rw [Stmt.components, List.forall_mem_map] at h
    rw [Stmt.components, Stmt.spans, Stmt.spots]
    refine (((MadeOf.commas (made_values h)).between (by decide) (by decide)).line p.depth).congr ?_
    simp [List.flatMap_def]
  | branch pos condition body more otherwise =>
    rw [Stmt.components, List.forall_mem_cons, List.forall_mem_append, List.forall_mem_append] at h
    obtain ⟨hcondition, hbody, hmore, hotherwise⟩ := h
    rw [Stmt.components, Stmt.spans, Stmt.spots]
    have hhead :=
      ((hcondition.made (A := A) (l := .statement)).between (t := "if (") (u := ") \x7b")
        (by decide)
      (by decide)).line p.depth
    refine ((((hhead.below (made_block hbody) (fresh_block _ body)).below (made_branches hmore)
      (fresh_branches _ more)).below (made_otherwise hotherwise)
      (fresh_otherwise _ otherwise)).below
        (.textLine p.depth (by decide)) (.textLine _ _)).congr ?_
    simp [Expr.hole_eq]
  | forLoop pos isAsync left iterable body otherwise =>
    rw [Stmt.components, List.forall_mem_append, List.forall_mem_cons] at h
    obtain ⟨hleft, hiterable, hbody⟩ := h
    rw [Stmt.components, Stmt.spans, Stmt.spots]
    have hhead :=
      ((((made_assigning (A := A) hleft).text (t := "for (") (by decide)).separated (t := " of ")
        (by decide)
      hiterable.made).before (t := ") \x7b") (by decide)).line p.depth
    refine ((hhead.below (made_block hbody) (fresh_block _ body)).below
      (.textLine p.depth (by decide))
      (.textLine _ _)).congr ?_
    simp [Expr.hole_eq]
  | whileLoop pos condition body otherwise =>
    cases otherwise with
    | none =>
      rw [Stmt.components, List.forall_mem_cons] at h
      rw [Stmt.components, Stmt.spans, Stmt.spots]
      have hhead :=
        ((h.1.made (A := A) (l := .statement)).between (t := "while (") (u := ") \x7b") (by decide)
        (by decide)).line p.depth
      refine ((hhead.below (made_block h.2) (fresh_block _ body)).below
        (.textLine p.depth (by decide))
        (.textLine _ _)).congr ?_
      simp [Expr.hole_eq]
    | some otherwise =>
      rw [Stmt.components, List.forall_mem_cons, List.forall_mem_append] at h
      obtain ⟨hcondition, hbody, hotherwise⟩ := h
      rw [Stmt.components, Stmt.spots]
      refine (MadeOf.whileElse _ _ hcondition.made (made_block hbody) (made_block hotherwise)
        (fresh_block _ body)
        (fresh_block _ otherwise)).congr ?_
      simp [Expr.hole_eq]
  | function decorators d => exact made_definition h
  | classDef decorators d =>
    obtain ⟨pos, namePos, name, bases, body⟩ := d
    rw [Stmt.components, List.forall_mem_append, List.forall_mem_flatMap] at h
    rw [Stmt.components, Stmt.spots]
    have hmembers : A → MembersAccepted body := by
      intro hA
      obtain ⟨inClass, haccepted⟩ := haccepted hA
      exact haccepted.2
    have hclass :=
      ((MadeOf.classHead (A := A) p.depth name bases (body.any Lowering.isInitialiser)).below
        (made_natives h.1)
      (fresh_natives _ body)).below (.textLine p.depth (t := "\x7d") (by decide)) (.textLine _ _)
    refine (hclass.append (made_members name h.2 hmembers) fun hA =>
      .fresh (fresh_members (hmembers hA) _ name)).congr ?_
    simp
  | pass | breaks | continues | outer | foreign =>
    first
      | exact .nil
      | exact .textLine p.depth (by decide)

example : ((Stmt.pass .first).components (.start none)).length = 0 := by decide +kernel

/-! ## Phrases and programs -/

namespace Phrase

def contents (p : Place) (x : Phrase) :
    Contents := ⟨copiesOf (x.components p), x.called p, x.spots p⟩

theorem made_of_laid {x : Phrase} (h : ∀ c ∈ x.components p, c.Laid)
    (haccepted : A → ∀ s, x = .statement s → ∃ inClass, s.Accepted inClass) :
    (x.spans p).MadeOf A x.layer (x.contents p) := by
  cases x with
  | statement s => exact Stmt.made_of_laid h fun hA => haccepted hA s rfl
  | expression e => exact Expr.made_of_laid h

theorem laid (p : Place) (x : Phrase) (copies : List (List Enclosing)) :
    (Part.mk x p copies).Laid := by
  induction hn : sizeOf x using Nat.strongRecOn generalizing x p copies with
  | _ n ih =>
    subst hn
    have hmade : (x.spans p).MadeOf False x.layer (x.contents p) :=
      made_of_laid (fun c hc => ih _ (sizeOf_component hc) c.place c.phrase c.copies rfl) False.elim
    refine .hole ?_ hmade
    cases x with
    | statement s => exact .inr rfl
    | expression e => exact .inl rfl

/-- What the draft of a phrase consists of. Calls are told apart in a statement that is accepted. -/
theorem made (p : Place) (x : Phrase)
    (haccepted : A → ∀ s, x = .statement s → ∃ inClass, s.Accepted inClass) :
    (x.spans p).MadeOf A x.layer (x.contents p) :=
  made_of_laid (fun c _ => c.phrase.laid c.place c.copies) haccepted

end Phrase

theorem Expr.made {l : Layer} (p : Place) (e : Expr) :
    (e.draft p).spans.MadeOf A l (e.contents p) :=
  made_of_laid fun c _ => c.phrase.laid c.place c.copies

/-- What the draft of a program consists of. -/
theorem made_program (binding : Option Binding) (statements : List Stmt) (entry : EntryPoint) :
    (programSpans binding statements entry).MadeOf A .statement
      ⟨copiesOf (programComponents binding statements entry), [],
      programSpots binding statements entry⟩ := by
  have hlaid : ∀ c : Part, c.Laid := fun c => c.phrase.laid c.place c.copies
  have hblock : ∀ (p : Place) (body : List Stmt), MadeOf A .statement (blockSpans p body)
      ⟨copiesOf (blockParts p [[]] body), [], blockSpots p body⟩ :=
    fun p body => made_block (fun c (_ : c ∈ blockParts p [[]] body) => hlaid c)
  cases entry with
  | module => exact hblock _ statements
  | body =>
    rw [programComponents, programSpans, programSpots]
    cases firstFunction? statements with
    | none => exact .nil
    | some d =>
      rw [copiesOf_append, copiesOf_map_unwritten]
      exact hblock _ d.body
  | callable name =>
    rw [programComponents, programSpans, programSpots]
    cases firstFunction? statements with
    | none => exact .nil
    | some d =>
      have hhead : MadeOf A .statement (Spans.functionHead d.isAsync name) .empty :=
        (MadeOf.nil.introduction (by decide) _).text (ne_awaitMark_of_end (by decide) _)
      dsimp only
      rw [Spans.namedFunction, ← WrittenFunction.free_spans]
      exact made_free .named (.inr rfl) hhead (Spans.headText?_named _ name) fun c _ => hlaid c

end Statements

end ScriptCompiler
