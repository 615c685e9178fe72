import ScriptCompiler.Proofs.Contents

/-!
# Contents of expressions

The draft of an expression is put together from copies of its components, the call that it is, if it
is one, and the spots that belong to it. This is shown for every form of expression, given that the
landmarks of its components come from their spots.
-/

namespace ScriptCompiler

/-! ## Forms of drafts -/

namespace Spans.MadeOf

variable {A : Prop} {l : Layer} {xs ys : Spans} {c d : Contents} {xss yss : List Spans}
  {cs ds : List Contents}

theorem sliceArguments {lower upper step : Option Spans} {b : Contents}
    (hlower : MadeOf A l (lower.getD []) b)
    (hupper : MadeOf A l (upper.getD []) c) (hstep : MadeOf A l (step.getD []) d) :
    MadeOf A l (sliceArguments lower upper step) (b ++ c ++ d) := by
  have hnull : ∀ {bound : Option Spans} {b : Contents},
      MadeOf A l (bound.getD []) b → MadeOf A l (bound.getD [.text "null"]) b := by
    intro bound b h
    cases bound with
    | none => exact h.text (by decide)
    | some bound => exact h
  cases step with
  | some step =>
    have hall := ((hnull hlower).separated (t := ", ") (by decide) (hnull hupper)).separated
        (t := ", ") (by decide) hstep
    cases lower <;> cases upper <;> exact hall
  | none =>
    have hbounds := fun {xs : Spans} (h : MadeOf A l xs (b ++ c)) => h.append hstep fun _ =>
      .fresh .nil
    simp only [Option.getD_none, List.append_nil] at hbounds
    cases lower with
    | none =>
      cases upper with
      | none => exact hbounds ((hlower.append hupper fun _ => .settled .nil).text (by decide))
      | some upper => exact hbounds (hlower.append hupper fun _ => .settled .nil)
    | some lower =>
      cases upper with
      | none => exact hbounds (hlower.append (hupper.text (by decide)) fun _ => .text (by decide))
      | some upper => exact hbounds (hlower.separated (by decide) hupper)

theorem slice (hbase : MadeOf A l xs c) (h : MadeOf A l ys d) : MadeOf A l (slice xs ys) (c ++ d) :=
  (hbase.separated (by decide) h).before (by decide)

/-- A call is one of what its function ends with. -/
theorem call (h : MadeOf A l xs c) (hpositional : List.Forall₂ (MadeOf A l) xss cs)
    (hkeywords : List.Forall₂ (MadeOf A l) yss ds) :
    MadeOf A l (call xs xss yss)
    (c ++ (⟨[], (Pending.idle.after xs).callee, []⟩ ++ (.flatten cs ++ .flatten ds))) := by
  unfold Spans.call
  cases hkeywords with
  | nil =>
    have hcall := h.applied ((commas hpositional).before (t := ")") (by decide)) (.inl rfl)
    simpa [Spans.parens] using hcall
  | cons hfirst hrest =>
    have hrecord := (commas (.cons hfirst hrest)).braces
    have harguments := ((commas hpositional).before (t := "]") (by decide)).separated (t := ", ")
        (by decide)
      (hrecord.before (t := ")") (by decide))
    have hcall := h.applied harguments (.inr rfl)
    simpa [Spans.brackets] using hcall

/-- The function that counts for a range. -/
theorem counting {t : String} (ht : t ≠ Script.awaitMark) (hasync : (Span.text t).endsAsync = false)
    (hstart : MadeOf A .function xs c) (htail : MadeOf A .function ys d)
    (hapart : A → Apart xs ys) :
    MadeOf A l [.text t, counting xs ys, .text ")"]
    ⟨(c ++ d).copies.map (·.within (.counter xs ys)), (c ++ d).called,
      [.function .counter [] (c ++ d).spots]⟩ := by
  have hinner :=
    ((((hstart.append htail hapart).text (t := ") => ") (by decide)).introduction (by decide)
    ⟨.synthesized, "i"⟩).text (t := ", ") (by decide)).introduction (by decide)
      ⟨.synthesized, "_"⟩ |>.text (t := "(")
    (by decide)
  exact function (f := .counter xs ys) (.counter [.text t] _ _ [.text ")"]) (nil.text ht)
    (fun _ => ⟨by decide, by rw [Spot.headings]⟩)
    (fun line => opening_expression rfl _ hasync rfl) hinner
    (nil.text (by decide))

theorem format (kind : NodeKind) (h : MadeOf A l xs c) (h' : MadeOf A l ys d) :
    MadeOf A l (format kind xs ys) (c ++ d) := by
  refine (h.separated (by decide) h').parens.text ?_
  split <;> decide

theorem binary (op : BinaryOp) (leftKind rightKind : NodeKind) (h : MadeOf A l xs c)
    (h' : MadeOf A l ys d) : MadeOf A l (binary op leftKind xs rightKind ys) (c ++ d) := by
  unfold Spans.binary
  split
  · refine (h.separated ?_ h').parens
    rw [String.append_assoc]
    exact isPlain_spaced _
  · split
    · exact (h.separated (by decide) h').parens.text (by decide)
    · exact ((h.grouped leftKind).separated (by decide) (h'.grouped rightKind)).parens.text
        (by decide)

/-- A test for membership is written with its operands exchanged. -/
theorem comparison (op : CompareOp) (rightKind : NodeKind) (h : MadeOf A l xs c)
    (h' : MadeOf A l ys d) :
    MadeOf A l (comparison op xs rightKind ys) (if op.symbol?.isSome then c ++ d else d ++ c) := by
  unfold Spans.comparison
  cases op.symbol? with
  | some symbol =>
    refine h.separated ?_ h'
    rw [String.append_assoc]
    exact isPlain_spaced _
  | none =>
    have htest : MadeOf A l (Spans.receiver rightKind ys ++ .text ".includes" :: Spans.parens xs)
        (d ++ c) :=
      (h'.receiver rightKind).separated (by decide) h.parens
    show MadeOf A l _ (d ++ c)
    split_ifs
    · exact htest
    · exact htest.parens.text (by decide)

theorem generator (openings : List Spans) (hopenings : MadeOf A .function openings.flatten c)
    (h : MadeOf A .function xs d) :
    MadeOf A l (generator openings xs) ⟨(c ++ d).copies.map (·.within (.generator openings xs)),
    (c ++ d).called,
      [.function .comprehension [] (c ++ d).spots]⟩ := by
  have hcloser : IsPlain (" " ++ String.join (openings.map fun _ => "\x7d ") ++ "\x7d") := by
    rw [String.append_assoc]
    exact isPlain_spaced _
  have hinner := ((hopenings.separated (t := "yield ") (by decide) h).before hcloser).text
      (t := "function* () \x7b ")
    (by decide)
  exact function (f := .generator openings xs) (.generator [] _ []) (nil.text (by decide))
    (fun _ => ⟨by decide, by rw [Spot.headings]⟩)
    (fun line => opening_expression rfl _ rfl rfl) hinner
    (nil.text (by decide))

theorem collected (form : ComprehensionForm) (h : MadeOf A l xs c) :
    MadeOf A l (collected form xs) c := by
  cases form with
  | list | generator => exact (h.text (by decide)).brackets
  | set => exact (h.text (by decide)).before (by decide)

theorem collection (form : SequenceForm) (h : List.Forall₂ (MadeOf A l) xss cs) :
    MadeOf A l (collection form xss) (.flatten cs) := by
  have hcommas := commas h
  cases form with
  | set => exact (hcommas.text (by decide)).before (by decide)
  | list | tuple | bare => exact hcommas.brackets

end Spans.MadeOf

namespace Spans

def Formal.MadeOf (A : Prop) (formal : Formal) (c : Contents) : Prop :=
  ∀ l, Spans.MadeOf A l (formal.default.getD []) c

namespace MadeOf

variable {A : Prop} {l : Layer} {xs : Spans} {c : Contents} {cs : List Contents}
  {formals : List Formal}

theorem arrowSignature (h : List.Forall₂ (Formal.MadeOf A) formals cs) :
    MadeOf A .function (arrowSignature formals) (.flatten cs) := by
  refine commas ?_
  rw [List.forall₂_map_left_iff]
  refine h.imp fun formal c hformal => ?_
  obtain ⟨name, default⟩ := formal
  cases default with
  | none => exact MadeOf.introduction (by decide) _ (hformal _)
  | some default => exact (MadeOf.text (by decide) (hformal _)).introduction (by decide) _

theorem arrow (depth : Nat) (hformals : List.Forall₂ (Formal.MadeOf A) formals cs)
    (h : MadeOf A .function xs c) :
    MadeOf A l (arrow depth formals xs)
    ⟨(.flatten cs ++ c : Contents).copies.map (·.within (.lambda formals xs)),
      (.flatten cs ++ c : Contents).called, [.function .lambda
      (Contents.flatten cs).spots c.spots]⟩ := by
  have hinner := (arrowSignature hformals).parens.separated (t := " => ") (by decide)
    (h.text (t := "return ") (by decide)).braces
  exact function (f := .lambda formals xs)
    (.arrow [.text "\n", .margin (depth + 1)] _ _ [.text "\n", .margin depth])
    ((nil.margin _).text (by decide)) (fun _ => ⟨by decide, by rw [Spot.headings]⟩)
    (fun line => opening_expression (blockHead?_arrow _ _) _ rfl rfl) hinner
    ((nil.margin _).text (by decide))

end MadeOf

end Spans

/-! ## Calls -/

/-- Whether a special call is rewritten, so that its function is not called. -/
def isRewritten : String → ArgumentValues → Bool
  | "len", ⟨[_], []⟩ | "range", ⟨[_], []⟩ | "range", ⟨[_, _], []⟩ | "range", ⟨[_, _, _], []⟩ => true
  | _, _ => false

example : isRewritten "range" ⟨[], []⟩ = false := by decide +kernel

theorem firstKind?_of_positional {arguments : List Argument} {value : Expr}
    (hkeywords : (argumentValues arguments).keywords.isEmpty = true)
    (hpositional : (argumentValues arguments).positional = [value]) :
    Lowering.firstKind? arguments = some value.kind := by
  cases arguments with
  | nil => simp [argumentValues] at hpositional
  | cons first rest =>
    cases first with
    | positional e =>
      rw [Lowering.firstKind?, (List.cons.inj hpositional).1]
    | keyword => simp [argumentValues] at hkeywords
    | keywordSplat => simp [argumentValues] at hpositional

/-- The function that an expression calls, if it is a call and its function is written as a
mention. -/
def Expr.called (p : Place) : Expr → List Mention
  | .call function arguments =>
    match function.specialFunction? p.binding p.scopes with
    | some special =>
      if isRewritten special
        (argumentValues arguments) then [] else [.value p.binding p.scopes function]
    | none => (Pending.idle.after (function.draft p).spans).callee
  | _ => []

def Phrase.called (p : Place) : Phrase → List Mention
  | .expression e => e.called p
  | .statement _ => []

def Expr.contents (p : Place) (e : Expr) :
    Contents := ⟨copiesOf (e.components p), e.called p, e.spots p⟩

section Expressions

variable {A : Prop} {l : Layer} {p : Place} {e : Expr}

open Spans (MadeOf)

/-- The drafts of arguments, sorted into positional ones and keywords. -/
theorem argumentSpans_eq (p : Place) (arguments : List Argument) :
    argumentSpans p arguments =
      ⟨(argumentValues arguments).positional.map fun e => (e.draft p).spans,
        (argumentValues arguments).keywords.map fun k =>
        .text (k.1 ++ ": ") :: (k.2.draft p).spans⟩ := by
  induction arguments with
  | nil => rw [argumentSpans, argumentValues, List.map_nil, List.map_nil]
  | cons argument rest ih => cases argument <;> simp [argumentSpans, argumentValues, ih]

/-- Only chains of operands are kept apart. -/
theorem Expr.exists_plain_draft (p : Place) (hboolean : ∀ op left right, e ≠ .boolean op left right)
    (hsplat : ∀ pos operand, e ≠ .splat pos operand) : ∃ spans, e.draft p = .plain spans := by
  cases e with
  | boolean op left right => exact absurd rfl (hboolean op left right)
  | splat pos operand => exact absurd rfl (hsplat pos operand)
  | member | dictionary | string | joined | binary =>
    rw [Expr.draft]
    split_ifs <;> exact ⟨_, rfl⟩
  | call =>
    rw [Expr.draft]
    split <;> exact ⟨_, rfl⟩
  | constant pos value => cases value <;> exact ⟨_, by rw [Expr.draft]⟩
  | subscript value indices =>
    cases Index.form indices with
    | item | slice => exact ⟨_, by rw [Expr.draft]⟩
    | other _ hitem hslice => exact ⟨_, Expr.draft_subscript_other p value hitem hslice⟩
  | _ => exact ⟨_, by rw [Expr.draft]⟩

/-- A chain of one operator is flat: its operands are those of both sides. -/
theorem Expr.operands_draft (op : BoolOp) (p : Place) (e : Expr) :
    (e.draft p).operands op = (e.chained op).map fun x => (x.draft p).spans := by
  fun_induction Expr.chained op e with
  | case1 left right ihleft ihright =>
    rw [Expr.draft, List.map_append, ← ihleft, ← ihright]
    simp only [Draft.operands, if_true]
  | case2 op' left right hne =>
    rw [List.map_singleton, Expr.draft]
    simp only [Draft.operands, if_neg hne]
  | case3 pos operand ih => rw [Expr.draft, ih]
  | case4 e hboolean hsplat =>
    obtain ⟨spans, hspans⟩ := Expr.exists_plain_draft p hboolean hsplat
    rw [List.map_singleton, hspans, Draft.operands, Draft.spans]

theorem flatMap_spots_chained (op : BoolOp) (p : Place) (e : Expr) :
    (e.chained op).flatMap (·.spots p) = e.spots p := by
  fun_induction Expr.chained op e with
  | case1 left right ihleft ihright => rw [List.flatMap_append, ihleft, ihright, Expr.spots]
  | case2 op' left right hne => simp
  | case3 pos operand ih => rw [ih, Expr.spots]
  | case4 e hboolean hsplat => simp

example : ((Expr.boolean .and (.name .first "a") (.name .first "b")).chained .and).length = 2 := by
  decide +kernel

theorem optionalSpots_eq (p : Place) (value : Option Expr) :
    optionalSpots p value = value.toList.flatMap (·.spots p) := by
  cases value <;> simp [optionalSpots]

theorem made_optional {value : Option Expr} (h : ∀ e ∈ value.toList, e.Laid p) :
    MadeOf A l ((optionalSpans p value).getD []) (.flatten (value.toList.map (·.hole p))) := by
  cases value with
  | none =>
    exact .nil
  | some e =>
    exact (h e (by simp)).made.congr (by simp)

theorem itemSpans_eq (p : Place) (items : List Expr) :
    itemSpans p items = items.map fun e => e.star ++ (e.unstarred.draft p).spans := by
  induction items with
  | nil => rw [itemSpans, List.map_nil]
  | cons item rest ih => cases item <;> simp [itemSpans, Expr.star, Expr.unstarred, ih]

theorem itemSpots_eq (p : Place) (items : List Expr) :
    itemSpots p items = items.map fun e => e.unstarred.spots p := by
  induction items with
  | nil => rw [itemSpots, List.map_nil]
  | cons item rest ih => cases item <;> simp [itemSpots, Expr.unstarred, Expr.spots, ih]

/-- Run: items are made of their values, starred or not. -/
theorem made_items {items : List Expr} (h : ∀ e ∈ items, e.unstarred.Laid p) :
    List.Forall₂ (MadeOf A l) (itemSpans p items) ((items.map (·.unstarred)).map (·.hole p)) := by
  rw [itemSpans_eq, List.map_map, List.forall₂_map_left_iff, List.forall₂_map_right_iff,
    List.forall₂_same]
  intro e he
  have hmade := (h e he).made (A := A) (l := l)
  cases e with
  | splat pos operand => exact hmade.text (by decide)
  | _ => exact hmade

/-- Run: entries are made of keys and values. -/
theorem made_entries {entries : List Entry} (h : ∀ e ∈ entryValues entries, e.Laid p) :
    ∃ cs, List.Forall₂ (MadeOf A l) (entrySpans p entries) cs ∧ Contents.flatten cs =
      ⟨(entryValues entries).map fun e => ⟨[], (e.draft p).spans⟩, [],
      (entrySpots p entries).flatten⟩ := by
  fun_induction entryValues entries with
  | case1 =>
    exact ⟨[], .nil, rfl⟩
  | case2 key value rest ih =>
    rw [List.forall_mem_cons, List.forall_mem_cons] at h
    obtain ⟨hkey, hvalue, hrest⟩ := h
    obtain ⟨cs, hcs, hflatten⟩ := ih hrest
    refine ⟨_, .cons ((hkey.made.propertyKey _).separated (by decide) hvalue.made) hcs, ?_⟩
    rw [Contents.flatten_cons, hflatten]
    rfl
  | case3 value rest ih =>
    obtain ⟨hvalue, hrest⟩ := List.forall_mem_cons.mp h
    obtain ⟨cs, hcs, hflatten⟩ := ih hrest
    refine ⟨_, .cons (hvalue.made.text (by decide)) hcs, ?_⟩
    rw [Contents.flatten_cons, hflatten]
    rfl

theorem settled_pieces (raw : Bool) (pieces : List Piece) :
    Spans.Settled (pieceSpans p raw pieces) := by
  induction pieces with
  | nil =>
    exact .nil
  | cons piece rest ih =>
    cases piece with
    | text text =>
      exact .text _ ih
    | hole pos option value =>
      exact .separated (.text "$\x7b" :: (value.draft p).spans) (by decide) ih

/-- Run: the pieces of a token are made of its holes. -/
theorem made_pieces (raw : Bool) {pieces : List Piece} (h : ∀ e ∈ pieceValues pieces, e.Laid p) :
    MadeOf A l (pieceSpans p raw pieces)
      ⟨(pieceValues pieces).map fun e => ⟨[], (e.draft p).spans⟩, [], pieceSpots p raw pieces⟩ := by
  fun_induction pieceValues pieces with
  | case1 =>
    exact .nil
  | case2 text rest ih =>
    exact (ih h).literal _
  | case3 pos option value rest ih =>
    obtain ⟨hvalue, hrest⟩ := List.forall_mem_cons.mp h
    exact (hvalue.made.text (by decide)).separated (by decide) (ih hrest)

theorem made_token {token : StringToken} (h : ∀ e ∈ token.holes, e.Laid p) :
    Spans.Settled (token.spans p) ∧ MadeOf A l (token.spans p)
      ⟨token.holes.map fun e => ⟨[], (e.draft p).spans⟩, [], token.spots p⟩ := by
  obtain ⟨pos, text, pieces⟩ := token
  rw [StringToken.holes] at h
  rw [StringToken.spans, StringToken.holes, StringToken.spots]
  cases hparts : Literal.splitString? text.toList with
  | none => exact ⟨.nil, .nil⟩
  | some parts =>
    rw [hparts] at h
    dsimp only at h ⊢
    split_ifs at h ⊢
    · exact ⟨settled_pieces _ _, made_pieces _ h⟩
    · exact ⟨.text _ .nil, .singleLiteral _⟩

theorem made_tokens {tokens : List StringToken} (h : ∀ e ∈ tokens.flatMap (·.holes), e.Laid p) :
    MadeOf A l (tokenSpans p tokens)
      ⟨(tokens.flatMap (·.holes)).map fun e => ⟨[], (e.draft p).spans⟩, [],
      tokenSpots p tokens⟩ := by
  induction tokens with
  | nil =>
    exact .nil
  | cons token rest ih =>
    rw [List.flatMap_cons, List.forall_mem_append] at h
    obtain ⟨hsettled, htoken⟩ := made_token (A := A) (l := l) h.1
    rw [tokenSpots]
    exact (htoken.append (ih h.2) fun _ => .settled hsettled).congr (by simp)

def formalContents (p : Place) : List Parameter → List Contents
  | [] => []
  | .plain _ :: rest => .empty :: formalContents p rest
  | .withDefault _ value :: rest => value.hole p :: formalContents p rest
  | .foreign _ _ :: _ => []

theorem made_formals {parameters : List Parameter} (h : ∀ e ∈ defaultValues parameters, e.Laid p) :
    List.Forall₂ (Spans.Formal.MadeOf A) (formalSpans p parameters)
    (formalContents p parameters) := by
  fun_induction defaultValues parameters with
  | case1 | case4 pos construct rest =>
    exact .nil
  | case2 name rest ih =>
    exact .cons (fun _ => .nil) (ih h)
  | case3 name value rest ih =>
    obtain ⟨hvalue, hrest⟩ := List.forall_mem_cons.mp h
    exact .cons (fun _ => hvalue.made) (ih hrest)

theorem flatten_formalContents (p : Place) (parameters : List Parameter) :
    Contents.flatten (formalContents p parameters) =
    ⟨(defaultValues parameters).map fun e => ⟨[], (e.draft p).spans⟩, [],
    (formalSpots p parameters).flatten⟩ := by
  fun_induction formalContents p parameters with
  | case1 | case4 pos construct rest => rw [formalSpots]; rfl
  | case2 name rest ih
  | case3 name value rest ih => rw [formalSpots, Contents.flatten_cons, ih]; rfl

example : (formalContents (.start none) []).length = 0 := by decide +kernel

theorem ClauseTarget.made_spans (target : ClauseTarget) :
    target.spans.MadeOf A .function .empty := by
  cases target with
  | name id => exact MadeOf.nil.introduction (by decide) _
  | names ids => exact (MadeOf.names (by decide) _ ids).brackets
  | foreign pos kind => exact .nil

/-- Run: clauses are made of their iterables and conditions, inside the function. -/
theorem made_clauses {f : Enclosing} {clauses : List Clause}
    (h : ∀ c ∈ clauseParts f p clauses, c.Laid) :
    ∃ copies, MadeOf A .function (clauseSpans p clauses).flatten
    ⟨copies, [], (clauseSpots p clauses).flatten⟩ ∧
      copies.map (·.within f) = copiesOf (clauseParts f p clauses) := by
  fun_induction clauseParts f p clauses with
  | case1 =>
    exact ⟨[], .nil, rfl⟩
  | case2 p pos isAsync target iterable rest ih =>
    obtain ⟨hiterable, hrest⟩ := List.forall_mem_cons.mp h
    obtain ⟨copies, hcopies, hwithin⟩ := ih hrest
    rw [copiesOf_partIn, ← hwithin]
    have hopening :=
      (((target.made_spans (A := A)).text (t := "for (const ") (by decide)).separated (t := " of ")
        (by decide)
      hiterable.made).before (t := ") \x7b ") (by decide)
    exact ⟨_, hopening.append hcopies fun _ => .settled (.separated _ (by decide) .nil), rfl⟩
  | case3 p condition rest ih =>
    obtain ⟨hcondition, hrest⟩ := List.forall_mem_cons.mp h
    obtain ⟨copies, hcopies, hwithin⟩ := ih hrest
    rw [copiesOf_partIn, ← hwithin]
    have hopening :=
      (hcondition.made (A := A) (l := .function)).between (t := "if (") (u := ") \x7b ") (by decide)
        (by decide)
    exact ⟨_, hopening.append hcopies fun _ => .settled (.separated _ (by decide) .nil), rfl⟩

/-! ### Arguments -/

theorem argumentSpots_eq (p : Place) (arguments : List Argument) : argumentSpots p arguments =
    ⟨(argumentValues arguments).positional.map (·.spots p),
    (argumentValues arguments).keywords.map (·.2.spots p)⟩ := by
  induction arguments with
  | nil => rw [argumentSpots, argumentValues, List.map_nil, List.map_nil]
  | cons argument rest ih => cases argument <;> simp [argumentSpots, argumentValues, ih]

section Arguments

variable {values : ArgumentValues} {special : String} {function : Expr}

theorem made_keywords (h : ∀ e ∈ values.all, e.Laid p) : List.Forall₂ (MadeOf A l)
    (values.keywords.map fun k => .text (k.1 ++ ": ") :: (k.2.draft p).spans)
      ((values.keywords.map (·.2)).map (·.hole p)) := by
  rw [List.map_map, List.forall₂_map_left_iff, List.forall₂_map_right_iff, List.forall₂_same]
  intro k hk
  refine (h k.2 ?_).made.text (ne_awaitMark_of_end (by decide) _)
  exact List.mem_append_right _ (List.mem_map_of_mem hk)

/-- Run: positional arguments are made one by one. -/
theorem made_positional (h : ∀ e ∈ values.all, e.Laid p) : List.Forall₂ (MadeOf A l)
    (values.positional.map fun e => (e.draft p).spans) (values.positional.map (·.hole p)) :=
  made_values fun e he => h e (List.mem_append_left _ he)

theorem made_call {xs : Spans} {c : Contents} (hxs : xs.MadeOf A l c)
    (h : ∀ e ∈ values.all, e.Laid p) :
    MadeOf A l (Spans.call xs (values.positional.map fun e => (e.draft p).spans)
        (values.keywords.map fun k => .text (k.1 ++ ": ") :: (k.2.draft p).spans))
      (c ++ ⟨copiesOf (values.all.map (·.part p)), (Pending.idle.after xs).callee,
        (values.positional.map (·.spots p)).flatten ++
        (values.keywords.map (·.2.spots p)).flatten⟩) := by
  refine (hxs.call (made_positional h) (made_keywords h)).congr ?_
  rw [flatten_map_hole, flatten_map_hole, ArgumentValues.all, List.map_append, copiesOf_append,
    copiesOf_map_part,
    copiesOf_map_part]
  simp [List.flatMap_def, Function.comp_def]

theorem length_specialArguments (function : String) (kind : Option NodeKind) (xss : List Spans) :
    (Spans.specialArguments function kind xss).length = xss.length := by
  unfold Spans.specialArguments
  split <;> simp

example : (Spans.specialArguments "len" none [[]]).length = 1 := by decide +kernel

/-- A special call that is not rewritten has the text of any other call. -/
theorem specialCall?_eq_none {special : String} {positional : List Expr} (kind : Option NodeKind)
    (h : isRewritten special ⟨positional, []⟩ = false) :
    Spans.specialCall? special
    (Spans.specialArguments special kind (positional.map fun e => (e.draft p).spans)) = none := by
  generalize hxss :
    Spans.specialArguments special kind (positional.map fun e => (e.draft p).spans) = xss
  have hlength : positional.length = xss.length := by
    rw [← hxss, length_specialArguments, List.length_map]
  unfold Spans.specialCall?
  split
  · obtain ⟨value, rfl⟩ := List.length_eq_one_iff.mp hlength
    simp [isRewritten] at h
  · obtain ⟨stop, rfl⟩ := List.length_eq_one_iff.mp hlength
    simp [isRewritten] at h
  · obtain ⟨start, stop, rfl⟩ := List.length_eq_two.mp hlength
    simp [isRewritten] at h
  · obtain ⟨start, stop, step, rfl⟩ := List.length_eq_three.mp hlength
    simp [isRewritten] at h
  · rfl

theorem made_specialArguments (special : String) (kind : Option NodeKind)
    (h : ∀ e ∈ values.all, e.Laid p) : List.Forall₂ (MadeOf A l)
    (Spans.specialArguments special kind (values.positional.map fun e => (e.draft p).spans))
      (values.positional.map (·.hole p)) := by
  have hpositional := made_positional (A := A) (l := l) h
  unfold Spans.specialArguments
  split
  · rename_i hspans
    rw [hspans, List.forall₂_cons_left_iff] at hpositional
    obtain ⟨c, cs, hfirst, hrest, hholes⟩ := hpositional
    rw [hholes]
    exact .cons (hfirst.receiver _) hrest
  · exact hpositional

theorem laid_of_specialParts (h : ∀ c ∈ specialParts p special values, c.Laid) :
    ∀ e ∈ values.all, e.Laid p := by
  unfold specialParts at h
  split at h
  · simp only [List.forall_mem_cons] at h
    simp only [ArgumentValues.all, List.map_nil, List.append_nil, List.forall_mem_cons]
    exact ⟨h.1, h.2.1, List.forall_mem_nil _⟩
  · simp only [List.forall_mem_cons] at h
    simp only [ArgumentValues.all, List.map_nil, List.append_nil, List.forall_mem_cons]
    exact ⟨h.1, h.2.1, h.2.2.1, List.forall_mem_nil _⟩
  · exact fun e he => h _ (List.mem_map_of_mem he)

theorem specialParts_of_not_rewritten (h : isRewritten special values = false) :
    specialParts p special values = values.all.map (·.part p) := by
  unfold specialParts
  split
  · simp [isRewritten] at h
  · simp [isRewritten] at h
  · rfl

theorem specialSpots_of_not_rewritten {positional : List Expr}
    (h : isRewritten special ⟨positional, []⟩ = false) :
    specialSpots special (positional.map (·.spots p)) = (positional.map (·.spots p)).flatten := by
  generalize hspots : positional.map (·.spots p) = spots
  have hlength : positional.length = spots.length := by rw [← hspots, List.length_map]
  unfold specialSpots
  split
  · obtain ⟨start, stop, rfl⟩ := List.length_eq_two.mp hlength
    simp [isRewritten] at h
  · obtain ⟨start, stop, step, rfl⟩ := List.length_eq_three.mp hlength
    simp [isRewritten] at h
  · rfl

/-- The bounds of a range are copied into the function that counts. Their other copies stand in the
order of the text. -/
theorem made_specialCall (kind : Option NodeKind) (h : ∀ e ∈ values.all, e.Laid p) :
    MadeOf A l (Spans.specialCall [p.mention function] special kind
    ⟨values.positional.map fun e => (e.draft p).spans,
        values.keywords.map fun k => .text (k.1 ++ ": ") :: (k.2.draft p).spans⟩)
      ⟨copiesOf (specialParts p special values),
        if isRewritten special values then [] else [.value p.binding p.scopes function],
        ArgumentSpots.special special ⟨values.positional.map (·.spots p),
        values.keywords.map (·.2.spots p)⟩⟩ := by
  fun_cases isRewritten special values with
  | case1 value =>
    have hvalue : (value.draft p).spans.MadeOf A l (value.hole p) :=
      (h value (by simp [ArgumentValues.all])).made
    have hspots : specialSpots "len" [value.spots p] = value.spots p := by simp [specialSpots]
    have hlength := fun {xs : Spans} (h : MadeOf A l xs (value.hole p)) =>
      (h.before (t := ".length") (by decide)).congr
        (d := ⟨copiesOf [value.part p], [], specialSpots "len" [value.spots p]⟩)
        (by rw [hspots]; rfl)
    cases kind with
    | none => exact hlength hvalue
    | some kind => exact hlength (hvalue.receiver kind)
  | case2 stop =>
    have hstop : (stop.draft p).spans.MadeOf A l (stop.hole p) :=
      (h stop (by simp [ArgumentValues.all])).made
    have hspots : stop.spots p = specialSpots "range" [stop.spots p] := by simp [specialSpots]
    exact (hstop.between (t := "[...Array(") (u := ").keys()]") (by decide) (by decide)).reorder
      (.refl _) rfl hspots
  | case3 start stop =>
    have hstart := h start (by simp [ArgumentValues.all])
    have hstop := h stop (by simp [ArgumentValues.all])
    have hlength :=
      ((hstop.made (A := A) (l := l)).separated (t := " - ") (by decide) hstart.made).text
      (t := "Array.from(\x7blength: Math.max(0, ") (by decide)
    have hcounting :=
      MadeOf.counting (l := l) (t := ")\x7d, ") (by decide) (by decide) (hstart.made (A := A))
      (MadeOf.nil.text (t := " + i") (by decide)) fun _ => .text (by decide)
    have hspots : stop.spots p ++ start.spots p ++ [.function .counter [] (start.spots p ++ [])] =
        specialSpots "range" [start.spots p, stop.spots p] := by rw [List.append_nil]; rfl
    have hrange := hlength.append hcounting fun _ => .text (by decide)
    have hcopies : ∀ x y z : Copy, [x, y, z].Perm [y, z, x] :=
      fun x y z => (List.perm_append_singleton x [y, z]).symm
    exact hrange.reorder (hcopies _ _ _) rfl hspots
  | case4 start stop step =>
    have hstart := h start (by simp [ArgumentValues.all])
    have hstop := h stop (by simp [ArgumentValues.all])
    have hstep := h step (by simp [ArgumentValues.all])
    have hlength :=
      (((hstop.made (A := A) (l := l)).separated (t := " - ") (by decide) hstart.made).separated
      (t := ") / ") (by decide) hstep.made).text
        (t := "Array.from(\x7blength: Math.max(0, Math.ceil((") (by decide)
    have hcounting :=
      MadeOf.counting (l := l) (t := "))\x7d, ") (by decide) (by decide) (hstart.made (A := A))
      (hstep.made.text (t := " + i * ") (by decide)) fun _ => .text (by decide)
    have hrange := hlength.append hcounting fun _ => .text (by decide)
    have hcopies : ∀ x y z v w : Copy, [x, y, z, v, w].Perm [y, v, x, z, w] := fun x y z v w =>
      (List.Perm.swap y x [z, v, w]).trans
        (.cons y (List.perm_middle : List.Perm ([x, z] ++ v :: [w]) _))
    exact hrange.reorder (hcopies _ _ _ _ _) rfl rfl
  | case5 hlength hstop hbounds hsteps =>
    have hrewritten : isRewritten special values = false := by
      unfold isRewritten
      split <;> simp_all
    have hmention : MadeOf A l [p.mention function] .empty := .mention _
    rw [specialParts_of_not_rewritten hrewritten]
    obtain ⟨positional, keywords⟩ := values
    cases keywords with
    | nil =>
      have hcall := hmention.call (made_specialArguments special kind h) (.nil (R := MadeOf A l))
      simp only [Spans.specialCall, List.map_nil, List.isEmpty_nil, if_true,
        specialCall?_eq_none _ hrewritten,
        Option.getD_none, ArgumentSpots.special, specialSpots_of_not_rewritten hrewritten]
      refine hcall.congr ?_
      simp [ArgumentValues.all, List.flatMap_def]
      rfl
    | cons first rest => exact made_call hmention h

end Arguments

/-! ## Forms of expressions -/

theorem made_literal (text : Except Fault (List Char)) :
    MadeOf A l [.literal text] (.ofSpots (Spot.literals text)) := by
  cases text <;> exact .singleLiteral _

/-- Step: a call is made of its function and arguments, rewritten or not. -/
theorem made_call_of_laid (function : Expr) (arguments : List Argument)
    (h : ∀ c ∈ (Expr.call function arguments).components p, c.Laid) :
    ((Expr.call function arguments).draft p).spans.MadeOf A l
    ((Expr.call function arguments).contents p) := by
  rw [Expr.components] at h
  rw [Expr.contents, Expr.components, Expr.called, Expr.spots, Expr.draft, argumentSpans_eq,
    argumentSpots_eq]
  cases hspecial : function.specialFunction? p.binding p.scopes with
  | some special =>
    rw [hspecial] at h
    exact made_specialCall _ (laid_of_specialParts h)
  | none =>
    rw [hspecial] at h
    obtain ⟨hfunction, harguments⟩ := List.forall_mem_cons.mp h
    refine (made_call hfunction.made fun e he => harguments _ (List.mem_map_of_mem he)).congr ?_
    simp [Expr.hole_eq]

theorem made_strings_of_laid (first : StringToken) (rest : List StringToken)
    (h : ∀ c ∈ (Expr.joined first rest).components p, c.Laid) :
    ((Expr.joined first rest).draft p).spans.MadeOf A l ((Expr.joined first rest).contents p) := by
  rw [Expr.components] at h
  rw [Expr.contents, Expr.components, Expr.called, Expr.spots, Expr.draft]
  · split_ifs at h ⊢
    · have htokens := made_tokens (A := A) (l := l) fun e he => h _ (List.mem_map_of_mem he)
      rw [tokenSpots] at htokens
      exact htokens.template.congr (by simp)
    · exact .singleLiteral _
  · simp

/-- The draft of an expression has its components. -/
theorem Expr.made_of_laid {x : Expr} (h : ∀ c ∈ x.components p, c.Laid) :
    (x.draft p).spans.MadeOf A l (x.contents p) := by
  cases x with
  | name pos id =>
    rw [contents, components, Expr.spots, Expr.draft]
    exact .mention _
  | member object key =>
    rw [components] at h
    rw [contents, components, Expr.spots, Expr.draft]
    by_cases hmark : object.marksConstructor p.binding p.scopes = true
    · simp only [hmark, Bool.true_or, if_true]
      exact (MadeOf.mention _).text (by decide)
    · by_cases hcontext :
        ((Expr.member object key).contextMeaning? p.binding p.scopes).isSome = true
      · simp only [hmark, hcontext, Bool.or_true, if_true]
        exact .mention _
      · simp only [hmark, hcontext, Bool.or_false, Bool.false_eq_true, if_false,
          List.forall_mem_singleton] at h ⊢
        exact (h.made.receiver _).dotted key
  | subscript value indices =>
    cases Index.form indices with
    | item index =>
      rw [components, List.forall_mem_cons, List.forall_mem_singleton] at h
      rw [contents, components, Expr.spots, Expr.draft]
      exact (h.1.made.receiver _).append h.2.made.brackets fun _ => .settled rfl
    | slice lower upper step =>
      rw [components, List.forall_mem_cons, List.forall_mem_map, List.forall_mem_append,
        List.forall_mem_append] at h
      obtain ⟨hvalue, ⟨hlower, hupper⟩, hstep⟩ := h
      rw [contents, components, Expr.spots, Expr.draft, optionalSpots_eq, optionalSpots_eq,
        optionalSpots_eq]
      refine ((hvalue.made.receiver _).slice
        (.sliceArguments (made_optional hlower) (made_optional hupper) (made_optional hstep))).congr
        ?_
      rw [flatten_map_hole, flatten_map_hole, flatten_map_hole, hole_eq]
      simp [Expr.called]
    | other _ hitem hslice =>
      rw [contents, components_subscript_other p value hitem hslice,
        draft_subscript_other p value hitem hslice, Expr.spots]
      · exact .nil
      · exact hitem
      · exact hslice
  | call function arguments => exact made_call_of_laid function arguments h
  | binary op left right =>
    rw [components, List.forall_mem_cons, List.forall_mem_singleton] at h
    rw [contents, components, Expr.spots, Expr.draft]
    split_ifs
    · exact .format _ h.1.made h.2.made
    · exact .binary op _ _ h.1.made h.2.made
  | comparison op left right =>
    rw [components, List.forall_mem_cons, List.forall_mem_singleton] at h
    rw [contents, components, Expr.spots, Expr.draft]
    have hcomparison := MadeOf.comparison (A := A) (l := l) op right.kind h.1.made h.2.made
    split_ifs at hcomparison ⊢
    · exact hcomparison
    · exact hcomparison.reorder (.swap _ _ _) rfl rfl
  | boolean op left right =>
    rw [components, List.forall_mem_map] at h
    rw [contents, components, Expr.spots, Expr.draft, operands_draft, operands_draft,
      ← List.map_append]
    have hop : Spans.IsPlain (" " ++ op.symbol ++ " ") := by
      rw [String.append_assoc]
      exact Spans.isPlain_spaced _
    have hchain : MadeOf A l ([Span.text (" " ++ op.symbol ++ " ")].intercalate _) _ :=
      .intercalate (fun h => h.text hop.1) (fun ys => .text hop.2 ys) (made_values h)
    refine hchain.parens.congr ?_
    rw [flatten_map_hole]
    simp [Expr.called, flatMap_spots_chained]
  | conditional body condition alternative =>
    simp only [components, List.forall_mem_cons] at h
    obtain ⟨hbody, hcondition, halternative, -⟩ := h
    rw [contents, components, Expr.spots, Expr.draft]
    have hchoice :=
      ((hcondition.made (A := A) (l := l)).separated (t := " ? ") (by decide) hbody.made).separated
      (t := " : ") (by decide) halternative.made
    exact hchoice.parens.reorder (.swap _ _ _) rfl rfl
  | paren pos operand =>
    rw [components, List.forall_mem_singleton] at h
    rw [contents, components, Expr.spots, Expr.draft]
    exact h.made.grouped _
  | unary pos op operand =>
    rw [components, List.forall_mem_singleton] at h
    rw [contents, components, Expr.spots, Expr.draft]
    exact h.made.parens.text (by cases op <;> decide)
  | await pos operand =>
    rw [components, List.forall_mem_singleton] at h
    rw [contents, components, Expr.spots, Expr.draft]
    exact h.made.await
  | splat pos operand =>
    rw [components, List.forall_mem_singleton] at h
    rw [contents, components, Expr.spots, Expr.draft]
    exact h.made
  | lambda pos parameters body =>
    simp only [components, List.forall_mem_append, List.forall_mem_map,
      List.forall_mem_singleton] at h
    rw [contents, components, Expr.spots, Expr.draft]
    refine (MadeOf.arrow p.depth (made_formals h.1) h.2.made).congr ?_
    rw [flatten_formalContents, hole_eq]
    simp [Expr.called, Copy.within, Function.comp_def]
  | number pos isFloat token =>
    rw [contents, components, Expr.spots, Expr.draft]
    exact made_literal _
  | string token =>
    rw [components] at h
    rw [contents, components, Expr.spots, Expr.draft]
    split_ifs at h ⊢
    · refine (made_token fun e he => h _ (List.mem_map_of_mem he)).2.template.congr ?_
      simp [Expr.called]
    · exact made_literal _
  | joined first rest => exact made_strings_of_laid first rest h
  | constant pos value =>
    cases value <;>
      (rw [contents, components, Expr.spots, Expr.draft]; exact MadeOf.nil.text (by decide))
  | sequence pos form items =>
    simp only [components, List.forall_mem_map] at h
    rw [contents, components, Expr.spots, Expr.draft, itemSpots_eq]
    refine (MadeOf.collection form (made_items h)).congr ?_
    rw [flatten_map_hole, copiesOf_map_part]
    simp [Expr.called, List.flatMap_def, Function.comp_def]
  | dictionary pos entries =>
    rw [components, List.forall_mem_map] at h
    rw [contents, components, Expr.spots, Expr.draft]
    split_ifs at h ⊢
    · obtain ⟨cs, hcs, hflatten⟩ := made_entries (A := A) (l := l) h
      refine (MadeOf.tall _ hcs).congr ?_
      rw [hflatten]
      simp [Expr.called, Place.nested]
    · obtain ⟨cs, hcs, hflatten⟩ := made_entries (A := A) (l := l) h
      refine (MadeOf.commas hcs).braces.congr ?_
      rw [hflatten]
      simp [Expr.called]
  | comprehension pos form body clauses =>
    simp only [components, List.forall_mem_append, List.forall_mem_singleton] at h
    rw [contents, components, Expr.spots, Expr.draft]
    obtain ⟨copies, hcopies, hwithin⟩ := made_clauses (A := A) h.1
    refine ((MadeOf.generator _ hcopies h.2.made).collected form).congr ?_
    rw [copiesOf_append, ← hwithin]
    simp [Expr.called, hole_eq, Copy.within, Place.inClauses]
  | dictComprehension pos key value clauses =>
    simp only [components, List.forall_mem_append, List.forall_mem_cons] at h
    rw [contents, components, Expr.spots]
    obtain ⟨copies, hcopies, hwithin⟩ := made_clauses (A := A) h.1
    have hpair :=
      ((h.2.1.made (A := A) (l := .function)).separated (t := ", ")
        (by decide) h.2.2.1.made).brackets
    refine ((MadeOf.generator (l := l) _ hcopies hpair).between (t := "Object.fromEntries([...")
      (u := "])") (by decide)
      (by decide)).congr ?_
    rw [copiesOf_append, ← hwithin]
    simp [Expr.called, hole_eq, Copy.within, Place.inClauses]
  | foreign pos kind =>
    exact .nil

end Expressions

end ScriptCompiler
