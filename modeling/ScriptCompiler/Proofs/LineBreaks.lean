import ScriptCompiler.Proofs.Copies

/-!
# Line breaks behind keywords

A script ends a statement where a line ends behind `return`, `throw` or `yield`, so that an operand
on the next line is cut off. Whether the text of an expression begins with a line terminator depends
on the part that it begins with, and in the end on a single token. Arrow functions are on lines of
their own: they are cut off, and so is everything that begins with one.
-/

namespace ScriptCompiler

namespace Script

/-- The characters that end a line of a script. -/
def isLineTerminator (c : Char) : Bool := c = '\n' || c = '\r' || c = '\u2028' || c = '\u2029'

/-- Whether a text begins with a line terminator. -/
def startsLine (text : String) : Bool := text.toList.head?.any isLineTerminator

theorem startsLine_append {x y : String} (hy : startsLine y = false) :
    startsLine (x ++ y) = startsLine x := by
  unfold startsLine at hy ⊢
  rw [String.toList_append]
  cases hx : x.toList with
  | nil => simp [hy]
  | cons c cs => simp

theorem startsLine_append_of_ne {x : String} (hx : x ≠ "") (y : String) :
    startsLine (x ++ y) = startsLine x := by
  unfold startsLine
  rw [String.toList_append]
  cases hchars : x.toList with
  | nil => exact absurd (String.toList_injective hchars) hx
  | cons c cs => simp

theorem startsLine_quoted (value : List Char) :
    startsLine (String.ofList (Literal.quoted value)) = false := by
  have hquote : isLineTerminator (Literal.quoteFor value) = false := by
    unfold Literal.quoteFor
    split_ifs <;> rfl
  simp [startsLine, Literal.quoted, hquote]

theorem startsLine_of_isNumeral {text : String} (h : isNumeral text = true) :
    startsLine text = false := by
  unfold isNumeral at h
  unfold startsLine
  cases hchars : text.toList with
  | nil => rfl
  | cons c cs =>
    rw [hchars] at h
    have hnumeral : isNumeralChar c = true ∨ c = '-' := by
      split at h
      · simp_all
      · simp_all
    have hterminator : isLineTerminator c = true → isNumeralChar c = false ∧ c ≠ '-' := by
      simp only [isLineTerminator, Bool.or_eq_true, decide_eq_true_eq]
      rintro (((rfl | rfl) | rfl) | rfl) <;> decide
    simp only [List.head?_cons, Option.any_some, Bool.eq_false_iff]
    intro hc
    rcases hnumeral with hnumeral | rfl
    · rw [(hterminator hc).1] at hnumeral
      cases hnumeral
    · exact (hterminator hc).2 rfl

end Script

/-- What the text of an expression begins with. -/
inductive Leading where
  /-- A part of the expression. -/
  | part (e : Expr)
  /-- An arrow function. -/
  | arrow
  | name (m : Mention)
  | number (token : String)
  /-- A fixed piece of text, or nothing. -/
  | other

/-- An operand that is written first. -/
def Leading.operand (e : Expr) : Leading := if Script.isOpen e.kind then .other else .part e

namespace Expr

/-- What the text of a call begins with whose function has special calls. -/
def specialLeading (p : Place) (special : String) (function : Expr) (values : ArgumentValues) :
    Leading :=
  match special, values with
  | "len", ⟨[value], []⟩ => .operand value
  | "range", ⟨[_], []⟩ | "range", ⟨[_, _], []⟩ | "range", ⟨[_, _, _], []⟩ => .other
  | _, _ => .name (.value p.binding p.scopes function)

/-- What the text of an expression begins with at a place. -/
def leading (p : Place) : Expr → Leading
  | .name pos id => .name (.value p.binding p.scopes (.name pos id))
  | .number _ _ token => .number token
  | .lambda _ _ _ => .arrow
  | .member object key =>
    if object.marksConstructor p.binding p.scopes then .other
    else if ((Expr.member object key).contextMeaning? p.binding p.scopes).isSome then
      .name (.value p.binding p.scopes (.member object key))
    else .operand object
  | .subscript value [.item _] | .subscript value [.slice _ _ _] => .operand value
  | .call function arguments =>
    match function.specialFunction? p.binding p.scopes with
    | none => .part function
    | some special => specialLeading p special function (argumentValues arguments)
  | .paren _ inner => .operand inner
  | .comparison op left right =>
    match op.symbol? with
    | some _ => .part left
    | none => if op = .isIn then .operand right else .other
  | .splat _ operand => .part operand
  | _ => .other

theorem leading_subscript_other (p : Place) (value : Expr) {indices : List Index}
    (hitem : ∀ index, indices ≠ [.item index]) (hslice : ∀ lower upper step,
    indices ≠ [.slice lower upper step]) :
    (Expr.subscript value indices).leading p = .other := by
  rcases indices with _ | ⟨index, _ | ⟨index', rest⟩⟩
  · rfl
  · cases index with
    | item index => exact absurd rfl (hitem index)
    | slice lower upper step => exact absurd rfl (hslice lower upper step)
  · cases index <;> rfl

theorem sizeOf_leading {p : Place} {e x : Expr} (h : e.leading p = .part x) :
    sizeOf x < sizeOf e := by
  have hoperand : ∀ {y : Expr}, Leading.operand y = .part x → y = x := by
    intro y hy
    unfold Leading.operand at hy
    split_ifs at hy
    exact Leading.part.inj hy
  cases e with
  | member object key => grind [leading]
  | subscript value indices =>
    cases Index.form indices with
    | item index => grind [leading]
    | slice lower upper step => grind [leading]
    | other _ hitem hslice =>
      rw [leading_subscript_other p value hitem hslice] at h
      cases h
  | call function arguments =>
    rw [leading] at h
    split at h
    · grind
    · unfold specialLeading at h
      split at h
      · rename_i value hvalues _
        have hvalue : value ∈ (argumentValues arguments).all := by
          simp [hvalues, ArgumentValues.all]
        grind
      · cases h
      · cases h
      · cases h
      · cases h
  | paren pos inner => grind [leading]
  | comparison op left right => grind [leading]
  | splat pos operand => grind [leading]
  | _ => cases h

/-- Whether the text of an expression begins with a line terminator, by the token that it begins
with. -/
def breaksLine (names : List (Nat × String)) (p : Place) (e : Expr) : Bool :=
  match _h : e.leading p with
  | .part x => x.breaksLine names p
  | .arrow => true
  | .name m => (m.text? names).any Script.startsLine
  | .number token =>
    Script.startsLine (String.ofList ((Literal.lowerNumber token.toList).toOption.getD []))
  | .other => false
termination_by sizeOf e
decreasing_by exact sizeOf_leading _h

end Expr

/-! ## First characters of drafts -/

namespace Spans

variable {ed : Edition} {xs ys : Spans} {b : Bool}

/-- The texts of spans all begin with a line terminator, or none does. -/
def StartsLine (ed : Edition) (xs : Spans) (b : Bool) :
    Prop := ∀ text, xs.Prints ed text → Script.startsLine text = b

namespace StartsLine

theorem nil : StartsLine ed [] false := by
  intro text htext
  obtain rfl : "" = text := by simpa [Prints] using htext
  rfl

theorem append (hxs : StartsLine ed xs b) (hys : StartsLine ed ys false) :
    StartsLine ed (xs ++ ys) b := by
  intro text htext
  simp only [Prints, printAll?_append, Option.bind_eq_some_iff, Option.map_eq_some_iff] at htext
  obtain ⟨x, hx, y, hy, rfl⟩ := htext
  rw [Script.startsLine_append (hys y hy), hxs x hx]

theorem text {t : String} (ht : t ≠ "") (xs : Spans) :
    StartsLine ed (.text t :: xs) (Script.startsLine t) := by
  intro text htext
  simp only [Prints, printAll?_cons, Span.print?_text, Option.bind_some,
    Option.map_eq_some_iff] at htext
  obtain ⟨x, -, rfl⟩ := htext
  exact Script.startsLine_append_of_ne ht x

theorem singleton (t : String) : StartsLine ed [.text t] (Script.startsLine t) := by
  intro text htext
  obtain rfl : t = text := by simpa [Prints] using htext
  rfl

theorem mention (m : Mention) :
    StartsLine ed [.mention m] ((m.text? ed.names).any Script.startsLine) := by
  intro text htext
  have htext : m.text? ed.names = some text := by simpa [Prints] using htext
  rw [htext, Option.any_some]

theorem fixed {t : String} (ht : (t.toList.head?.map Script.isLineTerminator) = some false)
    (xs : Spans) : StartsLine ed (.text t :: xs) false := by
  have hne : t ≠ "" := by
    rintro rfl
    cases ht
  have hfalse : Script.startsLine t = false := by
    unfold Script.startsLine
    cases hhead : t.toList.head? with
    | none => rfl
    | some c => simpa [hhead] using ht
  exact hfalse ▸ text hne xs

theorem parens (xs : Spans) : StartsLine ed (Spans.parens xs) false := fixed rfl _

theorem brackets (xs : Spans) : StartsLine ed (Spans.brackets xs) false := fixed rfl _

/-- The parentheses around a number change nothing: it does not begin a line either. -/
theorem guarded (h : StartsLine ed xs b) : StartsLine ed [.guarded xs] b := by
  intro text htext
  obtain ⟨inner, hinner, rfl⟩ : ∃ inner, printAll? ed xs = some inner ∧
      Script.guarded inner = text := by
    simpa [Prints] using htext
  rw [← h inner hinner, Script.guarded]
  split_ifs with hnumeral
  · rw [Script.startsLine_of_isNumeral hnumeral, Script.parens, String.append_assoc]
    exact Script.startsLine_append_of_ne (by decide) _
  · rfl

end StartsLine

end Spans

open Spans (StartsLine)

section Expressions

variable {ed : Edition} {p : Place} {b : Bool} {e : Expr}

/-- What a text begins with begins with a line terminator, or not. -/
def Leading.Starts (ed : Edition) (p : Place) (b : Bool) : Leading → Prop
  | .part e => StartsLine ed (e.draft p).spans b
  | .arrow => b = true
  | .name m => b = (m.text? ed.names).any Script.startsLine
  | .number token =>
    b = Script.startsLine (String.ofList ((Literal.lowerNumber token.toList).toOption.getD []))
  | .other => b = false

namespace Leading.Starts

theorem grouped (h : (Leading.operand e).Starts ed p b) :
    StartsLine ed (Spans.grouped e.kind (e.draft p).spans) b := by
  unfold Leading.operand at h
  unfold Spans.grouped
  split_ifs at h ⊢
  · obtain rfl : b = false := h
    exact .parens _
  · exact h

theorem receiver (h : (Leading.operand e).Starts ed p b) :
    StartsLine ed (Spans.receiver e.kind (e.draft p).spans) b :=
  .guarded h.grouped

end Leading.Starts

theorem startsLine_call {function : Spans} {positional keywords : List Spans}
    (h : StartsLine ed function b) : StartsLine ed (Spans.call function positional keywords) b := by
  unfold Spans.call
  split_ifs
  · exact h.append (.parens _)
  · exact ((h.append (.fixed rfl _)).append (.fixed rfl _)).append (.fixed rfl _)

theorem startsLine_literal (token : List Char) :
    StartsLine ed [.literal (Literal.lowerString token)] false := by
  rw [Literal.lowerString]
  cases Literal.stringValue token with
  | error f => exact .singleton ""
  | ok value => exact Script.startsLine_quoted value ▸ .singleton _

theorem startsLine_specialCall {special : String} {function : Expr} {arguments : List Argument}
    (h : (Expr.specialLeading p special function (argumentValues arguments)).Starts ed p b) :
    StartsLine ed (Spans.specialCall [p.mention function] special (Lowering.firstKind? arguments)
      (argumentSpans p arguments)) b := by
  rw [argumentSpans_eq]
  unfold Expr.specialLeading at h
  split at h
  · rename_i value hvalues
    rw [firstKind?_of_positional (by rw [hvalues]; rfl) (by rw [hvalues]), hvalues]
    exact h.receiver.append (.fixed rfl _)
  · rename_i stop hvalues
    rw [hvalues]
    obtain rfl : b = false := h
    exact .fixed rfl _
  · rename_i start stop hvalues
    rw [hvalues]
    obtain rfl : b = false := h
    exact .fixed rfl _
  · rename_i start stop step hvalues
    rw [hvalues]
    obtain rfl : b = false := h
    exact .fixed rfl _
  · rename_i special _ _ hlen hrange₁ hrange₂ hrange₃
    have hmention : StartsLine ed [p.mention function] b := h ▸ .mention _
    have hrewritten : isRewritten special (argumentValues arguments) = false := by
      unfold isRewritten
      split <;> simp_all
    unfold Spans.specialCall
    dsimp only
    split_ifs with hempty
    · rw [List.isEmpty_iff, List.map_eq_nil_iff] at hempty
      have hvalues : argumentValues arguments = ⟨(argumentValues arguments).positional, []⟩ := by
        rw [← hempty]
      rw [hvalues] at hrewritten
      rw [specialCall?_eq_none _ hrewritten]
      exact startsLine_call hmention
    · exact startsLine_call hmention

theorem Expr.startsLine_of_leading (h : (e.leading p).Starts ed p b) :
    StartsLine ed (e.draft p).spans b := by
  cases e with
  | name pos id =>
    rw [Expr.draft]
    exact h ▸ .mention _
  | number pos isFloat token =>
    rw [Expr.draft]
    exact h ▸ .singleton _
  | lambda pos parameters body =>
    obtain rfl : b = true := h
    rw [Expr.draft]
    exact .text (by decide) _
  | member object key =>
    rw [Expr.leading] at h
    rw [Expr.draft]
    split_ifs at h ⊢
    · obtain rfl : b = false := h
      exact .fixed rfl _
    · exact h ▸ .mention _
    · have hkey : Script.startsLine ("." ++ key) = false :=
        Script.startsLine_append_of_ne (by decide) key
      exact h.receiver.append (hkey ▸ .singleton _)
  | subscript value indices =>
    cases Index.form indices with
    | item index =>
      rw [Expr.draft]
      exact (Leading.Starts.receiver h).append (.brackets _)
    | slice lower upper step =>
      rw [Expr.draft]
      exact ((Leading.Starts.receiver h).append (.fixed rfl _)).append (.fixed rfl _)
    | other _ hitem hslice =>
      rw [Expr.leading_subscript_other p value hitem hslice] at h
      obtain rfl : b = false := h
      rw [Expr.draft_subscript_other p value hitem hslice]
      exact .nil
  | call function arguments =>
    rw [Expr.leading] at h
    rw [Expr.draft]
    cases hspecial : function.specialFunction? p.binding p.scopes with
    | none =>
      rw [hspecial] at h
      exact startsLine_call h
    | some special =>
      rw [hspecial] at h
      exact startsLine_specialCall h
  | paren pos inner =>
    rw [Expr.draft]
    exact Leading.Starts.grouped h
  | comparison op left right =>
    rw [Expr.leading] at h
    rw [Expr.draft, Spans.comparison]
    cases hsymbol : op.symbol? with
    | some symbol =>
      rw [hsymbol] at h
      have hspace : Script.startsLine (" " ++ symbol ++ " ") = false := by
        rw [String.append_assoc]
        exact Script.startsLine_append_of_ne (by decide) _
      exact StartsLine.append h (hspace ▸ .text (by simp) _)
    | none =>
      rw [hsymbol] at h
      dsimp only at h ⊢
      split_ifs at h ⊢
      · exact (Leading.Starts.receiver h).append (.fixed rfl _)
      · obtain rfl : b = false := h
        exact .fixed rfl _
  | splat pos operand =>
    rw [Expr.draft]
    exact h
  | string token =>
    obtain rfl : b = false := h
    rw [Expr.draft]
    split_ifs
    · exact .fixed rfl _
    · exact startsLine_literal _
  | joined first rest =>
    obtain rfl : b = false := h
    rw [Expr.draft]
    split_ifs
    · exact .fixed rfl _
    · exact Script.startsLine_quoted _ ▸ .singleton _
  | constant pos value =>
    obtain rfl : b = false := h
    cases value with
    | true | false | none =>
      rw [Expr.draft]
      exact .fixed rfl _
  | binary op left right =>
    obtain rfl : b = false := h
    rw [Expr.draft]
    split_ifs
    · unfold Spans.format
      dsimp only
      split <;> exact .fixed rfl _
    · unfold Spans.binary
      split
      · exact .parens _
      · split <;> exact .fixed rfl _
  | unary pos op operand =>
    obtain rfl : b = false := h
    rw [Expr.draft]
    cases op <;> exact .fixed rfl _
  | boolean op left right =>
    obtain rfl : b = false := h
    rw [Expr.draft]
    exact .parens _
  | sequence pos form items | comprehension pos form body clauses =>
    obtain rfl : b = false := h
    cases form <;> exact .fixed rfl _
  | dictionary pos entries =>
    obtain rfl : b = false := h
    rw [Expr.draft]
    split_ifs <;> exact .fixed rfl _
  | conditional | await | dictComprehension =>
    obtain rfl : b = false := h
    exact .fixed rfl _
  | foreign pos kind =>
    obtain rfl : b = false := h
    exact .nil

/-- Whether the text of an expression begins with a line terminator is decided by the token that it
begins with. -/
theorem Expr.startsLine_draft (ed : Edition) (p : Place) (e : Expr) :
    StartsLine ed (e.draft p).spans (e.breaksLine ed.names p) := by
  induction hn : sizeOf e using Nat.strongRecOn generalizing e with
  | _ n ih =>
    subst hn
    refine e.startsLine_of_leading ?_
    rw [Expr.breaksLine]
    split
    · rename_i x hleading
      rw [hleading]
      exact ih _ (Expr.sizeOf_leading hleading) x rfl
    all_goals
      rename_i hleading
      rw [hleading]
      rfl

end Expressions

/-! ## Operands of keywords -/

/-- What is written behind a keyword. -/
inductive Operand where
  | single (p : Place) (e : Expr)
  /-- A pair that a comprehension yields for a dictionary. -/
  | pair (p : Place) (key value : Expr)

namespace Operand

def spans : Operand → Spans
  | .single p e => (e.draft p).spans
  | .pair p key value => Spans.brackets ((key.draft p).spans ++ .text ", " :: (value.draft p).spans)

/-- Whether the text begins with a line terminator, given the names of the callables. -/
def breaksLine (names : List (Nat × String)) : Operand → Bool
  | .single p e => e.breaksLine names p
  | .pair _ _ _ => false

theorem startsLine_spans (ed : Edition) (o : Operand) :
    StartsLine ed o.spans (o.breaksLine ed.names) := by
  cases o with
  | single p e => exact e.startsLine_draft ed p
  | pair p key value => exact .brackets _

end Operand

/-- The keyword that a phrase is written with, if it has an operand, and the operand. -/
def Phrase.operand? (p : Place) : Phrase → Option (String × Operand)
  | .statement (.returns _ (some e)) => some ("return ", .single p e)
  | .statement (.raises _ (some e) _) => some ("throw ", .single p e)
  | .expression (.lambda _ parameters body) =>
    some ("return ", .single (p.inFrame (declaredNames parameters)) body)
  | .expression (.comprehension _ _ body clauses) =>
    some ("yield ", .single (p.inClauses clauses) body)
  | .expression (.dictComprehension _ key value clauses) =>
    some ("yield ", .pair (p.inClauses clauses) key value)
  | _ => none

open Spans (Inside)

theorem inside_yielded {openings : List Spans} {value : Spans} :
    Inside [.generator openings value] (.text "yield " :: value) (Spans.generator openings value) :=
  inside_generator ((((Inside.refl _).right _).left _).cons _)

/-- An operand stands right behind its keyword. -/
theorem Phrase.exists_operand_inside {p : Place} {x : Phrase} {keyword : String} {o : Operand}
    (h : x.operand? p = some (keyword, o)) :
    ∃ around, Inside around (.text keyword :: o.spans) (x.spans p) := by
  unfold Phrase.operand? at h
  split at h <;> cases h
  · exact ⟨[], ((Inside.refl _).left _).line _⟩
  · exact ⟨[], ((Inside.refl _).left _).line _⟩
  · exact ⟨_, inside_arrow ((((Inside.refl _).braces).cons _).right _)⟩
  · exact ⟨_, inside_yielded.collected _⟩
  · exact ⟨_, (inside_yielded.cons _).left _⟩

namespace SourceText

/-- Every operand of a keyword is written behind it, and begins with a line terminator exactly if
its first token says so. -/
def SeparatesOperands (t : SourceText) (binding : Option Binding) (ed : Edition) : Prop :=
  ∀ c ∈ t.parts binding, c.copies ≠ [] → ∀ keyword o, c.phrase.operand? c.place =
    some (keyword, o) →
    ∃ before text after, o.spans.Prints ed text ∧ t.text = before ++ keyword ++ text ++ after ∧
      Script.startsLine text = o.breaksLine ed.names

theorem PrintedIn.separatesOperands {t : SourceText} {binding : Option Binding} {ed : Edition}
    (h : t.PrintedIn binding ed) : t.SeparatesOperands binding ed := by
  intro c hc hcopies keyword o ho
  obtain ⟨around, rest, hcopies⟩ := List.exists_cons_of_ne_nil hcopies
  have hpart : Inside around c.spans (t.spans binding) :=
    standsIn_parts hc around (hcopies ▸ List.mem_cons_self)
  obtain ⟨around', hoperand⟩ := Phrase.exists_operand_inside ho
  obtain ⟨before, inner, after, hinner, htext⟩ := (hoperand.trans hpart).exists_text h.printed
  simp only [Spans.Prints, printAll?_cons, Span.print?_text, Option.bind_some,
    Option.map_eq_some_iff] at hinner
  obtain ⟨text, hprints, rfl⟩ := hinner
  exact ⟨before, text, after, hprints, by rw [htext, ← String.append_assoc],
    o.startsLine_spans ed text hprints⟩

end SourceText

/-- In every text of a unit or a bundle, the operand of a `return`, `throw` or `yield` stands behind
its keyword, and it is cut off exactly if the token that it begins with is an arrow function, or
begins with a line terminator itself. -/
theorem operand_cut_off_iff_breaksLine (options : Options) :
    (∀ (unit : SourceUnit) (output : String), unit.compile options = .ok output →
      unit.TextsHave options output SourceText.SeparatesOperands) ∧
    ∀ (bundle : Bundle) (output : String), bundle.compile options = .ok output →
      bundle.TextsHave options output SourceText.SeparatesOperands :=
  textsHave (fun _ _ _ hprinted _ => hprinted.separatesOperands) options

/-- Whether an operand begins with an arrow function at once. -/
def Operand.isArrow : Operand → Bool
  | .single _ (.lambda _ _ _) => true
  | _ => false

theorem Operand.breaksLine_of_isArrow {o : Operand} (h : o.isArrow = true)
    (names : List (Nat × String)) : o.breaksLine names = true := by
  unfold Operand.isArrow at h
  split at h
  · rw [Operand.breaksLine, Expr.breaksLine]
    rfl
  · cases h

def deferredSource : String := "def f(xs):\n    return lambda: [x.y for x in xs]\n"

def deferredOutput : String :=
  "function f(xs) \x7b\n    return \n" ++
  "        () => \x7breturn [...(function* () \x7b for (const x of xs) " ++
    "\x7b yield x.y \x7d \x7d).call(this)]\x7d\n    ;\n\x7d\n"

def deferredUnit : SourceUnit := ⟨deferredSource, none, .module⟩

def deferredBundle : Bundle := ⟨[(.function deferredSource none, none)], none⟩

theorem deferred_operand_cut_off :
    (deferredUnit.compile {} = .ok deferredOutput ∧
      deferredUnit.TextsHave {} deferredOutput SourceText.SeparatesOperands ∧
      ∃ c ∈ (SourceText.mk deferredSource .module deferredOutput).parts none, c.copies ≠ [] ∧
        ∃ keyword o, c.phrase.operand? c.place = some (keyword, o) ∧
        ∀ names, o.breaksLine names = true) ∧
    deferredBundle.compile {} = .ok deferredOutput ∧
      deferredBundle.TextsHave {} deferredOutput SourceText.SeparatesOperands := by
  have hunit : deferredUnit.compile {} = .ok deferredOutput := by decide +kernel
  have hbundle : deferredBundle.compile {} = .ok deferredOutput := by decide +kernel
  refine ⟨⟨hunit, (operand_cut_off_iff_breaksLine {}).1 deferredUnit _ hunit, ?_⟩,
    hbundle, (operand_cut_off_iff_breaksLine {}).2 deferredBundle _ hbundle⟩
  have hany : ((SourceText.mk deferredSource .module deferredOutput).parts none).any (fun c =>
      !c.copies.isEmpty && (c.phrase.operand? c.place).any (·.2.isArrow)) = true := by
    decide +kernel
  obtain ⟨c, hc, htest⟩ := List.any_eq_true.mp hany
  rw [Bool.and_eq_true, Bool.not_eq_true', List.isEmpty_eq_false_iff,
    Option.any_eq_true_iff_get] at htest
  obtain ⟨hcopies, hsome, harrow⟩ := htest
  exact ⟨c, hc, hcopies, _, _, (Option.some_get hsome).symm, Operand.breaksLine_of_isArrow harrow⟩

/-- The function is on the line behind `return`, which returns nothing. -/
theorem returned_lambda_cut_off :
    (SourceUnit.mk "def f():\n    return lambda x: x\n" none .module).compile {} =
      .ok "function f() \x7b\n    return \n        (x) => \x7breturn x\x7d\n    ;\n\x7d\n" := by
  decide +kernel

end ScriptCompiler
