import ScriptCompiler.Proofs.Frames

/-!
# Receivers of methods

A method is called on an object, which its first parameter stands for. A parameter called `self` is
written `this` wherever it is mentioned; for any other one the method declares a variable. Functions
inside the method have a receiver of their own if they are written with a block, and they may
declare names that are written as the variable is. This module says which references to the
parameter are to the receiver of the method.
-/

namespace ScriptCompiler

open Spans (Inside)

/-- The keyword for the receiver of a function. -/
def Script.thisWord : String := "this"

/-- Whether an introduction is of a variable of the program. -/
def Introduction.IsOf (i : Introduction) (id : String) : Prop := i.id = id ∧ i.form ≠ .synthesized

/-- A name is bound where a part stands. -/
def Part.Binds (id : String) (c : Part) : Prop := c.place.scopes.isBound id = true

variable {id r : String} {f : WrittenFunction}

/-- A name that is bound where a phrase stands is bound where all of its parts stand. -/
theorem Phrase.binds_parts {p : Place} (x : Phrase) (h : p.scopes.isBound id = true) :
    ∀ c ∈ x.parts p, c.Binds id := by
  induction hn : sizeOf x using Nat.strongRecOn generalizing x p with
  | _ n ih =>
    subst hn
    rw [parts_eq, List.forall_mem_cons]
    refine ⟨h, fun c hc => ?_⟩
    obtain ⟨component, hcomponent, hc⟩ := List.mem_flatMap.mp hc
    obtain ⟨part, hpart, rfl⟩ := List.mem_map.mp hc
    have hplace : component.Binds id := (below_component hcomponent).2 id h
    exact ih _ (sizeOf_component hcomponent) component.phrase hplace rfl part hpart

namespace WrittenFunction

/-- The parts of a function's body, each with the functions between its copies and the body. -/
def bodyParts (f : WrittenFunction) : List Part :=
  (blockParts f.inside [[]] f.body).flatMap fun c =>
    (c.phrase.parts c.place).map (·.within c.copies)

/-- The names that a function declares for its receiver. -/
def aliases (f : WrittenFunction) : List String :=
  (declarations (Spans.receiverLine (f.depth + 1) f.receiver)).map (·.text)

/-- Inside a method and functions in it, a text refers to the receiver of the method. The keyword
does if none of the functions has a receiver of its own. A name does if the method declares it for
the receiver and for no other variable, and no function in between declares it. -/
def RefersToReceiver (f : WrittenFunction) (r : String) (around : List Enclosing) (text : String) :
    Prop :=
  if text = Script.thisWord then ∀ g ∈ around, g.form ≠ .block
  else text ∈ f.aliases ∧ (∀ i ∈ declarations f.inner, i.text = text → i.IsOf r) ∧
    ∀ g ∈ around, ∀ i ∈ declarations g.inner, i.text ≠ text

theorem standsIn_bodyParts (f : WrittenFunction) : ∀ c ∈ f.bodyParts, c.StandsIn f.inner := by
  intro c hc
  obtain ⟨s, hs, hc⟩ := List.mem_flatMap.mp hc
  obtain ⟨part, hpart, rfl⟩ := List.mem_map.mp hc
  have hbody : Inside [] (blockSpans f.inside f.body) f.inner :=
    ((((Inside.refl _).right _).left _).cons _ |>.cons _).right _
  exact (s.phrase.standsIn_parts s.place part hpart).within (standsIn_block hbody s hs)

theorem binds_bodyParts (h : f.inside.scopes.isBound id = true) :
    ∀ c ∈ f.bodyParts, c.Binds id := by
  intro c hc
  obtain ⟨s, hs, hc⟩ := List.mem_flatMap.mp hc
  obtain ⟨part, hpart, rfl⟩ := List.mem_map.mp hc
  exact s.phrase.binds_parts ((below_blockParts hs).2 id h) part hpart

/-- A method declares a variable for its receiver unless that is called `self`. The variable is not
respelled. -/
theorem aliases_eq (h : f.receiver = .bound r) :
    f.aliases = if r = Lowering.selfName then [] else [r] := by
  rw [aliases, h, Spans.receiverLine]
  by_cases hself : r = Lowering.selfName
  · rw [if_neg (not_not_intro hself), if_pos hself, declarations, List.map_nil]
  · rw [if_pos hself, if_neg hself]
    simp [Spans.line, declarations, Span.declarations, Introduction.text, BindingForm.respells]

theorem HasFrame.isBound_receiver (hf : f.HasFrame) (h : f.receiver = .bound r) :
    f.inside.scopes.isBound r = true := by
  have hr : r ∈ f.inside.scopes.current := by
    rw [hf.names, WrittenFunction.names, h]
    exact List.mem_append_right _ List.mem_cons_self
  simp [Scopes.isBound, hr]

end WrittenFunction

/-! ## References -/

/-- A reference to the parameter for the receiver, inside functions in the method. -/
structure ReceiverReference (ed : Edition) (f : WrittenFunction) (r : String) (c : Part)
    (around : List Enclosing) : Prop where
  /-- It stands inside these functions in the method. -/
  inside : Inside around c.spans f.inner
  /-- It is written as a variable. -/
  written : c.spans.Prints ed (Names.variableName r)
  /-- If that is the keyword, it is to the receiver unless a function around has one of its own. -/
  keyword : Names.variableName r = Script.thisWord →
    (f.RefersToReceiver r around (Names.variableName r) ↔ ∀ g ∈ around, g.form ≠ .block)
  /-- A reserved name is respelled where it is mentioned, but not where it is declared. -/
  respelled : Names.variableName r ≠ Script.thisWord → Names.variableName r ≠ r →
    ¬f.RefersToReceiver r around (Names.variableName r)
  /-- All other names are to the receiver unless something else is declared by them. -/
  declared : r ≠ Script.thisWord → Names.variableName r = r →
    (f.RefersToReceiver r around (Names.variableName r) ↔
      (∀ i ∈ declarations f.inner, i.text = r → i.IsOf r) ∧
      ∀ g ∈ around, ∀ i ∈ declarations g.inner, i.text ≠ r)
  /-- What is declared by the name is the name in the program, or synthesized, or a reserved name
  that is respelled. -/
  captured : ∀ g ∈ around, ∀ i ∈ declarations g.inner, i.text = r → ¬i.IsOf r →
    i.form = .synthesized ∨ i.form.respells = true ∧ Names.respelled? i.id = some r

theorem Introduction.of_text_eq {i : Introduction} (htext : i.text = r) (hof : ¬i.IsOf r) :
    i.form = .synthesized ∨ i.form.respells = true ∧ Names.respelled? i.id = some r := by
  unfold Introduction.text at htext
  by_cases hsynthesized : i.form = .synthesized
  · exact .inl hsynthesized
  have hid : i.id ≠ r := fun hid => hof ⟨hid, hsynthesized⟩
  split_ifs at htext with hrespells
  · refine .inr ⟨hrespells, ?_⟩
    unfold Names.variableName at htext
    cases hname : Names.respelled? i.id with
    | none => simp [hname, hid] at htext
    | some name => simpa [hname] using htext
  · exact absurd htext hid

theorem WrittenFunction.receiverReference {c : Part} {pos : Position}
    (ed : Edition) (hreceiver : f.receiver = .bound r) (hbound : f.inside.scopes.isBound r = true)
    (hc : c ∈ f.bodyParts) (hphrase : c.phrase = .expression (.name pos r)) :
    ∀ around ∈ c.copies, ReceiverReference ed f r c around := by
  intro around haround
  have hplace : c.place.scopes.isBound r = true := f.binds_bodyParts hbound c hc
  have haliases := f.aliases_eq hreceiver
  refine ⟨f.standsIn_bodyParts c hc around haround, ?_, ?_, ?_, ?_, ?_⟩
  · rw [Part.spans, hphrase, Phrase.spans, Expr.draft]
    simp [Draft.spans, Spans.Prints, Place.mention, Mention.text?, Expr.meaning?, hplace,
      Meaning.text?]
  · intro hthis
    rw [RefersToReceiver, if_pos hthis]
  · intro hthis hrespelled
    rw [RefersToReceiver, if_neg hthis, haliases]
    rintro ⟨halias, -⟩
    split_ifs at halias
    · cases halias
    · exact hrespelled (List.mem_singleton.mp halias)
  · intro hthis hname
    have hself : r ≠ Lowering.selfName := by
      rintro rfl
      exact absurd hname (by decide)
    rw [RefersToReceiver, hname, if_neg hthis, haliases, if_neg hself]
    simp
  · exact fun g _ i _ htext hof => Introduction.of_text_eq htext hof

/-- Every method stands in the text, and every reference to the parameter for its receiver is as
`ReceiverReference` says. -/
def SourceText.ResolvesReceivers (t : SourceText) (binding : Option Binding) (ed : Edition) :
    Prop :=
  ∀ c ∈ t.parts binding, c.copies ≠ [] → ∀ f ∈ c.phrase.methods c.place, ∀ r,
    f.receiver = .bound r →
    (∃ outer head, Inside outer (f.spans head) (t.spans binding)) ∧
      ∀ d ∈ f.bodyParts, ∀ pos, d.phrase = .expression (.name pos r) →
        ∀ around ∈ d.copies, ReceiverReference ed f r d around

theorem SourceText.resolvesReceivers (t : SourceText) (binding : Option Binding) (ed : Edition) :
    t.ResolvesReceivers binding ed := by
  intro c hc hcopies f hf r hreceiver
  constructor
  · exact SourceText.exists_method_inside hc hcopies hf
  · intro d hd pos hphrase
    exact f.receiverReference ed hreceiver
      ((Phrase.hasFrame_methods hf).isBound_receiver hreceiver) hd hphrase

/-- In every text of a unit or a bundle, the parameter for the receiver of a method is written
`this` or as the variable that the method declares. A reference to it in functions inside the method
is to the receiver of the method exactly if, in the first case, none of these functions has a block
of its own, and in the second case the name is not reserved and nothing else is declared by it. -/
theorem receiver_reference_iff (options : Options) :
    (∀ (unit : SourceUnit) (output : String), unit.compile options = .ok output →
      unit.TextsHave options output SourceText.ResolvesReceivers) ∧
    ∀ (bundle : Bundle) (output : String), bundle.compile options = .ok output →
      bundle.TextsHave options output SourceText.ResolvesReceivers :=
  textsHave (fun t binding ed _ _ => t.resolvesReceivers binding ed) options

def nestedSource : String :=
  "class A:\n    def m(self):\n        def g():\n            return self.x\n" ++
  "        return [self.y for i in g()]\n"

def nestedOutput : String :=
  "class A \x7b\n\x7d\nA.prototype.m = function() \x7b\n    function g() \x7b\n" ++
  "        return this.x;\n    \x7d\n" ++
    "    return [...(function* () \x7b for (const i of g()) \x7b yield this.y \x7d \x7d).call(this)];\n\x7d;\n" ++
    "A.m = function() \x7b\n    return A.prototype.m.apply(arguments[0], Array.prototype.slice.call(arguments, 1));\n" ++
    "\x7d;\n"

def nestedUnit : SourceUnit := ⟨nestedSource, none, .module⟩

def nestedBundle : Bundle := ⟨[(.element nestedSource none none none, none)], none⟩

/-- Whether a part is a name with a copy in functions that a test holds of. -/
def Part.mentionsIn (id : String) (test : List Enclosing → Bool) (c : Part) : Bool :=
  match c.phrase with
  | .expression (.name _ id') => id' == id && c.copies.any test
  | _ => false

/-- The reference in the function loses the receiver, and the one in the comprehension keeps it. -/
theorem nested_receiver_reference :
    (nestedUnit.compile {} = .ok nestedOutput ∧
    nestedUnit.TextsHave {} nestedOutput SourceText.ResolvesReceivers ∧
      ∃ c ∈ (SourceText.mk nestedSource .module nestedOutput).parts none, c.copies ≠ [] ∧
        ∃ f ∈ c.phrase.methods c.place, f.receiver = .bound "self" ∧
          (∃ d ∈ f.bodyParts, d.mentionsIn "self" (·.any (·.form == .block)) = true) ∧
          ∃ d ∈ f.bodyParts,
          d.mentionsIn "self" (fun around => !around.isEmpty && around.all (·.form != .block)) =
          true) ∧
    nestedBundle.compile {} = .ok nestedOutput ∧
    nestedBundle.TextsHave {} nestedOutput SourceText.ResolvesReceivers := by
  have hunit : nestedUnit.compile {} = .ok nestedOutput := by decide +kernel
  have hbundle : nestedBundle.compile {} = .ok nestedOutput := by decide +kernel
  refine ⟨⟨hunit, (receiver_reference_iff {}).1 nestedUnit _ hunit, ?_⟩,
    hbundle, (receiver_reference_iff {}).2 nestedBundle _ hbundle⟩
  have hany : ((SourceText.mk nestedSource .module nestedOutput).parts none).any
      (fun c => !c.copies.isEmpty &&
      (c.phrase.methods c.place).any (fun f => f.receiver == .bound "self" &&
        (f.bodyParts.any (·.mentionsIn "self" (·.any (·.form == .block))) &&
          f.bodyParts.any
          (·.mentionsIn "self"
          (fun around => !around.isEmpty && around.all (·.form != .block)))))) =
      true := by
    decide +kernel
  simpa only [List.any_eq_true, Bool.and_eq_true, Bool.not_eq_true', List.isEmpty_eq_false_iff,
    beq_iff_eq] using hany

/-- The function inside the method has a receiver of its own, so that `this` is another one
there. -/
theorem nested_function_loses_receiver :
    (SourceUnit.mk
    "class A:\n    def m(self):\n        def g():\n            return self.x\n        return g()\n"
    none
      .module).compile {} =
      .ok ("class A \x7b\n\x7d\nA.prototype.m = function() \x7b\n    function g() \x7b\n" ++
        "        return this.x;\n" ++
        "    \x7d\n    return g();\n\x7d;\nA.m = function() \x7b\n" ++
        "    return A.prototype.m.apply(arguments[0], " ++
        "Array.prototype.slice.call(arguments, 1));\n\x7d;\n") := by
  decide +kernel

end ScriptCompiler
