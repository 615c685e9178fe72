import ScriptCompiler.Proofs.Receivers
import ScriptCompiler.Proofs.Elementary

/-!
# Names that functions capture

An expression is lowered in the frames around it, but its text may stand inside a function that is
not among them: the defaults of parameters stand in the function that has the parameters, and the
bounds of a range in the function that counts. A script looks names up from the innermost function
on, so a name in such a text is captured if that function binds it. This module says which names
these are.
-/

namespace ScriptCompiler

open Spans (Inside)

/-- The identifier that a reference begins with. -/
def Script.root (text : String) : String := String.ofList (text.toList.takeWhile (· ≠ '.'))

/-- The names that a function has without declaring them. -/
def FunctionForm.ownNames : FunctionForm → List String
  | .block => [Script.thisWord, "arguments"]
  | .generator => ["arguments"]
  | .arrow => []

namespace Enclosing

variable {name : String} {g : Enclosing} {within outer : List Enclosing}

/-- The names that a function binds for all that stands in it. -/
def names (g : Enclosing) : List String := g.form.ownNames ++ (declarations g.inner).map (·.text)

/-- The functions around a place, from the one on that binds a name. -/
def binders (name : String) (around : List Enclosing) :
    List Enclosing := around.dropWhile (name ∉ ·.names)

theorem binders_append (h : ∀ g ∈ within, name ∉ g.names) :
    binders name (within ++ outer) = binders name outer :=
  List.dropWhile_append_of_pos (by simpa using h)

theorem binders_cons_eq_iff : binders name (g :: outer) = binders name outer ↔ name ∉ g.names := by
  rw [binders, binders, dropWhile_cons_eq_iff, decide_eq_true_iff]

end Enclosing

/-- Spans of the frames outside of a function that stand inside it. What they refer to is looked up
in the function, too. -/
structure Spans.MovedInto (ed : Edition) (g : Enclosing) (outer : List Enclosing) (xs ys : Spans) :
    Prop where
  inside : Inside (g :: outer) xs ys
  /-- A reference that is free in the spans is to what it would be to outside of the function
  exactly if the function does not bind its identifier. -/
  resolved : ∀ (within : List Enclosing) (m : Mention), Inside within [.mention m] xs →
    Inside (within ++ g :: outer) [.mention m] ys ∧ ∃ text, m.text? ed.names = some text ∧
      ((∀ h ∈ within, Script.root text ∉ h.names) →
        (Enclosing.binders (Script.root text) (within ++ g :: outer) =
        Enclosing.binders (Script.root text) outer ↔
          Script.root text ∉ g.names))

variable {ed : Edition}

theorem Spans.Inside.movedInto {g : Enclosing} {outer : List Enclosing} {xs ys : Spans}
    {text : String}
    (h : Inside (g :: outer) xs ys) (htext : ys.Prints ed text) : MovedInto ed g outer xs ys := by
  refine ⟨h, fun within m hm => ?_⟩
  have hinside : Inside (within ++ g :: outer) [.mention m] ys := hm.trans h
  obtain ⟨-, text, -, hprints, -⟩ := hinside.exists_text htext
  refine ⟨hinside, text, by simpa [Spans.Prints] using hprints, fun hfree => ?_⟩
  rw [Enclosing.binders_append hfree, Enclosing.binders_cons_eq_iff]

/-! ## Defaults of parameters -/

/-- A function binds its parameters, the variable for its receiver, and what its body declares. -/
theorem WrittenFunction.mem_names_enclosing {f : WrittenFunction} {name : String} :
    name ∈ f.enclosing.names ↔ name ∈ FunctionForm.block.ownNames ∨
    name ∈ declaredNames f.parameters ∨
      name ∈ f.aliases ∨ ∃ i ∈ declarations (blockSpans f.inside f.body), i.text = name := by
  have hinner :
      ∀ i, i ∈ declarations f.inner ↔
      (∃ name ∈ declaredNames f.parameters, i = ⟨.parameter, name⟩) ∨
      i ∈ declarations (Spans.receiverLine (f.depth + 1) f.receiver) ∨
      i ∈ declarations (blockSpans f.inside f.body) := by
    rw [declarations_eq_filter, declarations_eq_filter, declarations_eq_filter, inner_eq,
      introduced_append,
      introduced_append, introduced_margin, introduced_text, introduced_nil, List.append_nil]
    simp only [List.mem_filter, List.mem_append, mem_introduced_prologue]
    grind
  have htext : ∀ id, (Introduction.mk .parameter id).text = id := fun _ => rfl
  simp only [Enclosing.names, enclosing, aliases, List.mem_append, List.mem_map, hinner]
  grind

/-- Every default stands in the function that has its parameter, and its names are captured as
`MovedInto` says. -/
def SourceText.ResolvesDefaults (t : SourceText) (binding : Option Binding) (ed : Edition) : Prop :=
  ∀ f ∈ t.functions binding,
    (∀ name, name ∈ f.enclosing.names ↔ name ∈ FunctionForm.block.ownNames ∨
    name ∈ declaredNames f.parameters ∨
      name ∈ f.aliases ∨ ∃ i ∈ declarations (blockSpans f.inside f.body), i.text = name) ∧
    ∃ outer head, Inside outer (f.spans head) (t.spans binding) ∧
      ∀ e ∈ defaultValues f.parameters, Spans.MovedInto ed f.enclosing outer
      (e.draft f.outside).spans (t.spans binding)

theorem SourceText.resolvesDefaults {t : SourceText} {binding : Option Binding}
    (h : t.PrintedIn binding ed) : t.ResolvesDefaults binding ed := by
  intro f hf
  obtain ⟨outer, head, hfunction⟩ := SourceText.exists_function_inside hf
  refine ⟨fun name => WrittenFunction.mem_names_enclosing, outer, head, hfunction, fun e he => ?_⟩
  have hpart : e.partIn f.enclosing f.outside ∈ f.parts :=
    List.mem_append_right _ (List.mem_append_left _ (List.mem_map_of_mem he))
  have hdefault : Inside [f.enclosing] (e.draft f.outside).spans (f.spans head) :=
    f.standsIn_parts head _ hpart _ List.mem_cons_self
  exact Inside.movedInto (hdefault.trans hfunction) h.printed

/-- In every text of a unit or a bundle, a default of a parameter is lowered outside of the function
and written inside it. A name in it is to what it would be to outside exactly if it is none of the
parameters, not the variable for the receiver, nothing that the body declares, and not one of the
names that all functions have. -/
theorem default_resolves_outside_iff (options : Options) :
    (∀ (unit : SourceUnit) (output : String), unit.compile options = .ok output →
      unit.TextsHave options output SourceText.ResolvesDefaults) ∧
    ∀ (bundle : Bundle) (output : String), bundle.compile options = .ok output →
      bundle.TextsHave options output SourceText.ResolvesDefaults :=
  textsHave (fun _ _ _ hprinted _ => SourceText.resolvesDefaults hprinted) options

def defaultSource : String := "class A:\n    def f(self, x, y=x, z=abs(max)):\n        return y\n"

def defaultOutput : String :=
  "class A \x7b\n\x7d\nA.prototype.f = function(x, y, z) \x7b\n" ++
  "    y = typeof(y) != 'undefined' ? y : x;\n" ++
    "    z = typeof(z) != 'undefined' ? z : abs(py_builtins.max);\n    return y;\n\x7d;\n" ++
    "A.f = function() \x7b\n" ++
    "    return A.prototype.f.apply(arguments[0], Array.prototype.slice.call(arguments, 1));\n\x7d;\n"

def defaultUnit : SourceUnit := ⟨defaultSource, none, .module⟩

def defaultBundle : Bundle := ⟨[(.element defaultSource none none none, none)], none⟩

theorem default_resolves_outside_capturing :
    (defaultUnit.compile {} = .ok defaultOutput ∧
      defaultUnit.TextsHave {} defaultOutput SourceText.ResolvesDefaults ∧
      ∃ f ∈ (SourceText.mk defaultSource .module defaultOutput).functions none,
      (defaultValues f.parameters).length = 2 ∧
        "x" ∈ f.enclosing.names ∧ Script.root "py_builtins.max" ∉ f.enclosing.names) ∧
    defaultBundle.compile {} = .ok defaultOutput ∧
      defaultBundle.TextsHave {} defaultOutput SourceText.ResolvesDefaults := by
  have hunit : defaultUnit.compile {} = .ok defaultOutput := by decide +kernel
  have hbundle : defaultBundle.compile {} = .ok defaultOutput := by decide +kernel
  refine ⟨⟨hunit, (default_resolves_outside_iff {}).1 defaultUnit _ hunit, ?_⟩,
    hbundle, (default_resolves_outside_iff {}).2 defaultBundle _ hbundle⟩
  have hany : ((SourceText.mk defaultSource .module defaultOutput).functions none).any (fun f =>
      (defaultValues f.parameters).length == 2 &&
        (decide ("x" ∈ f.enclosing.names) &&
        decide (Script.root "py_builtins.max" ∉ f.enclosing.names))) = true := by
    decide +kernel
  simpa only [List.any_eq_true, Bool.and_eq_true, beq_iff_eq, decide_eq_true_eq] using hany

/-- The default is the parameter of the same name, and not the variable outside. -/
theorem default_captured_by_parameter :
    (SourceUnit.mk "x = 1\ndef f(x, y=x):\n    return y\n" none .module).compile {} =
      .ok ("var x = 1;\nfunction f(x, y) \x7b\n    y = typeof(y) != 'undefined' ? y : x;\n" ++
        "    return y;\n\x7d\n") := by
  decide +kernel

end ScriptCompiler
