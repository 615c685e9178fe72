import ScriptCompiler.Proofs.Capture
import ScriptCompiler.Proofs.Copies

/-!
# Frames of functions

Every function that is written as statements has a frame of its own. From the start the frame has
the names of the parameters and of the receiver, and of the frames around it nothing. What the
function declares are its parameters, the variable for its receiver, and what its body declares: the
defaults of the parameters, as all expressions, introduce no names outside of the functions in them.
-/

namespace ScriptCompiler

open Spans (Inside)

@[simp] theorem Expr.introduced_draft (p : Place) (e : Expr) : introduced (e.draft p).spans = [] :=
  (e.made (A := False) p).bare rfl

section Introduced

variable (xs : Spans)

@[simp] theorem introduced_margin (depth : Nat) :
    introduced (.margin depth :: xs) = introduced xs := by
  rw [introduced, Span.introduced, List.nil_append]

@[simp] theorem introduced_introduction (i : Introduction) :
    introduced (.introduction i :: xs) = i :: introduced xs := by
  rw [introduced, Span.introduced, List.singleton_append]

@[simp] theorem introduced_line (depth : Nat) :
    introduced (Spans.line depth xs) = introduced xs := by
  simp [Spans.line]

@[simp] theorem introduced_commas (xss : List Spans) :
    introduced (Spans.commas xss) = xss.flatMap introduced := by
  unfold Spans.commas
  induction xss with
  | nil => simp
  | cons first rest ih => cases rest <;> simp_all [List.intercalate_cons_cons]

end Introduced

mutual

theorem Span.declarations_eq_filter :
    ∀ s : Span, s.declarations = s.introduced.filter (·.form ≠ .reassigned)
  | .introduction i => by
    rw [Span.declarations, Span.introduced]
    by_cases h : i.form = .reassigned <;> simp [h]
  | .guarded inner => by
    exact declarations_eq_filter inner
  | .text _ | .margin _ | .mention _ | .function _ => by
    rw [Span.declarations, Span.introduced, List.filter_nil]

theorem declarations_eq_filter :
    ∀ xs : Spans, declarations xs = (introduced xs).filter (·.form ≠ .reassigned)
  | [] => by rw [declarations, introduced, List.filter_nil]
  | s :: rest => by
    rw [declarations, introduced, List.filter_append, Span.declarations_eq_filter s,
      declarations_eq_filter rest]

end

theorem mem_current_registerAll {id : String} {names : List String} {scopes : Scopes} :
    id ∈ (scopes.registerAll names).current ↔ id ∈ names ∨ id ∈ scopes.current := by
  induction names generalizing scopes with
  | nil => simp [Scopes.registerAll]
  | cons name rest ih =>
    have hstep : scopes.registerAll (name :: rest) = (scopes.register name).registerAll rest := rfl
    rw [hstep, Scopes.register]
    split_ifs with hdeclared
    · have hname : name ∈ scopes.current := by simpa [Scopes.isDeclaredHere] using hdeclared
      grind
    · grind

namespace WrittenFunction

/-- The names that the frame of a function has from the start. -/
def names (f : WrittenFunction) : List String := declaredNames f.parameters ++ f.receiver.boundNames

/-- What stands in a function before its body. -/
def prologue (f : WrittenFunction) : Spans :=
  Spans.signature (formalSpans f.outside f.parameters) ++ .text " \x7b" :: .text "\n" ::
    ((formalSpans f.outside f.parameters).flatMap (Spans.defaultLine (f.depth + 1)) ++
      Spans.receiverLine (f.depth + 1) f.receiver)

theorem inner_eq (f : WrittenFunction) :
    f.inner = f.prologue ++ blockSpans f.inside f.body ++ [.margin f.depth, .text f.closer] := by
  simp [inner, prologue]

theorem introduced_signature (formals : List Spans.Formal) :
    introduced (Spans.signature formals) = (formals.map (·.name)).map (⟨.parameter, ·⟩) := by
  induction formals with
  | nil => simp [Spans.signature, Spans.parens]
  | cons formal rest ih => simpa [Spans.signature, Spans.parens, Spans.parameter] using ih

/-- The lines for the defaults introduce the parameters once more. -/
theorem mem_introduced_defaultLines {p : Place} {parameters : List Parameter} {depth : Nat}
    {i : Introduction}
    (h : i ∈ introduced ((formalSpans p parameters).flatMap (Spans.defaultLine depth))) :
    ∃ name ∈ declaredNames parameters, i = ⟨.parameter, name⟩ := by
  fun_induction declaredNames parameters with
  | case1 | case4 => simp [formalSpans] at h
  | case2 name rest ih => simp_all [formalSpans, Spans.defaultLine]
  | case3 name value rest ih =>
    have h : i = ⟨.parameter, name⟩ ∨
        i ∈ introduced ((formalSpans p rest).flatMap (Spans.defaultLine depth)) := by
      simpa [formalSpans, Spans.defaultLine, Spans.parameter] using h
    grind

theorem mem_introduced_prologue {f : WrittenFunction} {i : Introduction} :
    i ∈ introduced f.prologue ↔
      (∃ name ∈ declaredNames f.parameters, i = ⟨.parameter, name⟩) ∨
        i ∈ introduced (Spans.receiverLine (f.depth + 1) f.receiver) := by
  have hdefaults :
      i ∈ introduced
      ((formalSpans f.outside f.parameters).flatMap (Spans.defaultLine (f.depth + 1))) →
      ∃ name ∈ declaredNames f.parameters, i = ⟨.parameter, name⟩ := mem_introduced_defaultLines
  rw [prologue, introduced_append, introduced_signature, names_formalSpans, introduced_text,
    introduced_text,
    introduced_append]
  grind

/-- The frame of a function has the names of the parameters and of the receiver, and is in no
class. -/
structure HasFrame (f : WrittenFunction) : Prop where
  names : ∀ id, id ∈ f.inside.scopes.current ↔ id ∈ f.names
  inClass : f.inside.inClass = false

theorem mem_current_inFunction {p : Place} {names : List String} {id : String} :
    id ∈ (p.inFunction names).scopes.current ↔ id ∈ names := by
  have hpush : id ∉ p.scopes.push.current := List.not_mem_nil
  exact mem_current_registerAll.trans (or_iff_left hpush)

theorem declaredNames_rest (parameters : List Parameter) :
    declaredNames (Parameter.rest parameters) = (declaredNames parameters).tail := by
  cases parameters with
  | nil => rfl
  | cons first rest => cases first <;> rfl

theorem hasFrame_free (depth : Nat) (p : Place) (parameters : List Parameter) (body : List Stmt) :
    (free depth p parameters body).HasFrame := by
  have hnames :
      (free depth p parameters body).names = ScriptCompiler.withoutSelf
      (declaredNames parameters) := by
    rw [free, Parameter.startsWithSelf]
    split_ifs with hself
    · cases hdeclared : declaredNames parameters <;>
        simp_all [names, declaredNames_rest, ScriptCompiler.withoutSelf,
        Lowering.Receiver.boundNames]
    · cases hdeclared : declaredNames parameters <;>
        simp_all [names, ScriptCompiler.withoutSelf, Lowering.Receiver.boundNames]
  refine ⟨fun id => ?_, ?_⟩
  · rw [hnames, free]
    split_ifs <;> exact mem_current_inFunction
  · rw [free]
    split_ifs <;> rfl

theorem hasFrame_static (p : Place) (parameters : List Parameter) (body : List Stmt) :
    (static p parameters body).HasFrame := by
  refine ⟨fun id => mem_current_inFunction.trans ?_, rfl⟩
  simp [names, static, Lowering.Receiver.boundNames]

theorem hasFrame_method (closer : String) (p : Place) (parameters : List Parameter)
    (body : List Stmt) :
    (method closer p parameters body).HasFrame := by
  refine ⟨fun id => mem_current_inFunction.trans ?_, rfl⟩
  rw [names, method, Parameter.receiver, declaredNames_rest]
  cases declaredNames parameters <;> simp [receiverLast, Lowering.Receiver.boundNames]

theorem hasFrame_nativeFunctions {p : Place} {body : List Stmt} :
    ∀ f ∈ nativeFunctions p body, f.HasFrame := by
  fun_induction nativeFunctions p body with
  | case1 => exact List.forall_mem_nil _
  | case2 p decorators pos isAsync namePos name parameters body rest hnative ih =>
    rw [List.forall_mem_cons]
    exact ⟨hasFrame_method _ p parameters body, ih⟩
  | case3 p decorators pos isAsync namePos name parameters body rest hnative ih => exact ih
  | case4 p s rest hother ih => exact ih

end WrittenFunction

/-- The functions that a phrase is written as: one that stands on its own or is assigned to the
prototype of its class, or those that a class has between its braces. -/
def Phrase.methods (p : Place) : Phrase → List WrittenFunction
  | .statement (.function decorators d) => (d.written? p decorators).toList
  | .statement (.classDef _ (.mk _ _ name _ body)) => nativeFunctions (p.register name).deeper body
  | _ => []

section Methods

variable {p : Place} {x : Phrase} {f : WrittenFunction}

theorem Phrase.hasFrame_methods (hf : f ∈ x.methods p) : f.HasFrame := by
  unfold Phrase.methods at hf
  split at hf
  · rename_i decorators d
    obtain ⟨pos, isAsync, namePos, name, parameters, body⟩ := d
    rw [Option.mem_toList, FunctionDef.written?] at hf
    split at hf
    · obtain rfl := Option.some_inj.mp hf
      exact WrittenFunction.hasFrame_free ..
    · split at hf
      · cases hf
      · obtain rfl := Option.some_inj.mp hf
        exact WrittenFunction.hasFrame_static ..
      · obtain rfl := Option.some_inj.mp hf
        exact WrittenFunction.hasFrame_method ..
  · exact WrittenFunction.hasFrame_nativeFunctions f hf
  · cases hf

/-- A method stands in the phrase that is written as it. -/
theorem Phrase.exists_method_inside (hf : f ∈ x.methods p) :
    ∃ head, Inside [] (f.spans head) (x.spans p) := by
  unfold Phrase.methods at hf
  split at hf
  · obtain ⟨head, tail, hspans⟩ := FunctionDef.exists_spans (Option.mem_toList.mp hf)
    rw [Phrase.spans, hspans]
    exact ⟨head, (Inside.refl _).left tail⟩
  · obtain ⟨head, hnative⟩ := exists_native_inside hf
    exact ⟨head, ((hnative.right _).left _).left _⟩
  · cases hf

end Methods

namespace SourceText

variable {t : SourceText} {binding : Option Binding} {f : WrittenFunction}

def functions (t : SourceText) (binding : Option Binding) : List WrittenFunction :=
  (match t.entry, firstFunction? t.program with
    | .callable _, some d => [.free 0 (.start binding) d.parameters d.body]
    | _, _ => []) ++
  ((t.parts binding).filter (!·.copies.isEmpty)).flatMap fun c => c.phrase.methods c.place

/-- The methods of a part with copies stand in the text. -/
theorem exists_method_inside {c : Part} (hc : c ∈ t.parts binding) (hcopies : c.copies ≠ [])
    (hf : f ∈ c.phrase.methods c.place) : ∃ outer head,
    Inside outer (f.spans head) (t.spans binding) := by
  obtain ⟨outer, rest, hcopies⟩ := List.exists_cons_of_ne_nil hcopies
  have hpart : Inside outer c.spans (t.spans binding) :=
    SourceText.standsIn_parts hc outer (hcopies ▸ List.mem_cons_self)
  obtain ⟨head, hmethod⟩ := Phrase.exists_method_inside hf
  exact ⟨outer, head, hmethod.within hpart⟩

theorem exists_function_inside (hf : f ∈ t.functions binding) :
    ∃ outer head, Inside outer (f.spans head) (t.spans binding) := by
  rcases List.mem_append.mp hf with hf | hf
  · split at hf
    · rename_i name d hentry hfirst
      obtain rfl := List.mem_singleton.mp hf
      rw [SourceText.spans, hentry, programSpans, hfirst]
      dsimp only
      rw [Spans.namedFunction, ← WrittenFunction.free_spans]
      exact ⟨[], _, .refl _⟩
    · cases hf
  · obtain ⟨c, hc, hf⟩ := List.mem_flatMap.mp hf
    obtain ⟨hc, hcopies⟩ := List.mem_filter.mp hc
    exact exists_method_inside hc (by simpa using hcopies) hf

end SourceText

end ScriptCompiler
