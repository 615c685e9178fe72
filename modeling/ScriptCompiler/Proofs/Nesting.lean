import ScriptCompiler.Proofs.StatementDraft

/-!
# Nesting of drafts

Where a draft stands in another one, and which functions of the script are around it there. What
stands in a draft stands in its text, too. Functions differ in what they do to the receiver of the
function around them: only those that are written with a block of their own have another one.
-/

namespace ScriptCompiler

/-- The forms of functions in a script. -/
inductive FunctionForm where
  /-- A function with a receiver of its own. -/
  | block
  /-- An arrow function. It has the receiver of the function around it. -/
  | arrow
  /-- A generator that is called at once on the receiver of the function around it. -/
  | generator
deriving DecidableEq, Repr

/-- A function around a place of a draft. -/
structure Enclosing where
  form : FunctionForm
  inner : Spans

/-- How a function is written, between what stands before and behind it. -/
inductive Enclosing.Written : Spans → Enclosing → Spans → Prop
  | block (before : Spans) (formals : List Spans.Formal) (rest after : Spans) :
      Written before ⟨.block, Spans.signature formals ++ .text " \x7b" :: rest⟩ after
  | arrow (before parameters body after : Spans) :
      Written before ⟨.arrow, Spans.parens parameters ++ .text " => " :: body⟩ after
  | counter (before parameters body after : Spans) :
      Written before ⟨.arrow, .text "(" :: parameters ++ .text ") => " :: body⟩ after
  | generator (before body after : Spans) :
      Written (before ++ [.text "("]) ⟨.generator, .text "function* () \x7b " :: body⟩
      (.text ").call(this)" :: after)

theorem Enclosing.Written.append {before after : Spans} {f : Enclosing} (h : Written before f after)
    (xs ys : Spans) : Written (xs ++ before) f (after ++ ys) := by
  cases h with
  | block _ formals rest _ => exact .block _ formals rest _
  | arrow _ parameters body _ => exact .arrow _ parameters body _
  | counter _ parameters body _ => exact .counter _ parameters body _
  | generator before body after =>
    rw [← List.append_assoc]
    exact .generator (xs ++ before) body (after ++ ys)

namespace Spans

/-- Spans stand in others, in functions that are listed from the innermost one on. -/
inductive Inside : List Enclosing → Spans → Spans → Prop
  | here (before xs after : Spans) : Inside [] xs (before ++ xs ++ after)
  | guarded {around : List Enclosing} {xs inner : Spans} (before after : Spans)
      (h : Inside around xs inner) :
      Inside around xs (before ++ .guarded inner :: after)
  | function {around : List Enclosing} {xs before after : Spans} {f : Enclosing}
      (hf : f.Written before after)
      (h : Inside around xs f.inner) :
      Inside (around ++ [f]) xs (before ++ .function f.inner :: after)

namespace Inside

variable {around around' : List Enclosing} {xs ys zs : Spans}

theorem refl (xs : Spans) : Inside [] xs xs := by
  simpa using here [] xs []

theorem between (before after : Spans) (h : Inside around xs ys) :
    Inside around xs (before ++ ys ++ after) := by
  cases h with
  | here before' _ after' => simpa using here (before ++ before') xs (after' ++ after)
  | guarded before' after' h => simpa using guarded (before ++ before') (after' ++ after) h
  | function hf h => simpa using function (hf.append before after) h

theorem right (before : Spans) (h : Inside around xs ys) : Inside around xs (before ++ ys) := by
  simpa using h.between before []

theorem left (after : Spans) (h : Inside around xs ys) :
    Inside around xs (ys ++ after) := h.between [] after

theorem cons (s : Span) (h : Inside around xs ys) : Inside around xs (s :: ys) := h.right [s]

theorem trans (h : Inside around xs ys) (h' : Inside around' ys zs) :
    Inside (around ++ around') xs zs := by
  induction h' with
  | here before ys after =>
    rw [List.append_nil]
    exact h.between before after
  | guarded before after _ ih => exact guarded before after (ih h)
  | function hf _ ih =>
    rw [← List.append_assoc]
    exact function hf (ih h)

theorem within (h : Inside [] xs ys) (h' : Inside around ys zs) : Inside around xs zs := h.trans h'

theorem exists_text {ed : Edition} (h : Inside around xs ys) :
    ∀ {text : String}, ys.Prints ed text →
    ∃ before inner after, xs.Prints ed inner ∧ text = before ++ inner ++ after := by
  induction h with
  | here before xs after =>
    intro text htext
    simp only [Prints, printAll?_append, Option.bind_eq_some_iff, Option.map_eq_some_iff] at htext
    obtain ⟨_, ⟨left, -, inner, hinner, rfl⟩, right, -, rfl⟩ := htext
    exact ⟨left, inner, right, hinner, rfl⟩
  | guarded before after _ ih =>
    intro text htext
    simp only [Prints, printAll?_append, printAll?_cons, Span.print?_guarded,
      Option.bind_eq_some_iff,
      Option.map_eq_some_iff] at htext
    obtain ⟨left, -, _, ⟨_, ⟨middle, hmiddle, rfl⟩, right, -, rfl⟩, rfl⟩ := htext
    obtain ⟨before', inner, after', hinner, rfl⟩ := ih hmiddle
    -- The parentheses around a number belong to what stands around.
    unfold Script.guarded
    split_ifs
    · exact ⟨left ++ "(" ++ before', inner, after' ++ ")" ++ right, hinner, by
        simp only [Script.parens, String.append_assoc]⟩
    · exact ⟨left ++ before', inner, after' ++ right, hinner, by simp only [String.append_assoc]⟩
  | function _ _ ih =>
    intro text htext
    simp only [Prints, printAll?_append, printAll?_cons, Span.print?_function,
      Option.bind_eq_some_iff,
      Option.map_eq_some_iff] at htext
    obtain ⟨left, -, _, ⟨middle, hmiddle, right, -, rfl⟩, rfl⟩ := htext
    obtain ⟨before', inner, after', hinner, rfl⟩ := ih hmiddle
    exact ⟨left ++ before', inner, after' ++ right, hinner, by simp only [String.append_assoc]⟩

/-! ## In what spans are put together to -/

theorem braces (h : Inside around xs ys) : Inside around xs (Spans.braces ys) := (h.cons _).left _

theorem brackets (h : Inside around xs ys) :
    Inside around xs (Spans.brackets ys) := (h.cons _).left _

theorem line (depth : Nat) (h : Inside around xs ys) :
    Inside around xs (Spans.line depth ys) := (h.cons _).left _

theorem collected (form : ComprehensionForm) (h : Inside around xs ys) :
    Inside around xs (Spans.collected form ys) := by
  cases form with
  | set => exact (h.cons _).left _
  | list | generator => exact (h.cons _).brackets

end Inside

end Spans

end ScriptCompiler
