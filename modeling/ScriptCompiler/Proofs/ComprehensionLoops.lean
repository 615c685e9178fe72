import ScriptCompiler.Proofs.Shadowing

/-!
# Iterables of comprehensions

A loop of a comprehension is written with its variables and its iterable in one header, and the
variables are declared for the whole header. The iterable is lowered where only the variables of the
loops around are bound, so a name in it is captured by the loop if the loop declares it. This module
says which names these are.
-/

namespace ScriptCompiler

open Spans (Inside)

/-- A loop of a comprehension, with the loops of the clauses before it from the closest one on. -/
structure ClauseLoop where
  target : ClauseTarget
  iterable : Expr
  /-- Where the iterable is lowered. -/
  place : Place
  around : List ClauseTarget

/-- The loops among clauses. -/
def clauseLoops (p : Place) (around : List ClauseTarget) : List Clause → List ClauseLoop
  | [] => []
  | .loop _ _ target iterable :: rest =>
    ⟨target, iterable, p, around⟩ :: clauseLoops { p with scopes := target.boundIn p.scopes }
      (target :: around) rest
  | .guard _ :: rest => clauseLoops p around rest

/-- The loops of a comprehension, and the function that they stand in. -/
def Expr.clauseLoops? (p : Place) : Expr → Option (List ClauseLoop × Enclosing)
  | .comprehension _ _ body clauses =>
    some (clauseLoops (p.inFrame []) [] clauses,
      .generator (clauseSpans (p.inFrame []) clauses) (body.draft (p.inClauses clauses)).spans)
  | .dictComprehension _ key value clauses =>
    some (clauseLoops (p.inFrame []) [] clauses, .generator (clauseSpans (p.inFrame []) clauses)
      (Spans.brackets ((key.draft (p.inClauses clauses)).spans ++ .text ", " ::
      (value.draft (p.inClauses clauses)).spans)))
  | _ => none

/-- The names of variables of a comprehension clause. -/
def ClauseTarget.ids : ClauseTarget → List String
  | .name id => [id]
  | .names ids => ids
  | .foreign _ _ => []

/-- The identifiers that the header of a loop declares. -/
def ClauseTarget.declared (target : ClauseTarget) :
    List String := (declarations target.spans).map (·.text)

theorem ClauseTarget.declared_eq (target : ClauseTarget) :
    target.declared = target.ids.map Names.variableName := by
  cases target with
  | name id =>
    simp [declared, ids, spans, declarations_eq_filter, Introduction.text, BindingForm.respells]
  | names ids =>
    have hform : ∀ i ∈ ids.map (Introduction.mk .comprehended), decide (i.form ≠ .reassigned) =
        true := by simp
    have hintroduced : introduced (ClauseTarget.names ids).spans =
        ids.map (Introduction.mk .comprehended) := by
      rw [List.map_eq_flatMap]
      simp [spans, Spans.brackets, List.flatMap_map]
    rw [declared, declarations_eq_filter, hintroduced, List.filter_eq_self.mpr hform, List.map_map]
    rfl
  | foreign => rfl

namespace ClauseLoop

variable {l : ClauseLoop} {p : Place} {clauses : List Clause} {around : List ClauseTarget}

def iterableSpans (l : ClauseLoop) : Spans := (l.iterable.draft l.place).spans

def header (l : ClauseLoop) : Spans :=
  .text "for (const " :: l.target.spans ++ .text " of " :: l.iterableSpans ++ [.text ") \x7b "]

/-- Where the names in an iterable are looked up, apart from the variables of its own loop: the
variables of the loops around, what a generator has by itself, and the names of the functions
around. -/
def scopes (l : ClauseLoop) (outer : List Enclosing) : List (List String) :=
  l.around.map (·.declared) ++ FunctionForm.generator.ownNames :: outer.map (·.names)

theorem header_mem_clauseSpans (h : l ∈ clauseLoops p around clauses) :
    l.header ∈ clauseSpans p clauses := by
  fun_induction clauseLoops p around clauses with
  | case1 => cases h
  | case2 p around pos isAsync target iterable rest ih =>
    rcases List.mem_cons.mp h with rfl | h
    · exact List.mem_cons_self
    · exact List.mem_cons_of_mem _ (ih h)
  | case3 p around condition rest ih =>
    exact List.mem_cons_of_mem _ (ih h)

theorem inside_generator_header {value : Spans} (h : l ∈ clauseLoops p around clauses) :
    Inside [.generator (clauseSpans p clauses) value] l.header
    (Spans.generator (clauseSpans p clauses) value) := by
  obtain ⟨before, after, hsplit⟩ := List.append_of_mem (header_mem_clauseSpans h)
  have hopenings : Inside [] l.header (clauseSpans p clauses).flatten := by
    rw [hsplit, List.flatten_append, List.flatten_cons, ← List.append_assoc]
    exact .here _ _ _
  exact inside_generator (((hopenings.left _).left _).cons _)

end ClauseLoop

theorem Expr.inside_header {p : Place} {e : Expr} {loops : List ClauseLoop} {g : Enclosing}
    {l : ClauseLoop}
    (h : e.clauseLoops? p = some (loops, g)) (hl : l ∈ loops) :
    Inside [g] l.header (e.draft p).spans := by
  unfold Expr.clauseLoops? at h
  split at h
  · cases h
    exact (ClauseLoop.inside_generator_header hl).collected _
  · cases h
    exact ((ClauseLoop.inside_generator_header hl).cons _).left _
  · cases h

/-! ## Capture -/

def Script.scopesFrom (name : String) (scopes : List (List String)) : List (List String) :=
  scopes.dropWhile (name ∉ ·)

/-- The header of every loop stands in the text. A reference that is free in its iterable is to what
it would be to before the header exactly if the loop has no variable that is spelled like its
identifier. -/
def SourceText.ResolvesIterables (t : SourceText) (binding : Option Binding) (ed : Edition) :
    Prop :=
  ∀ c ∈ t.parts binding, ∀ e, c.phrase = .expression e →
    ∀ loops g, e.clauseLoops? c.place = some (loops, g) →
    ∀ l ∈ loops, ∀ outer ∈ c.copies,
      (∃ before target iterable after, l.target.spans.Prints ed target ∧
      l.iterableSpans.Prints ed iterable ∧
        t.text = before ++ ("for (const " ++ target ++ " of " ++ iterable ++ ") \x7b ") ++ after) ∧
      ∀ (within : List Enclosing) (m : Mention), Inside within [.mention m] l.iterableSpans →
        Inside (within ++ g :: outer) [.mention m] (t.spans binding) ∧
        ∃ text, m.text? ed.names = some text ∧
          ((∀ f ∈ within, Script.root text ∉ f.names) →
            (Script.scopesFrom (Script.root text)
            (within.map (·.names) ++ l.target.declared :: l.scopes outer) =
                Script.scopesFrom (Script.root text) (l.scopes outer) ↔
              ∀ id ∈ l.target.ids, Names.variableName id ≠ Script.root text))

theorem SourceText.resolvesIterables {t : SourceText} {binding : Option Binding} {ed : Edition}
    (h : t.PrintedIn binding ed) : t.ResolvesIterables binding ed := by
  intro c hc e hphrase loops g hloops l hl outer houter
  have hpart : Inside outer c.spans (t.spans binding) := SourceText.standsIn_parts hc outer houter
  have hspans : c.spans = (e.draft c.place).spans := by rw [Part.spans, hphrase, Phrase.spans]
  rw [hspans] at hpart
  have hheader : Inside (g :: outer) l.header (t.spans binding) :=
    (Expr.inside_header hloops hl).trans hpart
  refine ⟨?_, fun within m hm => ?_⟩
  · obtain ⟨before, text, after, htext, houter⟩ := hheader.exists_text h.printed
    simp only [Spans.Prints, ClauseLoop.header, List.cons_append, printAll?_cons, printAll?_append,
      printAll?_nil,
      Span.print?_text, Option.bind_eq_some_iff, Option.map_eq_some_iff] at htext
    obtain ⟨_, ⟨⟩, _,
        ⟨_, ⟨target, htarget, _, ⟨_, ⟨⟩, iterable, hiterable, rfl⟩, rfl⟩, _,
        ⟨_, ⟨⟩, _, ⟨⟩, rfl⟩, rfl⟩,
      rfl⟩ := htext
    exact ⟨before, target, iterable, after, htarget, hiterable, by
      simpa [String.append_assoc] using houter⟩
  · have hiterable : Inside [] l.iterableSpans l.header := (((Inside.refl _).cons _).right _).left _
    have hmention : Inside (within ++ g :: outer) [.mention m] (t.spans binding) :=
      hm.trans (hiterable.within hheader)
    obtain ⟨-, text, -, hprints, -⟩ := hmention.exists_text h.printed
    refine ⟨hmention, text, by simpa [Spans.Prints] using hprints, fun hfree => ?_⟩
    rw [Script.scopesFrom, Script.scopesFrom, List.dropWhile_append_of_pos (by simpa using hfree),
      dropWhile_cons_eq_iff,
      ClauseTarget.declared_eq]
    simp

/-- In every text of a unit or a bundle, a name in the iterable of a comprehension is looked up in
the header of its own loop first. It keeps its meaning exactly if no variable of the loop is spelled
like it. -/
theorem iterable_resolves_before_header_iff (options : Options) :
    (∀ (unit : SourceUnit) (output : String), unit.compile options = .ok output →
      unit.TextsHave options output SourceText.ResolvesIterables) ∧
    ∀ (bundle : Bundle) (output : String), bundle.compile options = .ok output →
      bundle.TextsHave options output SourceText.ResolvesIterables :=
  textsHave (fun _ _ _ hprinted _ => SourceText.resolvesIterables hprinted) options

def iterableSource : String :=
  "class A:\n    def f(self, x):\n        return \x7bx: y for x in x for y, z in x if z\x7d\n"

def iterableOutput : String :=
  "class A \x7b\n\x7d\nA.prototype.f = function(x) \x7b\n" ++
  "    return Object.fromEntries([...(function* () \x7b " ++
    "for (const x of x) \x7b for (const [y, z] of x) \x7b if (z) \x7b yield [x, y] \x7d \x7d \x7d \x7d).call(this)]);\n" ++
    "\x7d;\nA.f = function() \x7b\n" ++
    "    return A.prototype.f.apply(arguments[0], Array.prototype.slice.call(arguments, 1));\n\x7d;\n"

def iterableUnit : SourceUnit := ⟨iterableSource, none, .module⟩

def iterableBundle : Bundle := ⟨[(.element iterableSource none none none, none)], none⟩

theorem iterable_resolves_in_second_loop :
    (iterableUnit.compile {} = .ok iterableOutput ∧
      iterableUnit.TextsHave {} iterableOutput SourceText.ResolvesIterables ∧
      (((SourceText.mk iterableSource .module iterableOutput).parts none).flatMap fun c =>
      match c.phrase with
        | .expression e => (e.clauseLoops? c.place).toList.flatMap fun g => g.1.map fun l =>
          (l.target.ids, l.scopes [])
        | .statement _ => []) = [(["x"], [["arguments"]]), (["y", "z"], [["x"], ["arguments"]])]) ∧
    iterableBundle.compile {} = .ok iterableOutput ∧
      iterableBundle.TextsHave {} iterableOutput SourceText.ResolvesIterables := by
  have hunit : iterableUnit.compile {} = .ok iterableOutput := by decide +kernel
  have hbundle : iterableBundle.compile {} = .ok iterableOutput := by decide +kernel
  exact ⟨⟨hunit, (iterable_resolves_before_header_iff {}).1 iterableUnit _ hunit, by
    decide +kernel⟩,
    hbundle, (iterable_resolves_before_header_iff {}).2 iterableBundle _ hbundle⟩

/-- The iterable is the variable of the loop, which has no value yet. -/
theorem iterable_captured_by_target :
    (SourceUnit.mk "[x for x in x]\n" none .module).compile {} =
      .ok "[...(function* () \x7b for (const x of x) \x7b yield x \x7d \x7d).call(this)];\n" := by
  decide +kernel

end ScriptCompiler
