import ScriptCompiler.Proofs.NameResolution

/-!
# How names are spelled

References to a variable respell a reserved identifier. So do assignments, loops and comprehensions
where they introduce it; parameters, receivers, functions and classes keep its spelling, and so does
the base of a class. The spelling of a variable is the same everywhere if its name is not reserved.
-/

namespace ScriptCompiler

variable {name : String} {i : Introduction}

/-- A respelled identifier differs from the reserved one. -/
theorem Names.ne_of_respelled? {spelling : String} (h : respelled? name = some spelling) :
    spelling ≠ name := by
  have hdiffer : ∀ entry ∈ reserved, entry.2 ≠ entry.1 := by decide
  obtain ⟨before, after, hreserved, -⟩ := List.lookup_eq_some_iff.mp h
  refine hdiffer (name, spelling) ?_
  rw [hreserved]
  exact List.mem_append_right _ List.mem_cons_self

theorem Names.variableName_eq_iff : variableName name = name ↔ respelled? name = none := by
  unfold variableName
  constructor
  · intro heq
    cases hspelling : respelled? name with
    | none => rfl
    | some spelling =>
      rw [hspelling] at heq
      exact absurd heq (ne_of_respelled? hspelling)
  · intro hnone
    rw [hnone]
    rfl

/-- A reference is spelled as an introduction of its name unless a reserved identifier is introduced
as it is. -/
theorem Introduction.variableName_eq_text_iff :
    Names.variableName i.id = i.text ↔ i.form.respells = true ∨ Names.respelled? i.id = none := by
  unfold Introduction.text
  by_cases hrespells : i.form.respells = true
  · simp [hrespells]
  · simp [hrespells, Names.variableName_eq_iff]

theorem Introduction.id_eq_text_iff :
    i.id = i.text ↔ i.form.respells = false ∨ Names.respelled? i.id = none := by
  unfold Introduction.text
  by_cases hrespells : i.form.respells = true
  · rw [if_pos hrespells, eq_comm, Names.variableName_eq_iff]
    simp [hrespells]
  · simp [hrespells]

namespace SourceText

/-- A name is introduced as the form of its binding says, and the places that refer to it agree with
that exactly if the form respells, or there is nothing to respell. -/
structure SpelledByForm (t : SourceText) (binding : Option Binding) (names : List (Nat × String)) :
    Prop where
  /-- A name that the program binds is introduced, unless its function has bound it before, or it is
  a receiver that needs no variable, or the parameters are not wanted. -/
  bound : ∀ (before : NameTrace) form id after, t.trace = before ++ .bind form id :: after →
    .introduction ⟨form, id⟩ ∈ allMarks (t.spans binding) ∨ form = .declared ∧ before.BindsAt 0 id ∨
      form = .receiver ∧ id = Lowering.selfName ∨ form = .parameter ∧ t.entry = .body
  /-- A name that the text introduces is bound in the program, assigned to or synthesized, or the
  callable is written under it. -/
  introduced : ∀ i, .introduction i ∈ allMarks (t.spans binding) →
    .bind i.form i.id ∈ t.trace ∨ i.form = .reassigned ∨ i.form = .synthesized ∨
      i.form = .function ∧ t.entry = .callable i.id
  /-- A reference to a variable is in the text, and it may be spelled as the variable is introduced.
  -/
  referred : ∀ i, .introduction i ∈ allMarks (t.spans binding) → ∀ (before : NameTrace) pos after,
    t.trace = before ++ .mention (.name pos i.id) :: after → before.Binds i.id →
      .mention (before.mentionAfter binding pos i.id) ∈ allMarks (t.spans binding) ∧
        ((before.mentionAfter binding pos i.id).text? names = some i.text ↔
          i.form.respells = true ∨ Names.respelled? i.id = none)
  /-- The base of a class is never respelled. -/
  extended : ∀ i, .introduction i ∈ allMarks (t.spans binding) → ∀ before after,
    t.trace = before ++ .base i.id :: after → i.id ≠ "object" →
      .mention (.base i.id) ∈ allMarks (t.spans binding) ∧
        ((Mention.base i.id).text? names = some i.text ↔ i.form.respells = false ∨
        Names.respelled? i.id = none)

theorem spelledByForm (t : SourceText) (binding : Option Binding) (names : List (Nat × String)) :
    t.SpelledByForm binding names := by
  refine ⟨?_, ?_, ?_, ?_⟩
  · intro before form id after htrace
    have hopen : before.StaysOpen := staysOpen_of_programTrace htrace
    rcases showsIn_programSpans binding htrace with (hmark | ⟨hform, hdeclared⟩ | hself) | ⟨hentry,
      _, hbind⟩
    · exact .inl hmark
    · exact .inr (.inl ⟨hform, (NameTrace.isDeclaredHere_replay_iff hopen).mp hdeclared⟩)
    · exact .inr (.inr (.inl hself))
    · cases hbind
      exact .inr (.inr (.inr ⟨rfl, hentry⟩))
  · intro i hi
    rcases fromTrace_of_mem_programSpans hi with (hform | hform | hbind) | ⟨name, hentry, hhead⟩
    · exact .inr (.inr (.inl hform))
    · exact .inr (.inl hform)
    · exact .inl hbind
    · cases hhead
      exact .inr (.inr (.inr ⟨rfl, hentry⟩))
  · intro i _ before pos after htrace hbinds
    obtain ⟨hmark, htext⟩ :=
      (t.resolvedInOrder binding names).bound before pos i.id after htrace hbinds
    refine ⟨hmark, ?_⟩
    rw [htext, Option.some_inj]
    exact Introduction.variableName_eq_text_iff
  · intro i _ before after htrace hid
    rcases showsIn_programSpans binding htrace with hshows | ⟨-, _, hbind⟩
    · refine ⟨hshows hid, ?_⟩
      rw [Mention.text?, Option.some_inj]
      exact Introduction.id_eq_text_iff
    · cases hbind

end SourceText

/-- In every text of a unit or a bundle, a variable is spelled the same where it is introduced and
where it is referred to, exactly if its name is not reserved or it is introduced in a form that
respells. -/
theorem names_spelled_by_form (options : Options) :
    (∀ (unit : SourceUnit) (output : String), unit.compile options = .ok output →
      ∃ (c : Compilation) (names : List (Nat × String)),
        c.binding = unit.context ∧ c.source = unit.source ∧ c.entry = unit.entry ∧
          output = String.join (c.sourceTexts.map (·.text)) ∧
          ∀ t ∈ c.sourceTexts, t.PrintedIn c.binding ⟨options.indentWidth, names⟩ ∧
          t.SpelledByForm c.binding names) ∧
    ∀ (bundle : Bundle) (output : String), bundle.compile options = .ok output →
      ∃ (compilations : List Compilation) (names : List (Nat × String)),
        List.Forall₂ (Bundle.Gives bundle.context) bundle.components compilations ∧
          output = "\n".intercalate
            (compilations.flatMap fun c => String.join (c.sourceTexts.map (·.text)) :: c.tail) ∧
          ∀ c ∈ compilations, ∀ t ∈ c.sourceTexts,
            t.PrintedIn c.binding ⟨options.indentWidth, names⟩ ∧ t.SpelledByForm c.binding names :=
  textsHave (fun t binding ed _ _ => t.spelledByForm binding ed.names) options

/-- A reserved identifier as a parameter and as a variable. -/
def convertingUnit :
    SourceUnit := ⟨"float = 1\ndef f(int):\n    return int + float\n", none, .module⟩

def convertingOutput :
    String := "var _float = 1;\nfunction f(int) \x7b\n    return (_int + _float);\n\x7d\n"

def convertingBundle :
    Bundle := ⟨[(.function "def g(n):\n    for int in n:\n        f(int)\n" none, none)], none⟩

def convertingBundleOutput : String :=
  "function g(n) \x7b\n    for (var _int of n) \x7b\n        f(_int);\n    \x7d\n\x7d\n"

theorem converting_spelled_by_form :
    (convertingUnit.compile {} = .ok convertingOutput ∧
      ∃ (c : Compilation) (names : List (Nat × String)),
        c.binding = convertingUnit.context ∧ c.source = convertingUnit.source ∧
        c.entry = convertingUnit.entry ∧
          convertingOutput = String.join (c.sourceTexts.map (·.text)) ∧
          ∀ t ∈ c.sourceTexts, t.PrintedIn c.binding ⟨Buffer.defaultWidth, names⟩ ∧
          t.SpelledByForm c.binding names) ∧
    convertingBundle.compile {} = .ok convertingBundleOutput ∧
      ∃ (compilations : List Compilation) (names : List (Nat × String)),
        List.Forall₂ (Bundle.Gives convertingBundle.context) convertingBundle.components
        compilations ∧
          convertingBundleOutput = "\n".intercalate
            (compilations.flatMap fun c => String.join (c.sourceTexts.map (·.text)) :: c.tail) ∧
          ∀ c ∈ compilations, ∀ t ∈ c.sourceTexts,
            t.PrintedIn c.binding ⟨Buffer.defaultWidth, names⟩ ∧
            t.SpelledByForm c.binding names := by
  have hunit : convertingUnit.compile {} = .ok convertingOutput := by decide +kernel
  have hbundle : convertingBundle.compile {} = .ok convertingBundleOutput := by decide +kernel
  exact ⟨⟨hunit, (names_spelled_by_form {}).1 convertingUnit _ hunit⟩,
    hbundle, (names_spelled_by_form {}).2 convertingBundle _ hbundle⟩

/-- A parameter whose name is reserved keeps its spelling, but the reference to it does not. -/
theorem reserved_parameter_spelled_apart :
    (SourceUnit.mk "def f(int):\n    return int\n" none .module).compile {} =
      .ok "function f(int) \x7b\n    return _int;\n\x7d\n" := by
  decide +kernel

end ScriptCompiler
