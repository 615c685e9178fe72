import ScriptCompiler.Proofs.StatementTrace
import ScriptCompiler.Proofs.SourceDraft

/-!
# What names stand for

What a name stands for is settled where the program is walked through: it is a variable exactly if a
function around has bound it by then. A binding that comes later in the same function does not
count, so that such a name is looked for in the context and among the names that scripts have.
-/

namespace ScriptCompiler

/-- What a name stands for where no function around has bound it. -/
def outsideMeaning (binding : Option Binding) (id : String) : Meaning :=
  (((Binder.ofBinding binding).lookup id).bind fun value =>
    ContextHit.meaning? ⟨value, id, none⟩).getD (.free id)

theorem Expr.meaning?_name (binding : Option Binding) (scopes : Scopes) (pos : Position)
    (id : String) :
    (Expr.name pos id).meaning? binding scopes =
      some (if scopes.isBound id then .variable id else outsideMeaning binding id) := by
  rw [Expr.meaning?]
  by_cases hbound : scopes.isBound id = true
  · rw [if_pos hbound, if_pos hbound]
  · rw [if_neg hbound, if_neg hbound, Expr.contextMeaning?, Expr.contextHit?, if_neg hbound,
      outsideMeaning]
    cases (Binder.ofBinding binding).lookup id <;> rfl

/-- The mention of a name behind a part of a trace. -/
def NameTrace.mentionAfter (before : NameTrace) (binding : Option Binding) (pos : Position)
    (id : String) : Mention :=
  .value binding (Scopes.empty.replay before) (.name pos id)

namespace NameTrace

variable {before : NameTrace} {binding : Option Binding} {pos : Position} {id : String}
  {names : List (Nat × String)}

theorem text?_mentionAfter_of_binds (hopen : before.StaysOpen) (h : before.Binds id) :
    (before.mentionAfter binding pos id).text? names = some (Names.variableName id) := by
  have hbound : (Scopes.empty.replay before).isBound id = true := (isBound_replay_iff hopen).mpr h
  rw [mentionAfter, Mention.text?, Expr.meaning?_name, if_pos hbound]
  rfl

theorem text?_mentionAfter_of_not_binds (hopen : before.StaysOpen) (h : ¬before.Binds id) :
    (before.mentionAfter binding pos id).text? names = (outsideMeaning binding id).text? names := by
  have hbound : ¬(Scopes.empty.replay before).isBound id = true :=
    (isBound_replay_iff hopen).not.mpr h
  rw [mentionAfter, Mention.text?, Expr.meaning?_name, if_neg hbound]
  rfl

end NameTrace

namespace SourceText

/-- What happens to names in the program of a source. -/
def trace (t : SourceText) : NameTrace := programTrace t.program t.entry

/-- What a name in a text stands for depends on what comes before it in the program. -/
structure ResolvedInOrder (t : SourceText) (binding : Option Binding)
    (names : List (Nat × String)) : Prop where
  /-- Every name in the text is one that the program mentions. -/
  mentioned : ∀ binding' scopes pos id, .mention (.value binding' scopes (.name pos id)) ∈ allMarks
    (t.spans binding) →
    ∃ before after : NameTrace, t.trace = before ++ .mention (.name pos id) :: after ∧
      .value binding' scopes (.name pos id) = before.mentionAfter binding pos id
  /-- A name that a function around has bound is written, as that variable. -/
  bound : ∀ (before : NameTrace) pos id after,
    t.trace = before ++ .mention (.name pos id) :: after → before.Binds id →
    .mention (before.mentionAfter binding pos id) ∈ allMarks (t.spans binding) ∧
      (before.mentionAfter binding pos id).text? names = some (Names.variableName id)
  /-- Another name is not written as a variable, whatever comes later. -/
  unbound : ∀ (before : NameTrace) pos id after,
    t.trace = before ++ .mention (.name pos id) :: after → ¬before.Binds id →
    (before.mentionAfter binding pos id).text? names = (outsideMeaning binding id).text? names

theorem resolvedInOrder (t : SourceText) (binding : Option Binding) (names : List (Nat × String)) :
    t.ResolvedInOrder binding names := by
  refine ⟨?_, ?_, ?_⟩
  · intro binding' scopes pos id hmark
    rcases fromTrace_of_mem_programSpans hmark with ⟨rfl, before, after, htrace,
      rfl⟩ | ⟨name, -, hhead⟩
    · exact ⟨before, after, htrace, rfl⟩
    · cases hhead
  · intro before pos id after htrace hbinds
    have hopen : before.StaysOpen := staysOpen_of_programTrace htrace
    refine ⟨?_, NameTrace.text?_mentionAfter_of_binds hopen hbinds⟩
    rcases showsIn_programSpans binding htrace with hshows | ⟨-, _, hbind⟩
    · exact hshows ((NameTrace.isBound_replay_iff hopen).mpr hbinds)
    · cases hbind
  · intro before pos id after htrace hbinds
    exact NameTrace.text?_mentionAfter_of_not_binds (staysOpen_of_programTrace htrace) hbinds

end SourceText

/-- In every text of a unit or a bundle, a name is a variable exactly if a function around has bound
it before the place where the program mentions it. -/
theorem names_resolved_in_order (options : Options) :
    (∀ (unit : SourceUnit) (output : String), unit.compile options = .ok output →
      ∃ (c : Compilation) (names : List (Nat × String)),
        c.binding = unit.context ∧ c.source = unit.source ∧ c.entry = unit.entry ∧
          output = String.join (c.sourceTexts.map (·.text)) ∧
          ∀ t ∈ c.sourceTexts,
            t.PrintedIn c.binding ⟨options.indentWidth, names⟩ ∧
            t.ResolvedInOrder c.binding names) ∧
    ∀ (bundle : Bundle) (output : String), bundle.compile options = .ok output →
      ∃ (compilations : List Compilation) (names : List (Nat × String)),
        List.Forall₂ (Bundle.Gives bundle.context) bundle.components compilations ∧
          output = "\n".intercalate
            (compilations.flatMap fun c => String.join (c.sourceTexts.map (·.text)) :: c.tail) ∧
          ∀ c ∈ compilations, ∀ t ∈ c.sourceTexts,
            t.PrintedIn c.binding ⟨options.indentWidth, names⟩ ∧
            t.ResolvedInOrder c.binding names :=
  textsHave (fun t binding ed _ _ => t.resolvedInOrder binding ed.names) options

/-- The condition of the loop comes before the variable, the last line after it. -/
def countdownUnit : SourceUnit :=
  ⟨"while limit:\n    limit = 0\nreport(limit)\n", some ⟨[("limit", .integer 5)]⟩, .module⟩

def countdownOutput : String := "while (5) \x7b\n    var limit = 0;\n\x7d\nreport(limit);\n"

def countdownBundle : Bundle :=
  ⟨[(.function "def f(limit):\n    return limit\n" none, none),
    (.function "def g():\n    return limit\n" none, none)],
    some ⟨[("limit", .integer 5)]⟩⟩

def countdownBundleOutput : String :=
  "function f(limit) \x7b\n    return limit;\n\x7d\n\nfunction g() \x7b\n    return 5;\n\x7d\n"

theorem countdown_resolved_in_order :
    (countdownUnit.compile {} = .ok countdownOutput ∧
      ∃ (c : Compilation) (names : List (Nat × String)),
        c.binding = countdownUnit.context ∧ c.source = countdownUnit.source ∧
        c.entry = countdownUnit.entry ∧
          countdownOutput = String.join (c.sourceTexts.map (·.text)) ∧
          ∀ t ∈ c.sourceTexts,
            t.PrintedIn c.binding ⟨Buffer.defaultWidth, names⟩ ∧
            t.ResolvedInOrder c.binding names) ∧
    countdownBundle.compile {} = .ok countdownBundleOutput ∧
      ∃ (compilations : List Compilation) (names : List (Nat × String)),
        List.Forall₂ (Bundle.Gives countdownBundle.context) countdownBundle.components
        compilations ∧
          countdownBundleOutput = "\n".intercalate
            (compilations.flatMap fun c => String.join (c.sourceTexts.map (·.text)) :: c.tail) ∧
          ∀ c ∈ compilations, ∀ t ∈ c.sourceTexts,
            t.PrintedIn c.binding ⟨Buffer.defaultWidth, names⟩ ∧
            t.ResolvedInOrder c.binding names := by
  have hunit : countdownUnit.compile {} = .ok countdownOutput := by decide +kernel
  have hbundle : countdownBundle.compile {} = .ok countdownBundleOutput := by decide +kernel
  exact ⟨⟨hunit, (names_resolved_in_order {}).1 countdownUnit _ hunit⟩,
    hbundle, (names_resolved_in_order {}).2 countdownBundle _ hbundle⟩

/-- The variable is one of the module around the function, but the function comes first. -/
def lateLimitUnit : SourceUnit :=
  ⟨"def report():\n    return limit\nlimit = 2\nreport()\n",
    some ⟨[("limit", .integer 5)]⟩, .module⟩

/-- A variable that is bound behind the function that mentions it does not shadow the context
there. -/
theorem context_shadows_later_variable :
    lateLimitUnit.compile {} =
      .ok "function report() \x7b\n    return 5;\n\x7d\nvar limit = 2;\nreport();\n" := by
  decide +kernel

end ScriptCompiler
