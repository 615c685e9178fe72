import ScriptCompiler.Proofs.StatementReading
import ScriptCompiler.Proofs.Termination

/-!
# Defects

A compilation reports a defect of the compiler itself only for a string token that the grammar
admits and that cannot be taken apart again. Such a token is opened by a backquote.

A syntax tree is never without a part that a rule of the lowering asks for: no node is empty, and
every operator has its entry in the tables. Defects of this kind cannot be stated about these trees,
so that the result says nothing about them; they are excluded by the types.
-/

namespace ScriptCompiler

/-- A report of a string token of a source as malformed. The token is opened by a backquote. -/
structure Session.ReportsToken (source : String) (d : Diagnostic) (program : List Stmt)
    (token : String) : Prop where
  parsed : parse source = .ok program
  mem : token ∈ blockStrings program
  isInfix : token.toList <:+: Dedent.dedentChars source.toList
  isBackquoted : Token.IsBackquoted token.toList
  malformed : Literal.splitString? token.toList = none
  report : d = (Fault.malformedString token).report

/-- The sources that the compilation of a unit can lead to: its own and those of the callables of
its context. -/
def SourceUnit.sources (unit : SourceUnit) : List String :=
  unit.source :: (contextCallables unit.context).map (·.2.source)

namespace Session

def Defective (source : String) (d : Diagnostic) :
    Prop := ∃ program token, ReportsToken source d program token

variable {width : Nat} {b : Binder} {source : String} {entry : EntryPoint} {d : Diagnostic}

theorem defective_of_lower (h : lower width b source entry = .error d)
    (hkind : d.kind = .internal) : Defective source d := by
  cases hparse : parse source with
  | error f =>
    -- A text that is no program is refused as such.
    rw [lower, hparse] at h
    cases h
    rw [kind_of_parse_eq_error hparse] at hkind
    cases hkind
  | ok program =>
    obtain ⟨token, hmem, hsplit, hreport⟩ := reports_of_lower hparse h hkind
    have hread := stringsIn_of_parseProgram? (parse_eq_ok_iff.mp hparse) token hmem
    refine ⟨program, token, hparse, hmem, hread.isInfix, ?_, hsplit, hreport⟩
    by_contra hquoted
    exact hread.splits hquoted hsplit

/-- The sources of what is left to do, besides the callables of the context. -/
def Task.ownSources : Task → List String
  | .source source _ _ => [source]
  | .queue _ _ => []

def callableSources (binding : Option Binding) :
    List String := (contextCallables binding).map (·.2.source)

variable {task : Task} {calls : List NestedCall} {outcome : Outcome}

theorem Ends.defective (h : Ends width b task calls outcome) (hpending : b.pending = [])
    (hqueue : ∀ e ∈ task.callables, e.target ∈ contextCallables b.binding) :
    (∀ d, outcome = .error d → d.kind = .internal →
        ∃ source ∈ task.ownSources ++ callableSources b.binding, Defective source d) ∧
      ∀ units b', outcome = .ok (units, b') → b'.pending = [] ∧ b'.binding = b.binding := by
  induction h with
  | @refused b source entry extraction d hlower =>
    refine ⟨fun d' herror hkind => ?_, nofun⟩
    cases herror
    exact ⟨source, List.mem_cons_self, defective_of_lower hlower hkind⟩
  | @lowered b b₁ source text entry extraction calls outcome hlower _ ih =>
    have hbinding : b₁.binding = b.binding := (queues_of_lower hpending hlower).binding
    have hqueue : ∀ e ∈ b₁.pending, e.target ∈ contextCallables b₁.binding := by
      intro e he
      rcases pending_of_lower hlower e he with hold | htarget
      · rw [hpending] at hold
        cases hold
      · rw [hbinding]
        exact htarget
    obtain ⟨herrors, hends⟩ := ih rfl hqueue
    constructor
    · intro d herror hkind
      cases outcome with
      | ok out => cases herror
      | error d' =>
        cases herror
        obtain ⟨source', hmem, hdefective⟩ := herrors d rfl hkind
        exact ⟨source', List.mem_cons_of_mem _ (hbinding ▸ hmem), hdefective⟩
    · intro units b' hok
      cases outcome with
      | error d' => cases hok
      | ok out =>
        cases hok
        obtain ⟨hidle, hsame⟩ := hends out.1 out.2 rfl
        exact ⟨hidle, hsame.trans hbinding⟩
  | drained =>
    refine ⟨nofun, fun units b' hok => ?_⟩
    cases hok
    exact ⟨hpending, rfl⟩
  | @failed b outer e rest calls d _ ih =>
    refine ⟨fun d' herror hkind => ?_, nofun⟩
    cases herror
    obtain ⟨source, hmem, hdefective⟩ := (ih hpending nofun).1 d rfl hkind
    refine ⟨source, ?_, hdefective⟩
    rcases List.mem_append.mp hmem with hown | hcontext
    · rw [List.mem_singleton.mp hown]
      exact List.mem_map.mpr ⟨e.target, hqueue e List.mem_cons_self, rfl⟩
    · exact hcontext
  | @next b b₁ outer e rest calls more units outcome _ _ ihfirst ihrest =>
    obtain ⟨hidle, hbinding⟩ := (ihfirst hpending nofun).2 units b₁ rfl
    have hbinding : (b₁.endExtraction e.identity).binding = b.binding := hbinding
    have hrest :
        ∀ e' ∈ rest, e'.target ∈ contextCallables (b₁.endExtraction e.identity).binding := by
      intro e' he'
      rw [hbinding]
      exact hqueue e' (List.mem_cons_of_mem _ he')
    obtain ⟨herrors, hends⟩ := ihrest hidle hrest
    constructor
    · intro d herror hkind
      cases outcome with
      | ok out => cases herror
      | error d' =>
        cases herror
        exact hbinding ▸ herrors d rfl hkind
    · intro units b' hok
      cases outcome with
      | error d' => cases hok
      | ok out =>
        cases hok
        obtain ⟨hidle, hsame⟩ := hends out.1 out.2 rfl
        exact ⟨hidle, hsame.trans hbinding⟩

end Session

/-- No unit fails with a defect of the compiler, except for a string token that is opened by a
backquote: the report names such a token of the unit's source or of the source of a callable of its
context. -/
theorem SourceUnit.defect_is_backquoted_token {unit : SourceUnit} {options : Options}
    {d : Diagnostic}
    (h : unit.compile options = .error d) (hkind : d.kind = .internal) :
    ∃ source ∈ unit.sources, ∃ d₀ program token, Session.ReportsToken source d₀ program token ∧
      d = d₀.inFile options.fileName := by
  rcases Except.eq_error_or_exists_of_bind_eq_error h with hcompile | ⟨out, -, hverified⟩
  · obtain ⟨d₀, hd₀, rfl⟩ := Except.exists_of_mapError_eq_error hcompile
    rw [Diagnostic.kind_inFile] at hkind
    obtain ⟨calls, hends⟩ := Session.ends_compile options.indentWidth unit.source unit.entry
      (Session.Ready.start unit.context)
    obtain ⟨herrors, -⟩ := hends.defective rfl nofun
    obtain ⟨source, hmem, program, token, hreports⟩ := herrors d₀ hd₀ hkind
    exact ⟨source, hmem, d₀, program, token, hreports, rfl⟩
  · rw [kind_eq_of_verified_eq_error hverified] at hkind
    cases hkind

/-- An assignment of a string between backquotes. -/
def assignsBackquoted : SourceUnit := { source := "x = \x60a\x60\n" }

def backquotedReport :
    Diagnostic := (Fault.malformedString "\x60a\x60").report.inFile (Options.fileName {})

theorem defect_of_assignsBackquoted :
    assignsBackquoted.compile {} = .error backquotedReport ∧ backquotedReport.kind = .internal ∧
      ∃ source ∈ assignsBackquoted.sources, ∃ d₀ program token,
      Session.ReportsToken source d₀ program token ∧
        backquotedReport = d₀.inFile (Options.fileName {}) := by
  have h : assignsBackquoted.compile {} = .error backquotedReport := by decide +kernel
  have hkind : backquotedReport.kind = .internal := by decide +kernel
  exact ⟨h, hkind, SourceUnit.defect_is_backquoted_token h hkind⟩

/-- A source that is a program can be refused with a defect. -/
theorem assignsBackquoted_parses_and_fails :
    (Session.parse assignsBackquoted.source).toOption.isSome = true ∧
      assignsBackquoted.compile {} = .error backquotedReport ∧
      backquotedReport.kind = .internal := by
  decide +kernel

end ScriptCompiler
