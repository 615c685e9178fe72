import ScriptCompiler.Proofs.WrittenOnce

/-!
# Drafts of sources

The texts of the source that was asked for, and of the source of every callable that a session
compiles, are those of their programs' drafts, in the edition with the names that the session ends
with. So what holds of every text that is printed from a draft can be said of the outputs of units
and bundles.
-/

namespace ScriptCompiler

/-- A source that a session compiles, with its text. -/
structure SourceText where
  source : String
  entry : EntryPoint
  text : String

namespace SourceText

/-- The program of a source, empty if there is none. -/
def program (t : SourceText) : List Stmt := (Session.parse t.source).toOption.getD []

def spans (t : SourceText) (binding : Option Binding) :
    Spans := programSpans binding t.program t.entry

/-- The source has a program, and the text is the draft of it, printed. -/
structure PrintedIn (t : SourceText) (binding : Option Binding) (ed : Edition) : Prop where
  parsed : Session.parse t.source = .ok t.program
  printed : (t.spans binding).Prints ed t.text

end SourceText

def Turn.sourceText (t : Turn) :
    SourceText := ⟨t.extraction.callable.source, .callable t.extraction.name, t.text⟩

namespace Compilation

/-- The source that was asked for. -/
def ownText (c : Compilation) : SourceText := ⟨c.source, c.entry, c.text⟩

/-- The sources of the callables in the order in which they are written, and the source that was
asked for. -/
def sourceTexts (c : Compilation) : List SourceText := c.turns.map Turn.sourceText ++ [c.ownText]

theorem output_eq_join (c : Compilation) : c.output = String.join (c.sourceTexts.map (·.text)) := by
  simp [output, sourceTexts, ownText, Turn.sourceText, Function.comp_def]

/-- The texts of a compilation are the drafts of their programs, in which nothing is refused. -/
theorem printedIn_of_mem {c : Compilation} {width : Nat} {names : List (Nat × String)}
    {t : SourceText}
    (h : c.LoweredUnder width names) (ht : t ∈ c.sourceTexts) :
    t.PrintedIn c.binding ⟨width, names⟩ ∧ ProgramAccepted t.program t.entry := by
  have hlowered : Session.lower width (.settled c.binding names) t.source t.entry =
      .ok (t.text, .settled c.binding names) := by
    rcases List.mem_append.mp ht with ht | ht
    · obtain ⟨turn, hturn, rfl⟩ := List.mem_map.mp ht
      exact (h.2 turn hturn).1
    · obtain rfl := List.mem_singleton.mp ht
      exact h.1
  have hnamed : (Binder.settled c.binding names).NamedBy names := id
  obtain ⟨program, hparsed, haccepted, hprinted⟩ := Session.prints_of_lower hlowered hnamed
  have hprogram : t.program = program := by
    rw [SourceText.program, hparsed]
    rfl
  refine ⟨⟨by rw [hprogram, hparsed], ?_⟩, hprogram ▸ haccepted⟩
  rw [SourceText.spans, hprogram]
  exact hprinted

end Compilation

variable {options : Options} {output : String}

/-- The output of a unit consists of the texts of one compilation. -/
theorem SourceUnit.exists_writtenOnce {unit : SourceUnit}
    (h : unit.compile options = .ok output) :
    ∃ (c : Compilation) (names : List (Nat × String)),
      c.binding = unit.context ∧ c.source = unit.source ∧ c.entry = unit.entry ∧
        output = String.join (c.sourceTexts.map (·.text)) ∧
        WrittenOnce options.indentWidth names [c] := by
  obtain ⟨text, turns, b, hcompiles, houtput⟩ := SourceUnit.exists_compiles h
  have hrecords := (Session.Records.start options.indentWidth unit.context).add hcompiles []
  let c : Compilation := ⟨unit.context, unit.source, unit.entry, turns, text, []⟩
  exact ⟨c, b.names, rfl, rfl, rfl, houtput.trans c.output_eq_join, hrecords.writtenOnce⟩

/-- The output of a bundle consists of the texts of one compilation for each component, in one
session. -/
theorem Bundle.exists_writtenOnce {bundle : Bundle}
    (h : bundle.compile options = .ok output) :
    ∃ (compilations : List Compilation) (names : List (Nat × String)),
      List.Forall₂ (Bundle.Gives bundle.context) bundle.components compilations ∧
        output = "\n".intercalate
          (compilations.flatMap fun c => String.join (c.sourceTexts.map (·.text)) :: c.tail) ∧
        WrittenOnce options.indentWidth names compilations := by
  obtain ⟨parts, hparts, h⟩ := Except.exists_of_bind_eq_ok h
  have hstart := Session.Records.start options.indentWidth bundle.context
  obtain ⟨compilations, b, hrecords, hgives, rfl⟩ :=
    Bundle.records_of_compileAll hstart (Except.eq_ok_of_mapError_eq_ok hparts)
  have htexts : Compilation.parts = fun c => String.join (c.sourceTexts.map (·.text)) :: c.tail :=
    funext fun c => congrArg (· :: c.tail) c.output_eq_join
  exact ⟨compilations, b.names, hgives, htexts ▸ eq_of_verified_eq_ok h, hrecords.writtenOnce⟩

/-- A property of texts, given the context of their programs and what they are printed with. -/
abbrev TextProperty := SourceText → Option Binding → Edition → Prop

/-- The output of a unit consists of the texts of one compilation, which all have a property. -/
def SourceUnit.TextsHave (unit : SourceUnit) (options : Options) (output : String)
    (P : TextProperty) : Prop :=
  ∃ (c : Compilation) (names : List (Nat × String)),
    c.binding = unit.context ∧ c.source = unit.source ∧ c.entry = unit.entry ∧
      output = String.join (c.sourceTexts.map (·.text)) ∧
      ∀ t ∈ c.sourceTexts, t.PrintedIn c.binding ⟨options.indentWidth, names⟩ ∧
        P t c.binding ⟨options.indentWidth, names⟩

/-- The output of a bundle consists of the texts of one compilation for each component, which all
have a property. -/
def Bundle.TextsHave (bundle : Bundle) (options : Options) (output : String) (P : TextProperty) :
    Prop :=
  ∃ (compilations : List Compilation) (names : List (Nat × String)),
    List.Forall₂ (Bundle.Gives bundle.context) bundle.components compilations ∧
      output = "\n".intercalate
      (compilations.flatMap fun c => String.join (c.sourceTexts.map (·.text)) :: c.tail) ∧
      ∀ c ∈ compilations, ∀ t ∈ c.sourceTexts, t.PrintedIn c.binding ⟨options.indentWidth, names⟩ ∧
        P t c.binding ⟨options.indentWidth, names⟩

variable {P : TextProperty}

/-- What holds of every text that is printed and accepted holds of the texts of units and
bundles. -/
theorem textsHave (hP : ∀ t binding ed, t.PrintedIn binding ed → ProgramAccepted t.program t.entry →
    P t binding ed)
    (options : Options) :
    (∀ (unit : SourceUnit) (output : String), unit.compile options = .ok output →
    unit.TextsHave options output P) ∧
    ∀ (bundle : Bundle) (output : String), bundle.compile options = .ok output →
    bundle.TextsHave options output P := by
  constructor
  · intro unit output h
    obtain ⟨c, names, hbinding, hsource, hentry, houtput, honce⟩ := SourceUnit.exists_writtenOnce h
    refine ⟨c, names, hbinding, hsource, hentry, houtput, fun t ht => ?_⟩
    obtain ⟨hprinted, haccepted⟩ :=
      Compilation.printedIn_of_mem (honce.texts c List.mem_cons_self) ht
    exact ⟨hprinted, hP t _ _ hprinted haccepted⟩
  · intro bundle output h
    obtain ⟨compilations, names, hgives, houtput, honce⟩ := Bundle.exists_writtenOnce h
    refine ⟨compilations, names, hgives, houtput, fun c hc t ht => ?_⟩
    obtain ⟨hprinted, haccepted⟩ := Compilation.printedIn_of_mem (honce.texts c hc) ht
    exact ⟨hprinted, hP t _ _ hprinted haccepted⟩

end ScriptCompiler
