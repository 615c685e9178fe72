import ScriptCompiler.Proofs.StatementDrafting

/-!
# Effects of a source

A source that is lowered by itself meets the references that are listed for it, in a binder that it
leaves with the names that they need, and its text is that of its program's draft. A callable
becomes one function under the name that was generated for it.
-/

namespace ScriptCompiler

/-- Nothing is refused in what is made of a program. -/
def ProgramAccepted (statements : List Stmt) (entry : EntryPoint) : Prop :=
  match entry with
  | .module => BlockAccepted false statements
  | .body | .callable _ => ∀ d, firstFunction? statements = some d → BlockAccepted false d.body

namespace Lowering

theorem firstFunction_of_some {statements : List Stmt} {d : FunctionDef}
    (h : firstFunction? statements = some d) : firstFunction statements = pure d := by
  unfold firstFunction
  rw [h]

theorem firstFunction_bind_of_none {statements : List Stmt} {f : FunctionDef → Lowering Unit}
    {ed : Edition} {A : Prop}
    {p q : Place} {refs : List Reference} {xs : Spans} {B : Prop}
    (h : firstFunction? statements = none) :
    Emits ed A p (firstFunction statements >>= f) refs q xs B := by
  unfold firstFunction
  rw [h]
  exact Drafts.fail (by simp [Fault.report, Fault.kind])

/-- Lowering a program meets its references and writes its draft, whatever is made of it. -/
theorem emits_program (ed : Edition) (binding : Option Binding) (statements : List Stmt)
    (entry : EntryPoint) :
    ∃ q, Emits ed True (.start binding) (program statements entry)
    (programReferences binding statements entry) q
      (programSpans binding statements entry) (ProgramAccepted statements entry) := by
  unfold program programReferences programSpans ProgramAccepted
  cases entry with
  | module => exact ⟨_, emits_block (.start binding) statements⟩
  | body =>
    cases hfirst : firstFunction? statements with
    | none => exact ⟨.start binding, firstFunction_bind_of_none hfirst⟩
    | some d =>
      rw [firstFunction_of_some hfirst]
      simp only [Option.some.injEq, forall_eq']
      let p := (Place.start binding).registerAll (withoutSelf (declaredNames d.parameters))
      refine ⟨p.afterBlock d.body, emits_withFormals fun fs hfs => ?_⟩
      have hregister : Shows ed (.start binding) ((splitSelf fs).2.forM (register ·.name)) []
          ((Place.start binding).registerAll ((splitSelf fs).2.map (·.name))) fun _ => True :=
        shows_registerFormals (splitSelf fs).2
      rw [names_splitSelf, hfs] at hregister
      exact Emits.after hregister fun _ => emits_block p d.body
  | callable name =>
    cases hfirst : firstFunction? statements with
    | none => exact ⟨.start binding, firstFunction_bind_of_none hfirst⟩
    | some d =>
      rw [firstFunction_of_some hfirst]
      simp only [Option.some.injEq, forall_eq']
      refine ⟨(Place.start binding).later .empty (blockSentinels false d.body),
        emits_withFormals fun fs hfs => ?_⟩
      refine emits_namedFunction ((names_formalSpans _ d.parameters).trans hfs.symm) And.right ?_
      rw [hfs]
      exact bodyEmits_block (emits_block _ d.body)

/-- What a function under a name looks like. -/
def IsFunctionText (name text : String) : Prop :=
  ∃ isAsync formals body, text = functionHeader isAsync name formals ++ "\n" ++ body ++ "\x7d\n"

/-- A printed function stands between its header and its closer. -/
theorem isFunctionText_of_prints {ed : Edition} {isAsync : Bool} {name text : String}
    {drafts : List Spans.Formal}
    {body : Spans} (h : (Spans.namedFunction 0 isAsync name drafts body).Prints ed text) :
    IsFunctionText name text := by
  let formals : List Script.Formal := (Spans.withoutSelf drafts).map fun d => ⟨d.name, none⟩
  have hheader : Spans.Prints ed
      (Spans.functionHead isAsync name ++ Spans.signature
      (Spans.withoutSelf drafts) ++ [.text " \x7b"])
      (functionHeader isAsync name formals) :=
    prints_header (prints_functionHead isAsync name) (by simp [formals])
  rw [Spans.namedFunction, Spans.Prints, Spans.printAll?_function, printAll?_append,
    Spans.prints_line 0 hheader,
    Option.bind_some, printAll?_append] at h
  obtain ⟨tail, htail, rfl⟩ := Option.map_eq_some_iff.mp h
  obtain ⟨inner, -, htail⟩ := Option.bind_eq_some_iff.mp htail
  refine ⟨isAsync, formals, inner, ?_⟩
  simp [Spans.textLine, Spans.line, Buffer.spaces] at htail
  simp [← htail, Buffer.spaces, String.append_assoc]

end Lowering

namespace Session

variable {width : Nat} {b b' : Binder} {source text : String} {entry : EntryPoint} {d : Diagnostic}

theorem lower_of_parse {program : List Stmt} (h : parse source = .ok program) :
    lower width b source entry =
      match (Lowering.program program entry).run (.start b width) with
      | .error d _ => .error d
      | .ok _ state =>
        match state.buffer.finish with
        | .ok text => .ok (text, state.binder)
        | .error f => .error f.report := by
  unfold lower
  rw [h]
  simp only [bind, Except.bind]
  cases (Lowering.program program entry).run (.start b width) with
  | error d state => rfl
  | ok u state => cases hfinish : state.buffer.finish <;> simp only [hfinish] <;> rfl

/-- The run behind the text of a source. -/
theorem exists_run_of_lower (h : lower width b source entry = .ok (text, b')) :
    ∃ program state, parse source = .ok program ∧
      (Lowering.program program entry).run (.start b width) = .ok () state ∧
      state.buffer.finish = .ok text ∧ state.binder = b' := by
  cases hparse : parse source with
  | error d =>
    unfold lower at h
    rw [hparse] at h
    cases h
  | ok program =>
    rw [lower_of_parse hparse] at h
    cases hstate : (Lowering.program program entry).run (.start b width) with
    | error d state =>
      rw [hstate] at h
      cases h
    | ok u state =>
      rw [hstate] at h
      dsimp only at h
      cases hfinish : state.buffer.finish with
      | error f =>
        rw [hfinish] at h
        cases h
      | ok text' =>
        rw [hfinish] at h
        injection h with h
        obtain ⟨rfl, rfl⟩ := Prod.mk.inj h
        exact ⟨program, state, rfl, hstate, hfinish, rfl⟩

/-- Everything that a source does to a binder. Its text is the one that it has if all names are
chosen beforehand. -/
theorem lower_eq_ok (h : lower width b source entry = .ok (text, b')) :
    b.scheduleAll (references b.binding source entry) = .ok b' ∧
      ∀ c : Binder, c.Settles b' → lower width c source entry = .ok (text, c) := by
  obtain ⟨program, state, hparse, hstate, hfinish, rfl⟩ := exists_run_of_lower h
  obtain ⟨q, hemits⟩ := Lowering.emits_program ⟨width, []⟩ b.binding program entry
  obtain ⟨lines, hrun, -⟩ := hemits.ok (s := .start b width) rfl rfl hstate
  unfold references
  rw [hparse]
  refine ⟨hrun.scheduled, fun c hsettles => ?_⟩
  have hagain : (Lowering.program program entry).run (.start c width) =
      .ok () { state with binder := c } :=
    hrun.settled c hsettles
  rw [lower_of_parse hparse, hagain]
  dsimp only
  rw [hfinish]

theorem parse_eq_ok_iff {program : List Stmt} :
    parse source = .ok program ↔ parseProgram? (Dedent.dedentChars source.toList) =
    some program := by
  unfold parse
  dsimp only
  split <;> simp_all

/-- A text that is no program is refused as such, at the first statement that is not read. -/
theorem kind_of_parse_eq_error (h : parse source = .error d) : d.kind = .parse := by
  unfold parse at h
  dsimp only at h
  split at h
  · cases h
  · cases h
    simp [syntaxReport, Fault.kind_reportAt, Fault.kind]

theorem kind_of_finish_eq_error {buffer : Buffer} {f : Fault} (h : buffer.finish = .error f) :
    f.kind ≠ .cyclicContext := by
  unfold Buffer.finish at h
  split_ifs at h
  · injection h with h
    simp [← h, Fault.kind]
  · split at h
    · injection h with h
      simp [← h, Fault.kind]
    · cases h

/-- A source fails for a cycle of callables only if it refers to a callable in progress. -/
theorem lower_eq_error (h : lower width b source entry = .error d) :
    b.Blames (references b.binding source entry) d := by
  intro hkind
  unfold references
  cases hparse : parse source with
  | error d' =>
    have hsame : lower width b source entry = .error d' := by
      unfold lower
      rw [hparse]
      rfl
    rw [hsame] at h
    injection h with h
    rw [← h, kind_of_parse_eq_error hparse] at hkind
    cases hkind
  | ok program =>
    rw [lower_of_parse hparse] at h
    obtain ⟨q, hemits⟩ := Lowering.emits_program ⟨width, []⟩ b.binding program entry
    cases hstate : (Lowering.program program entry).run (.start b width) with
    | error d' state =>
      rw [hstate] at h
      injection h with h
      subst h
      exact hemits.blames (s := .start b width) rfl rfl hstate hkind
    | ok u state =>
      rw [hstate] at h
      dsimp only at h
      cases hfinish : state.buffer.finish with
      | ok text =>
        rw [hfinish] at h
        cases h
      | error f =>
        rw [hfinish] at h
        injection h with h
        subst h
        exact absurd hkind (kind_of_finish_eq_error hfinish)

/-- The name of a callable does not matter to what it refers to. -/
theorem references_callable (binding : Option Binding) (source name name' : String) :
    references binding source (.callable name) = references binding source (.callable name') := by
  unfold references
  cases parse source with
  | error d => rfl
  | ok program => rfl

theorem read_of_finish {buffer : Buffer} (h : buffer.finish = .ok text) : buffer.read = text := by
  unfold Buffer.finish at h
  split_ifs at h
  split at h
  · cases h
  · injection h

/-- The text of a source is that of its draft in every edition that has the names which the source
needs. -/
theorem prints_of_lower {width : Nat} {b b' : Binder} {source text : String} {entry : EntryPoint}
    {names : List (Nat × String)} (h : lower width b source entry = .ok (text, b'))
    (hnamed : b'.NamedBy names) :
    ∃ program, parse source = .ok program ∧ ProgramAccepted program entry ∧
      (programSpans b.binding program entry).Prints ⟨width, names⟩ text := by
  obtain ⟨program, state, hparse, hstate, hfinish, rfl⟩ := exists_run_of_lower h
  obtain ⟨q, hemits⟩ := Lowering.emits_program ⟨width, names⟩ b.binding program entry
  obtain ⟨lines, hrun, hlines⟩ := hemits.ok (s := .start b width) rfl rfl hstate
  have htexts : state.buffer.texts = lines := by
    rw [Buffer.texts, hrun.lines]
    simp [LoweringState.start, Buffer.empty]
  have htext : linesText lines = text := by
    rw [← read_of_finish hfinish, Buffer.read, htexts, linesText]
  obtain ⟨haccepted, hprints⟩ := hlines hnamed
  exact ⟨program, hparse, haccepted, htext ▸ hprints trivial⟩

/-- A callable becomes one function under its generated name. -/
theorem isFunctionText_of_lower {name : String}
    (h : lower width b source (.callable name) = .ok (text, b')) :
    Lowering.IsFunctionText name text := by
  obtain ⟨program, state, hparse, hstate, -, -⟩ := exists_run_of_lower h
  have hnamed : b'.NamedBy b'.names := id
  obtain ⟨program', hparse', -, hprints⟩ := prints_of_lower h hnamed
  obtain rfl : program = program' := Except.ok.inj (hparse.symm.trans hparse')
  cases hfirst : firstFunction? program with
  | none =>
    unfold Lowering.program Lowering.firstFunction at hstate
    rw [hfirst] at hstate
    cases hstate
  | some d =>
    unfold programSpans at hprints
    rw [hfirst] at hprints
    exact Lowering.isFunctionText_of_prints hprints

end Session

end ScriptCompiler
