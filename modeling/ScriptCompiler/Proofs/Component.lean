import ScriptCompiler.Bundle
import ScriptCompiler.Proofs.Extraction

/-!
# Compilations and components

A unit and each component of a bundle is one source that is compiled in a session, and the output is
made from the texts of that compilation.
-/

namespace ScriptCompiler

variable {d : Diagnostic} {options : Options} {output : String}

namespace Session

/-- What the binder of a session knows after a source is compiled. -/
theorem exists_of_compile {width : Nat} {b b' : Binder} {source : String} {entry : EntryPoint}
    {units : List UnitText}
    (h : compile width b source entry = .ok (units, b')) :
    ∃ text turns, Compiles width [] [] b source entry text turns b' ∧
      UnitText.joined units = String.join (turns.map (·.text)) ++ text := by
  obtain ⟨text, turns, hcompiles, rfl⟩ := compileSource_eq_ok [] [] h
  refine ⟨text, turns, hcompiles, ?_⟩
  simp [UnitText.joined, Turn.unit, Function.comp_def]

end Session

/-- What a component has compiled. -/
structure Prepared where
  source : String
  entry : EntryPoint
  tail : List String

namespace Component

/-- Adapt the source of a component. -/
def prepare : Component → Except Diagnostic Prepared
  | .function source none => return ⟨source, .module, []⟩
  | .function source (some name) => do
    return ⟨← unlocated (renameFunction source name), .callable name, []⟩
  | .hook owner event source => do
    if !hookNames.contains event then throw (Fault.unknownHook event hookNames).report
    return ⟨← unlocated (renameFunction source (owner ++ "_" ++ event)),
      .callable (owner ++ "_" ++ event), []⟩
  | .element source base rename tag => do
    let (source, name) ← unlocated (adaptClass source rename base)
    return ⟨source, .module, (tag.map (registration · name)).toList⟩

/-- A component is compiled as the source that it is adapted to. -/
theorem compile_eq (width : Nat) (b : Binder) (component : Component) :
    component.compile width b = do
      let p ← component.prepare
      let (units, b') ← Session.compile width b p.source p.entry
      return (UnitText.joined units :: p.tail, b') := by
  cases component with
  | function source name =>
    cases name with
    | none => rfl
    | some name => simp only [compile, prepare, bind_assoc, pure_bind]
  | hook owner event source =>
    simp only [compile, prepare]
    split_ifs
    · rfl
    · simp only [bind_assoc, pure_bind]
  | element source base rename tag => simp only [compile, prepare, bind_assoc, pure_bind]

theorem kind_of_unlocated_eq_error {α : Type} {x : Except Fault α} {kind : FailureKind}
    (hx : OnlyFaults (·.kind = kind) x) (h : unlocated x = .error d) : d.kind = kind := by
  cases x with
  | error f =>
    injection h with h
    exact h ▸ hx f rfl
  | ok a => cases h

theorem onlyFaults_renameFunction (source name : String) :
    OnlyFaults (·.kind = .parse) (renameFunction source name) := by
  unfold renameFunction
  split
  · exact .ok _
  · exact .error rfl

theorem onlyFaults_adaptClass (source : String) (rename base : Option String) :
    OnlyFaults (·.kind = .parse) (adaptClass source rename base) := by
  unfold adaptClass
  split
  · exact .ok _
  · exact .error rfl

theorem kind_of_prepare_eq_error {component : Component} (h : component.prepare = .error d) :
    d.kind = .parse ∨ d.kind = .unsupportedConstruct := by
  cases component with
  | function source name =>
    cases name with
    | none => cases h
    | some name =>
      rcases Except.eq_error_or_exists_of_bind_eq_error h with hrename | ⟨_, _, h⟩
      · exact .inl (kind_of_unlocated_eq_error (onlyFaults_renameFunction _ _) hrename)
      · cases h
  | hook owner event source =>
    simp only [prepare] at h
    split_ifs at h
    · injection h with h
      exact .inr (h ▸ rfl)
    · rcases Except.eq_error_or_exists_of_bind_eq_error h with hrename | ⟨_, _, h⟩
      · exact .inl (kind_of_unlocated_eq_error (onlyFaults_renameFunction _ _) hrename)
      · cases h
  | element source base rename tag =>
    rcases Except.eq_error_or_exists_of_bind_eq_error h with hadapt | ⟨_, _, h⟩
    · exact .inl (kind_of_unlocated_eq_error (onlyFaults_adaptClass _ _ _) hadapt)
    · cases h

end Component

/-! ## Outcomes -/

theorem Diagnostic.kind_inFile (d : Diagnostic) (file : String) :
    (d.inFile file).kind = d.kind := by
  unfold inFile
  split_ifs <;> rfl

theorem eq_of_verified_eq_ok {output' : String} (h : verified options output = .ok output') :
    output' = output := by
  unfold verified at h
  split_ifs at h
  injection h with h
  exact h.symm

theorem kind_eq_of_verified_eq_error (h : verified options output = .error d) :
    d.kind = .outputVerification := by
  unfold verified at h
  split_ifs at h
  injection h with h
  rw [← h]
  rfl

theorem kind_of_verified_eq_error (h : verified options output = .error d) :
    d.kind ≠ .cyclicContext := by
  rw [kind_eq_of_verified_eq_error h]
  simp

/-- The compilation behind the output of a unit. -/
theorem SourceUnit.exists_compiles {unit : SourceUnit} (h : unit.compile options = .ok output) :
    ∃ text turns b,
      Session.Compiles options.indentWidth [] [] (.ofBinding unit.context) unit.source unit.entry
      text turns b ∧
        output = String.join (turns.map (·.text)) ++ text := by
  obtain ⟨⟨units, b⟩, hcompile, h⟩ := Except.exists_of_bind_eq_ok h
  obtain ⟨text, turns, hcompiles, hjoined⟩ :=
    Session.exists_of_compile (Except.eq_ok_of_mapError_eq_ok hcompile)
  exact ⟨text, turns, b, hcompiles, (eq_of_verified_eq_ok h).trans hjoined⟩

end ScriptCompiler
