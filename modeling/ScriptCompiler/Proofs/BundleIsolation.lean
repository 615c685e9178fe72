import ScriptCompiler.Proofs.Termination
import ScriptCompiler.Proofs.Elementary

/-!
# Units that share nothing

The units of a bundle share a binder, and a binder keeps nothing of a unit but the callables that
the unit refers to. So if no context has callables, each unit is compiled as in a bundle of its own,
and the output of the bundle is made of the outputs of these.
-/

namespace ScriptCompiler

variable {b b' : Binder} {parts : List String} {components : List (Component × Option Binding)}

/-! ## Binders without callables -/

namespace Session

variable {width : Nat} {context : Option Binding} {source : String} {entry : EntryPoint}

/-- A binder changes by callables of its context alone. -/
theorem binder_eq_of_lower {text : String} (hcallables : contextCallables b.binding = [])
    (hpending : b.pending = []) (h : lower width b source entry = .ok (text, b')) : b' = b := by
  have hempty : b'.pending = [] := by
    rw [List.eq_nil_iff_forall_not_mem]
    intro e he
    rcases pending_of_lower h e he with hold | htarget
    · rw [hpending] at hold
      cases hold
    · rw [hcallables] at htarget
      cases htarget
  obtain ⟨hbinding, hprogress, hnames, -⟩ := queues_of_lower hpending h
  obtain ⟨binding, names, inProgress, pending⟩ := b
  obtain ⟨binding', names', inProgress', pending'⟩ := b'
  simp_all

theorem binder_eq_of_compile {units : List UnitText} (hcallables : contextCallables context = [])
    (h : compile width (.ofBinding context) source entry = .ok (units, b)) :
    b = .ofBinding context := by
  rw [compile] at h
  cases hlower : lower width (.ofBinding context) source entry with
  | error d =>
    rw [compileSource_of_lower_eq_error hlower] at h
    cases h
  | ok out =>
    obtain ⟨text, b₁⟩ := out
    obtain rfl : b₁ = .ofBinding context := binder_eq_of_lower hcallables rfl hlower
    rw [compileSource_of_lower_eq_ok hlower] at h
    cases h
    rfl

end Session

namespace Component

variable {width : Nat} {context : Option Binding} {component : Component}

theorem binder_eq_of_compile (hcallables : contextCallables context = [])
    (h : component.compile width (.ofBinding context) = .ok (parts, b)) :
    b = .ofBinding context := by
  rw [compile_eq] at h
  obtain ⟨p, -, h⟩ := Except.exists_of_bind_eq_ok h
  obtain ⟨⟨units, b₁⟩, hcompile, h⟩ := Except.exists_of_bind_eq_ok h
  cases h
  exact Session.binder_eq_of_compile hcallables hcompile

/-- A component has a text of its own, whatever comes behind it. -/
theorem parts_ne_nil (h : component.compile width b = .ok (parts, b')) : parts ≠ [] := by
  rw [compile_eq] at h
  obtain ⟨p, -, h⟩ := Except.exists_of_bind_eq_ok h
  obtain ⟨_, -, h⟩ := Except.exists_of_bind_eq_ok h
  cases h
  exact List.cons_ne_nil _ _

end Component

namespace Bundle

/-- The context that a component is compiled against. -/
def contextOf (bundle : Bundle) (c : Component × Option Binding) :
    Option Binding := c.2.orElse fun _ => bundle.context

/-- A component in a bundle of its own. -/
def alone (bundle : Bundle) (c : Component × Option Binding) :
    Bundle := ⟨[(c.1, none)], bundle.contextOf c⟩

/-- The parts of the components, each compiled first. -/
def partsOf (bundle : Bundle) (width : Nat) (c : Component × Option Binding) :
    Except Diagnostic (List String) :=
  (c.1.compile width (.ofBinding (bundle.contextOf c))).map Prod.fst

variable (bundle : Bundle) (width : Nat)

/-- Without callables in their contexts, components leave no trace for those behind them. -/
theorem compileAll_eq_mapM (h : ∀ c ∈ components, contextCallables (bundle.contextOf c) = [])
    (start : Option Binding) : compileAll width bundle.context (.ofBinding start) components =
      (components.mapM (bundle.partsOf width)).map List.flatten := by
  induction components generalizing start with
  | nil => rfl
  | cons c rest ih =>
    obtain ⟨hfirst, hrest⟩ := List.forall_mem_cons.mp h
    have hrebind : (Binder.ofBinding start).rebind (c.2.orElse fun _ => bundle.context) =
      .ofBinding (bundle.contextOf c) := rfl
    rw [compileAll, hrebind, List.mapM_cons, partsOf]
    cases hcompile : c.1.compile width (.ofBinding (bundle.contextOf c)) with
    | error d => rfl
    | ok out =>
      obtain ⟨parts, b⟩ := out
      obtain rfl := Component.binder_eq_of_compile hfirst hcompile
      have hmore := ih hrest (bundle.contextOf c)
      show (compileAll width bundle.context (.ofBinding (bundle.contextOf c)) rest >>= fun more =>
        Except.ok (parts ++ more)) = Except.map List.flatten
          (rest.mapM (bundle.partsOf width) >>= fun more =>
          Except.ok (parts :: more))
      rw [hmore]
      cases rest.mapM (bundle.partsOf width) <;> rfl

variable {bundle width} {options : Options}

theorem forall_ne_nil_of_partsOf {partss : List (List String)}
    (h : List.Forall₂ (fun c parts => bundle.partsOf width c = .ok parts) components partss) :
    ∀ parts ∈ partss, parts ≠ [] := by
  induction h with
  | nil => simp
  | @cons c parts _ _ hparts _ ih =>
    refine List.forall_mem_cons.mpr ⟨?_, ih⟩
    rw [partsOf] at hparts
    cases hcompile : c.1.compile width (.ofBinding (bundle.contextOf c)) with
    | error d =>
      rw [hcompile] at hparts
      cases hparts
    | ok out =>
      rw [hcompile] at hparts
      cases hparts
      exact Component.parts_ne_nil hcompile

theorem compile_eq_map (hoff : options.verifyOutput = false) : bundle.compile options =
      ((compileAll options.indentWidth bundle.context (.ofBinding bundle.context)
      bundle.components).mapError
        (·.inFile options.fileName)).map ("\n".intercalate ·) := by
  rw [compile]
  cases compileAll options.indentWidth bundle.context (.ofBinding bundle.context)
    bundle.components with
  | error d => rfl
  | ok parts =>
    show verified options ("\n".intercalate parts) = _
    rw [verified, hoff]
    rfl

theorem compile_alone (hoff : options.verifyOutput = false) {c : Component × Option Binding}
    (h : contextCallables (bundle.contextOf c) = []) :
    (bundle.alone c).compile options =
      ((bundle.partsOf options.indentWidth c).mapError (·.inFile options.fileName)).map
      ("\n".intercalate ·) := by
  have hall : ∀ c' ∈ (bundle.alone c).components, contextCallables
      ((bundle.alone c).contextOf c') = [] := by
    simpa [alone, contextOf] using h
  have hparts : (bundle.alone c).partsOf options.indentWidth (c.1, none) =
      bundle.partsOf options.indentWidth c := rfl
  rw [compile_eq_map hoff, compileAll_eq_mapM _ _ hall]
  show (((([(c.1, none)] : List (Component × Option Binding)).mapM
    ((bundle.alone c).partsOf options.indentWidth)).map
    List.flatten).mapError _).map _ = _
  rw [List.mapM_cons, hparts]
  cases bundle.partsOf options.indentWidth c with
  | error d => rfl
  | ok parts =>
    show Except.ok ("\n".intercalate [parts].flatten) = _
    rw [List.flatten_cons, List.flatten_nil, List.append_nil]
    rfl

theorem compile_eq_mapM_alone
    (h : ∀ c ∈ bundle.components, contextCallables (bundle.contextOf c) = [])
    (hoff : options.verifyOutput = false) :
    bundle.compile options =
      (bundle.components.mapM fun c => (bundle.alone c).compile options).map
      ("\n".intercalate ·) := by
  rw [compile_eq_map hoff, compileAll_eq_mapM _ _ h, Except.mapM_view fun c hc =>
    compile_alone hoff (h c hc)]
  cases hparts : bundle.components.mapM (bundle.partsOf options.indentWidth) with
  | error d => rfl
  | ok partss =>
    have hsome := forall_ne_nil_of_partsOf (Except.mapM_eq_ok_iff.mp hparts)
    exact congrArg Except.ok (intercalate_flatten "\n" hsome)

/-- The units of a bundle are isolated. If no context of a unit has callables and outputs are not
verified, a bundle compiles exactly if every unit does in a bundle of its own, under the context of
the unit or else that of the bundle. The output is then made of the outputs of the units, joined by
line feeds in their order; otherwise the report is that of the first unit that fails. -/
theorem compile_iff_alone (bundle : Bundle) (options : Options)
    (h : ∀ c ∈ bundle.components, contextCallables (bundle.contextOf c) = [])
    (hoff : options.verifyOutput = false) :
    (∀ output, bundle.compile options = .ok output ↔
      ∃ outputs, List.Forall₂ (fun c own => (bundle.alone c).compile options = .ok own)
      bundle.components outputs ∧
        output = "\n".intercalate outputs) ∧
    ∀ d, bundle.compile options = .error d ↔
      ∃ before c after, bundle.components = before ++ c :: after ∧
        (∀ earlier ∈ before, ((bundle.alone earlier).compile options).isOk = true) ∧
        (bundle.alone c).compile options = .error d := by
  rw [compile_eq_mapM_alone h hoff]
  constructor
  · intro output
    rw [Except.map_eq_ok_iff]
    simp only [Except.mapM_eq_ok_iff]
  · intro d
    rw [Except.map_eq_error_iff, Except.mapM_eq_error_iff]

/-- Two units that define the same names and temporaries, one of them under a context of its own. -/
def apartBundle : Bundle :=
  ⟨[(.function "while x:\n    y = x\nelse:\n    y = 0\n" none, some ⟨[("x", .integer 1)]⟩),
    (.function "while x:\n    y = x\nelse:\n    y = 0\n" none, none),
    (.element "class A:\n    y = x\n" none (some "B") (some "b-b"), none)],
    some ⟨[("x", .integer 2)]⟩⟩

/-- The same bundle with a unit that fails. -/
def failingBundle : Bundle := { apartBundle with
  components :=
    apartBundle.components ++ [(.function "del x\n" none, none),
      (.function "import x\n" none, none)] }

theorem compile_apartBundle_iff :
    (∀ c ∈ apartBundle.components, contextCallables (apartBundle.contextOf c) = []) ∧
    (apartBundle.compile {}).isOk = true ∧
    (∀ output, apartBundle.compile {} = .ok output →
      ∃ outputs, List.Forall₂ (fun c own => (apartBundle.alone c).compile {} = .ok own)
      apartBundle.components outputs ∧
        output = "\n".intercalate outputs) ∧
    (failingBundle.compile {}).isOk = false ∧
    ∀ d, failingBundle.compile {} = .error d →
      ∃ before c after, failingBundle.components = before ++ c :: after ∧
        (∀ earlier ∈ before, ((failingBundle.alone earlier).compile {}).isOk = true) ∧
        (failingBundle.alone c).compile {} = .error d := by
  have hnone : ∀ c ∈ apartBundle.components, contextCallables (apartBundle.contextOf c) = [] := by
    simp [apartBundle, contextOf, contextCallables, entryCallables, ContextValue.callables]
  have hnone' :
      ∀ c ∈ failingBundle.components, contextCallables (failingBundle.contextOf c) = [] := by
    simp [failingBundle, apartBundle, contextOf, contextCallables, entryCallables,
      ContextValue.callables]
  obtain ⟨houtput, -⟩ := compile_iff_alone apartBundle {} hnone rfl
  obtain ⟨-, hreport⟩ := compile_iff_alone failingBundle {} hnone' rfl
  exact ⟨hnone, by decide +kernel, fun output => (houtput output).mp, by decide +kernel,
    fun d => (hreport d).mp⟩

end Bundle

end ScriptCompiler
