import ScriptCompiler.Proofs.Component

/-!
# Callables are written once

All sources of a session share its names. A callable to which any of them refers is compiled once,
under a name that no other callable has, and every reference to it is written as that name: the
texts of a session are what its sources are lowered to under the table of names that the session
ends with.
-/

namespace ScriptCompiler

/-- A source of a session, with the turns of the callables to which it is the first to lead. -/
structure Compilation where
  binding : Option Binding
  source : String
  entry : EntryPoint
  turns : List Turn
  text : String
  /-- The lines that follow in a bundle. -/
  tail : List String

/-- A binder to which nothing can be added: all names are in a table. -/
def Binder.settled (binding : Option Binding) (names : List (Nat × String)) :
    Binder := ⟨binding, names, [], []⟩

namespace Compilation

/-- The text of a source behind the texts of its callables. -/
def output (c : Compilation) : String := String.join (c.turns.map (·.text)) ++ c.text

/-- The parts of a bundle that come from a source. -/
def parts (c : Compilation) : List String := c.output :: c.tail

def extractions (c : Compilation) : List Extraction := c.turns.map (·.extraction)

/-- All references, those of the source itself and those of its callables. -/
def references (c : Compilation) : List Reference :=
  Session.references c.binding c.source c.entry ++ c.turns.flatMap (·.references c.binding)

/-- Every text is what its source is lowered to if references are written as the table of names
says. -/
def LoweredUnder (c : Compilation) (width : Nat) (names : List (Nat × String)) : Prop :=
  Session.lower width (.settled c.binding names) c.source c.entry =
    .ok (c.text, .settled c.binding names) ∧
    ∀ t ∈ c.turns,
      Session.lower width (.settled c.binding names) t.extraction.callable.source
      (.callable t.extraction.name) =
          .ok (t.text, .settled c.binding names) ∧
        Lowering.IsFunctionText t.extraction.name t.text

end Compilation

/-- The extractions of a session. -/
def extractionsOf (compilations : List Compilation) :
    List Extraction := compilations.flatMap (·.extractions)

/-- What a session makes of callables: each one that is referred to is compiled once and has a name
of its own, which is written for every reference to it. -/
structure WrittenOnce (width : Nat) (names : List (Nat × String))
    (compilations : List Compilation) : Prop where
  table : names.Perm ((extractionsOf compilations).map Extraction.key)
  identities : ((extractionsOf compilations).map (·.identity)).Nodup
  generated : ((extractionsOf compilations).map (·.name)).Nodup
  written : ∀ c ∈ compilations, ∀ r ∈ c.references,
    ∃ e ∈ extractionsOf compilations, e.identity = r.identity ∧
    names.lookup r.identity = some e.name
  needed : ∀ e ∈ extractionsOf compilations, ∃ c ∈ compilations, ∃ r ∈ c.references,
    r.target = e.target
  texts : ∀ c ∈ compilations, c.LoweredUnder width names

namespace Session

/-- The binder of a session after some compilations. -/
structure Records (width : Nat) (compilations : List Compilation) (b : Binder) : Prop where
  ready : Ready b [] [] []
  table : b.names.Perm ((extractionsOf compilations).map Extraction.key)
  known : ∀ c ∈ compilations, ∀ r ∈ c.references, r.identity ∈ b.known
  needed : ∀ e ∈ extractionsOf compilations, ∃ c ∈ compilations, ∃ r ∈ c.references,
    r.target = e.target
  texts : ∀ c ∈ compilations, ∀ names : List (Nat × String),
    (∀ {identity : Nat} {name : String}, b.names.lookup identity = some name →
    names.lookup identity = some name) → c.LoweredUnder width names

namespace Records

variable {width : Nat} {compilations : List Compilation} {b b' : Binder}

theorem start (width : Nat) (binding : Option Binding) : Records width [] (.ofBinding binding) := by
  refine ⟨.start binding, ?_, ?_, ?_, ?_⟩ <;> simp [Binder.ofBinding, extractionsOf]

theorem rebind (h : Records width compilations b) (binding : Option Binding) :
    Records width compilations (b.rebind binding) :=
  ⟨h.ready.rebind binding, h.table, h.known, h.needed, h.texts⟩

theorem add {source text : String} {entry : EntryPoint} {turns : List Turn}
    (h : Records width compilations b)
    (hcompiles : Compiles width [] [] b source entry text turns b') (tail : List String) :
    Records width (compilations ++ [⟨b.binding, source, entry, turns, text, tail⟩]) b' := by
  have hextends := hcompiles.extends_start
  have hall : extractionsOf (compilations ++ [⟨b.binding, source, entry, turns, text, tail⟩]) =
      extractionsOf compilations ++ turns.map (·.extraction) := by
    simp [extractionsOf, Compilation.extractions]
  refine ⟨hcompiles.ready h.ready, ?_, ?_, ?_, ?_⟩
  · rw [hall, List.map_append, List.map_map]
    exact (hcompiles.names_perm h.ready).trans
      (List.perm_append_comm.trans (h.table.append_right _))
  · intro c hc r hr
    rcases List.mem_append.mp hc with hc | hc
    · exact hextends.mem_known (h.known c hc r hr)
    · obtain rfl := List.mem_singleton.mp hc
      exact hcompiles.mem_known h.ready hr
  · intro e he
    rw [hall] at he
    rcases List.mem_append.mp he with he | he
    · obtain ⟨c, hc, r, hr, htarget⟩ := h.needed e he
      exact ⟨c, List.mem_append_left _ hc, r, hr, htarget⟩
    · obtain ⟨t, ht, rfl⟩ := List.mem_map.mp he
      obtain ⟨r, hr, htarget⟩ := hcompiles.exists_reference h.ready ht
      exact ⟨_, List.mem_append_right _ List.mem_cons_self, r, hr, htarget⟩
  · -- A table that has the names of the session's end settles every text of it, earlier ones
    -- included.
    intro c hc names hnames
    rcases List.mem_append.mp hc with hc | hc
    · exact h.texts c hc names fun hname => hnames (hextends.names hname)
    · obtain rfl := List.mem_singleton.mp hc
      have hsettles : (Binder.settled b.binding names).Settles b' :=
        ⟨⟨hextends.binding.symm, hnames⟩, rfl⟩
      refine ⟨hcompiles.lower_settled hsettles, fun t ht => ?_⟩
      exact ⟨hcompiles.lower_turn_settled h.ready ht hsettles, hcompiles.isFunctionText h.ready ht⟩

theorem writtenOnce (h : Records width compilations b) :
    WrittenOnce width b.names compilations := by
  have hidentities : b.known.Perm ((extractionsOf compilations).map (·.identity)) := by
    simpa [Binder.known, Extraction.key, Function.comp_def] using h.table.map Prod.fst
  have hgenerated : b.generated.Perm ((extractionsOf compilations).map (·.name)) := by
    simpa [Binder.generated, Extraction.key, Function.comp_def] using h.table.map Prod.snd
  refine ⟨h.table, hidentities.nodup_iff.mp h.ready.nodup,
    hgenerated.nodup_iff.mp h.ready.generated, ?_, h.needed, ?_⟩
  · intro c hc r hr
    cases hname : b.names.lookup r.identity with
    | none => exact absurd (h.known c hc r hr) (Binder.lookup_eq_none_iff_not_mem_known.mp hname)
    | some name =>
      have hmem : (r.identity, name) ∈ b.names := by
        obtain ⟨before, after, hsplit, -⟩ := List.lookup_eq_some_iff.mp hname
        rw [hsplit]
        exact List.mem_append_right _ List.mem_cons_self
      obtain ⟨e, he, hkey⟩ := List.mem_map.mp (h.table.mem_iff.mp hmem)
      obtain ⟨hidentity, rfl⟩ := Prod.mk.inj hkey
      exact ⟨e, he, hidentity, rfl⟩
  · exact fun c hc => h.texts c hc b.names id

end Records

end Session

namespace Bundle

open Session

/-- A compilation is that of a component in its own context or in that of the bundle. -/
def Gives (context : Option Binding) (part : Component × Option Binding) (c : Compilation) : Prop :=
  c.binding = part.2.orElse (fun _ => context) ∧ part.1.prepare = .ok ⟨c.source, c.entry, c.tail⟩

/-- The components of a bundle are compilations of one session. -/
theorem records_of_compileAll {width : Nat} {context : Option Binding}
    {components : List (Component × Option Binding)}
    {b : Binder} {before : List Compilation} {parts : List String}
    (hbefore : Records width before b)
    (h : compileAll width context b components = .ok parts) :
    ∃ compilations b', Records width (before ++ compilations) b' ∧
      List.Forall₂ (Gives context) components compilations ∧
      parts = compilations.flatMap Compilation.parts := by
  induction components generalizing b before parts with
  | nil =>
    injection h with h
    exact ⟨[], b, by rwa [List.append_nil], .nil, h.symm⟩
  | cons part rest ih =>
    obtain ⟨⟨first, b₁⟩, hcomponent, h⟩ := Except.exists_of_bind_eq_ok h
    obtain ⟨more, hmore, h⟩ := Except.exists_of_bind_eq_ok h
    injection h with h
    rw [Component.compile_eq] at hcomponent
    obtain ⟨prepared, hprepare, hcomponent⟩ := Except.exists_of_bind_eq_ok hcomponent
    obtain ⟨⟨units, b₂⟩, hcompile, hcomponent⟩ := Except.exists_of_bind_eq_ok hcomponent
    injection hcomponent with hcomponent
    obtain ⟨rfl, rfl⟩ := Prod.mk.inj hcomponent
    obtain ⟨text, turns, hcompiles, hjoined⟩ := exists_of_compile hcompile
    obtain ⟨compilations, b', hrecords, hgives, rfl⟩ :=
      ih ((hbefore.rebind _).add hcompiles prepared.tail) hmore
    rw [List.append_assoc] at hrecords
    refine ⟨_, b', hrecords, .cons ⟨rfl, hprepare⟩ hgives, ?_⟩
    rw [← h, hjoined]
    simp [Compilation.parts, Compilation.output]

end Bundle

/-- In the output of a unit, and in that of a bundle, every callable that is referred to is one
function, under a name of its own that stands for every reference to it. -/
theorem writtenOnce_of_compile (options : Options) :
    (∀ (unit : SourceUnit) (output : String), unit.compile options = .ok output →
      ∃ (c : Compilation) (names : List (Nat × String)),
        c.binding = unit.context ∧ c.source = unit.source ∧ c.entry = unit.entry ∧
        output = c.output ∧
          WrittenOnce options.indentWidth names [c]) ∧
    ∀ (bundle : Bundle) (output : String), bundle.compile options = .ok output →
      ∃ (compilations : List Compilation) (names : List (Nat × String)),
        List.Forall₂ (Bundle.Gives bundle.context) bundle.components compilations ∧
          output = "\n".intercalate (compilations.flatMap Compilation.parts) ∧
          WrittenOnce options.indentWidth names compilations := by
  constructor
  · intro unit output h
    obtain ⟨text, turns, b, hcompiles, houtput⟩ := SourceUnit.exists_compiles h
    have hrecords := (Session.Records.start options.indentWidth unit.context).add hcompiles []
    exact ⟨⟨unit.context, unit.source, unit.entry, turns, text, []⟩, b.names, rfl, rfl,
      rfl, houtput,
      hrecords.writtenOnce⟩
  · intro bundle output h
    obtain ⟨parts, hparts, h⟩ := Except.exists_of_bind_eq_ok h
    have hstart := Session.Records.start options.indentWidth bundle.context
    obtain ⟨compilations, b, hrecords, hgives, rfl⟩ :=
      Bundle.records_of_compileAll hstart (Except.eq_ok_of_mapError_eq_ok hparts)
    exact ⟨compilations, b.names, hgives, eq_of_verified_eq_ok h, hrecords.writtenOnce⟩

/-- A function that contexts give different names to. -/
def sharedCallable :
    ContextValue := .callable 0 ⟨"double", none, "def double(n):\n    return n + n\n"⟩

def sharingUnit : SourceUnit :=
  ⟨"double(twice(3))\n", some ⟨[("double", sharedCallable), ("twice", sharedCallable)]⟩, .module⟩

def sharingUnitOutput :
    String := "function double(n) \x7b\n    return (n + n);\n\x7d\ndouble(double(3));\n"

def sharingBundle : Bundle :=
  ⟨[(.function "def f():\n    return double(1)\n" none, none),
    (.function "def g():\n    return twice(2)\n" none, some ⟨[("twice", sharedCallable)]⟩)],
    some ⟨[("double", sharedCallable)]⟩⟩

def sharingBundleOutput : String :=
  "function double(n) \x7b\n    return (n + n);\n\x7d\nfunction f() \x7b\n" ++
  "    return double(1);\n\x7d\n\n" ++
    "function g() \x7b\n    return double(2);\n\x7d\n"

theorem writtenOnce_of_sharing :
    (sharingUnit.compile {} = .ok sharingUnitOutput ∧
      ∃ (c : Compilation) (names : List (Nat × String)),
        c.binding = sharingUnit.context ∧ c.source = sharingUnit.source ∧
        c.entry = sharingUnit.entry ∧
          sharingUnitOutput = c.output ∧ WrittenOnce Buffer.defaultWidth names [c]) ∧
    sharingBundle.compile {} = .ok sharingBundleOutput ∧
      ∃ (compilations : List Compilation) (names : List (Nat × String)),
        List.Forall₂ (Bundle.Gives sharingBundle.context) sharingBundle.components compilations ∧
          sharingBundleOutput = "\n".intercalate (compilations.flatMap Compilation.parts) ∧
          WrittenOnce Buffer.defaultWidth names compilations := by
  have hunit : sharingUnit.compile {} = .ok sharingUnitOutput := by decide +kernel
  have hbundle : sharingBundle.compile {} = .ok sharingBundleOutput := by decide +kernel
  exact ⟨⟨hunit, (writtenOnce_of_compile {}).1 sharingUnit _ hunit⟩,
    hbundle, (writtenOnce_of_compile {}).2 sharingBundle _ hbundle⟩

/-- A source that refers to a function of its context and then defines the same function itself. -/
def redefiningUnit : SourceUnit :=
  ⟨"double(1)\ndef double(n):\n    return n + n\n", some ⟨[("double", sharedCallable)]⟩, .module⟩

def doubleText : String := "function double(n) \x7b\n    return (n + n);\n\x7d\n"

/-- The text of an extracted function stands twice in an output if the source has it, too: only as a
unit text of the session is it written once. -/
theorem function_text_written_twice :
    redefiningUnit.compile {} = .ok (doubleText ++ "double(1);\n" ++ doubleText) := by
  decide +kernel

end ScriptCompiler
