import ScriptCompiler.Proofs.ExtractionOrder

/-!
# Cycles of callables

A callable that refers to itself, or to a callable around it whose extraction is in progress, is
refused, and every such refusal is about a cycle. A cycle is missed if it has a reference to a
callable that waits for its turn: that callable has its name already, and when its turn comes the
callable that referred to it is done.
-/

namespace ScriptCompiler

/-! ## The graph of references -/

/-- A callable that a source leads to: the source refers to it, or a callable that it leads to
does. -/
inductive Reachable (binding : Option Binding) (roots : List Reference) : Nat × Callable → Prop
  | root {r : Reference} (hr : r ∈ roots) : Reachable binding roots r.target
  | step {i : Nat} {c : Callable} {r : Reference} (hc : Reachable binding roots (i, c))
      (hr : r ∈ c.references binding) : Reachable binding roots r.target

/-- The references between the callables that a source leads to. -/
def Calls (binding : Option Binding) (roots : List Reference) (i j : Nat) : Prop :=
  ∃ c : Callable, Reachable binding roots (i, c) ∧ ∃ r ∈ c.references binding, r.identity = j

variable {roots : List Reference} {path : List Extraction}

theorem Reachable.of_mem {binding : Option Binding} {target : Nat × Callable}
    (h : target ∈ roots.map Reference.target) : Reachable binding roots target := by
  obtain ⟨r, hr, rfl⟩ := List.mem_map.mp h
  exact .root hr

/-! ## Cycles that are not refused -/

/-- Whether a callable refers to another one. -/
def Turn.RefersTo (binding : Option Binding) (t u : Turn) : Prop :=
  ∃ r ∈ t.references binding, r.identity = u.identity

/-- A reference of a turn to a callable that does not wait meanwhile. -/
def Turn.RefersBack (binding : Option Binding) (turns : List Turn) (t u : Turn) : Prop :=
  t ∈ turns ∧ u ∈ turns ∧ t.RefersTo binding u ∧ u.identity ∉ t.waiting.map (·.identity)

namespace Session.Compiles

variable {width : Nat} {binding : Option Binding} {source text : String} {entry : EntryPoint}
  {turns : List Turn}
  {b' : Binder}

theorem idxOf_lt_of_refersBack
    (h : Compiles width [] [] (.ofBinding binding) source entry text turns b') {t u : Turn}
    (hback : t.RefersBack binding turns u) :
    (turns.map Turn.identity).idxOf u.identity < (turns.map Turn.identity).idxOf t.identity := by
  obtain ⟨ht, -, ⟨r, hr, hid⟩, hnot⟩ := hback
  obtain ⟨before, after, rfl⟩ := List.append_of_mem ht
  obtain ⟨v, hv, hvid⟩ := (h.exists_before_or_waiting hr).resolve_right (hid ▸ hnot)
  have hnodup := h.nodup (Ready.start binding)
  rw [List.map_append, List.map_cons] at hnodup ⊢
  have hbefore : u.identity ∈ before.map Turn.identity := hid ▸ hvid ▸ List.mem_map_of_mem hv
  have hself : t.identity ∉ before.map Turn.identity := fun hmem =>
    List.disjoint_of_nodup_append hnodup hmem List.mem_cons_self
  rw [List.idxOf_append_of_mem hbefore, List.idxOf_append_of_notMem hself, List.idxOf_cons_self]
  exact List.idxOf_lt_length_iff.mpr hbefore

/-- References to callables that do not wait lead to earlier turns, so they form no cycle. -/
theorem not_transGen_refersBack
    (h : Compiles width [] [] (.ofBinding binding) source entry text turns b') (t : Turn) :
    ¬ Relation.TransGen (Turn.RefersBack binding turns) t t := by
  have hlt : ∀ {t u : Turn}, Relation.TransGen (Turn.RefersBack binding turns) t u →
      (turns.map Turn.identity).idxOf u.identity < (turns.map Turn.identity).idxOf t.identity := by
    intro t u hpath
    induction hpath with
    | single hstep => exact h.idxOf_lt_of_refersBack hstep
    | tail _ hstep ih => exact (h.idxOf_lt_of_refersBack hstep).trans ih
  exact fun hcycle => lt_irrefl _ (hlt hcycle)

end Session.Compiles

/-- In a unit that compiles no callable refers to itself or to a callable in progress around it, and
every cycle of the callables that the unit leads to has a reference to a callable that waits. What
waits during a turn is what the source or a callable around the turn refers to. -/
theorem cycle_waits_of_compile {unit : SourceUnit} {options : Options} {output : String}
    (h : unit.compile options = .ok output) :
    ∃ text turns b,
      Session.Compiles options.indentWidth [] [] (.ofBinding unit.context) unit.source unit.entry
      text turns b ∧
        (∀ r ∈ Session.references unit.context unit.source unit.entry ++
        turns.flatMap (·.references unit.context),
          ∃ t ∈ turns, t.identity = r.identity) ∧
        (∀ t ∈ turns, ∀ r ∈ t.references unit.context,
          r.identity ∉ (t.extraction :: t.enclosing).map (·.identity)) ∧
        (∀ t ∈ turns, ∀ e ∈ t.waiting,
          ∃ r ∈ Session.references unit.context unit.source unit.entry ++
              t.enclosing.flatMap (·.callable.references unit.context),
            r.target = e.target) ∧
        ∀ t, ¬ Relation.TransGen (Turn.RefersBack unit.context turns) t t := by
  obtain ⟨text, turns, b, hcompiles, -⟩ := SourceUnit.exists_compiles h
  refine ⟨text, turns, b, hcompiles, fun r hr => hcompiles.exists_turn hr, ?_, ?_,
    hcompiles.not_transGen_refersBack⟩
  · exact fun t ht r hr => hcompiles.not_mem_enclosing (Session.Ready.start unit.context) ht hr
  · exact fun t ht e he => hcompiles.exists_reference_of_waiting ht he

/-- The first of two callables that refer to each other. -/
def ping : Callable := ⟨"ping", none, "def ping():\n    return pong()\n"⟩

def pong : Callable := ⟨"pong", none, "def pong():\n    return ping()\n"⟩

def pingPong : Option Binding := some ⟨[("ping", .callable 0 ping), ("pong", .callable 1 pong)]⟩

/-- A source that refers to both of them. -/
def callsPingPong : SourceUnit := ⟨"ping()\npong()\n", pingPong, .module⟩

def callsPingPongOutput : String :=
  "function ping() \x7b\n    return pong();\n\x7d\nfunction pong() \x7b\n    return ping();\n" ++
  "\x7d\nping();\npong();\n"

theorem cycle_waits_callsPingPong :
    callsPingPong.compile {} = .ok callsPingPongOutput ∧
      ∃ text turns b,
        Session.Compiles (Options.indentWidth {}) [] []
        (.ofBinding pingPong) callsPingPong.source callsPingPong.entry
            text turns b ∧
          (∀ r ∈ Session.references pingPong callsPingPong.source callsPingPong.entry ++
              turns.flatMap (·.references pingPong),
            ∃ t ∈ turns, t.identity = r.identity) ∧
          (∀ t ∈ turns, ∀ r ∈ t.references pingPong, r.identity ∉ (t.extraction :: t.enclosing).map
            (·.identity)) ∧
          (∀ t ∈ turns, ∀ e ∈ t.waiting,
            ∃ r ∈ Session.references pingPong callsPingPong.source callsPingPong.entry ++
                t.enclosing.flatMap (·.callable.references pingPong),
              r.target = e.target) ∧
          ∀ t, ¬ Relation.TransGen (Turn.RefersBack pingPong turns) t t := by
  have h : callsPingPong.compile {} = .ok callsPingPongOutput := by decide +kernel
  exact ⟨h, cycle_waits_of_compile h⟩

/-- A source that refers to one of them only. -/
def callsPing : SourceUnit := ⟨"ping()\n", pingPong, .module⟩

def pingReport :
    Diagnostic := ((Fault.cyclicCallable ping.name).reportAt ⟨2, 12⟩).inFile (Options.fileName {})

/-- A source can lead to a cycle and compile, and another source that leads to the same cycle is
refused. -/
theorem callsPingPong_compiles_with_cycle :
    callsPingPong.compile {} = .ok callsPingPongOutput ∧
      Relation.TransGen
      (Calls pingPong (Session.references pingPong callsPingPong.source callsPingPong.entry)) 0 0 ∧
      callsPing.compile {} = .error pingReport := by
  refine ⟨by decide +kernel, ?_, by decide +kernel⟩
  have hping :
      Calls pingPong (Session.references pingPong callsPingPong.source callsPingPong.entry) 0 1 :=
    ⟨ping, .of_mem (by decide +kernel), List.mem_map.mp (by decide +kernel)⟩
  have hpong :
      Calls pingPong (Session.references pingPong callsPingPong.source callsPingPong.entry) 1 0 :=
    ⟨pong, .of_mem (by decide +kernel), List.mem_map.mp (by decide +kernel)⟩
  exact .tail (.single hping) hpong

/-! ## Refusals -/

/-- What the innermost of some callables in progress refers to, or the source if there is none. -/
def innermostReferences (binding : Option Binding) (roots : List Reference) :
    List Extraction → List Reference
  | [] => roots
  | e :: _ => e.callable.references binding

/-- Callables in progress, the innermost first: the one around it refers to each, and the source to
the outermost. -/
def Trail (binding : Option Binding) (roots : List Reference) : List Extraction → Prop
  | [] => True
  | e :: path => Trail binding roots path ∧ ∃ r ∈ innermostReferences binding roots path,
      r.target = e.target

namespace Trail

variable {binding : Option Binding} {roots : List Reference}

theorem reachable : ∀ {path : List Extraction} {e : Extraction},
    Trail binding roots (e :: path) → Reachable binding roots e.target
  | [], _, ⟨_, _, hr, htarget⟩ => htarget ▸ .root hr
  | _ :: _, _, ⟨hpath, _, hr, htarget⟩ => htarget ▸ .step hpath.reachable hr

theorem reflTransGen :
    ∀ {path : List Extraction} {e : Extraction}, Trail binding roots (e :: path) →
    ∀ e' ∈ e :: path, Relation.ReflTransGen (Calls binding roots) e'.identity e.identity
  | [], _, _, _, he' => List.mem_singleton.mp he' ▸ .refl
  | around :: _, e, ⟨hpath, r, hr, htarget⟩, e', he' => by
    rcases List.mem_cons.mp he' with rfl | he'
    · exact .refl
    · have hid : r.identity = e.identity := congrArg Prod.fst htarget
      exact (hpath.reflTransGen e' he').tail ⟨around.callable, hpath.reachable, r, hr, hid⟩

theorem reachable_of_mem : ∀ {path : List Extraction}, Trail binding roots path → ∀ {r : Reference},
    r ∈ innermostReferences binding roots path → Reachable binding roots r.target
  | [], _, _, hr => .root hr
  | _ :: _, hpath, _, hr => .step hpath.reachable hr

/-- A reference to a callable in progress closes a cycle. -/
theorem transGen_of_mem (h : Trail binding roots path) {r : Reference}
    (hr : r ∈ innermostReferences binding roots path) (hmem : r.identity ∈ path.map (·.identity)) :
    Relation.TransGen (Calls binding roots) r.identity r.identity := by
  cases path with
  | nil => exact absurd hmem List.not_mem_nil
  | cons e path =>
    obtain ⟨e', he', hid⟩ := List.mem_map.mp hmem
    have hpath := h.reflTransGen e' he'
    have hlast : Calls binding roots e.identity r.identity := ⟨e.callable, h.reachable, r, hr, rfl⟩
    rw [hid] at hpath
    exact .tail' hpath hlast

end Trail

/-- A report about a reference to a callable that lies on a cycle. -/
def ReportsCycle (binding : Option Binding) (roots : List Reference) (d : Diagnostic) : Prop :=
  ∃ (r : Reference) (pos : Position),
    Reachable binding roots r.target ∧
    Relation.TransGen (Calls binding roots) r.identity r.identity ∧
      d = (Fault.cyclicCallable r.callable.name).reportAt pos

namespace Session

variable {width : Nat} {b b' : Binder} {source : String} {entry : EntryPoint} {d : Diagnostic}

/-- A refusal for a cycle, with the callables of a trail in progress, is about a cycle. -/
theorem reportsCycle_of_compileSource {depth : Nat} {extraction : Option Extraction}
    {waiting : List Extraction} (hkind : d.kind = .cyclicContext)
    (h : compileSource width depth b source entry extraction = .error d)
    (hready : Ready b path [] waiting)
    (htrail : Trail b.binding roots path)
    (hrefs : references b.binding source entry = innermostReferences b.binding roots path) :
    ReportsCycle b.binding roots d := by
  induction depth generalizing b source entry extraction path waiting with
  | zero =>
    injection h with h
    simp [← h, Fault.report, Fault.kind] at hkind
  | succ depth ih =>
    -- The source refers to every callable of its queue, so each extends the trail in its turn.
    have hqueue : ∀ (queue : List Extraction) (c : Binder), c.binding = b.binding →
        Ready c path queue waiting →
        (∀ e ∈ queue, ∃ r ∈ innermostReferences b.binding roots path, r.target = e.target) →
        extractAll (fun b e => compileSource width depth b e.callable.source (.callable e.name)
        (some e)) c queue =
          .error d →
        ReportsCycle b.binding roots d := by
      intro queue
      induction queue with
      | nil =>
        intro c _ _ _ h
        cases h
      | cons e rest ihrest =>
        intro c hbinding hready hfrom h
        rcases Except.eq_error_or_exists_of_bind_eq_error h with hfirst | ⟨⟨units, c₁⟩, hfirst, h⟩
        · -- The callable that fails is the innermost one in progress.
          have hbegin : (c.beginExtraction e.identity).binding = b.binding := hbinding
          have hself : Trail b.binding roots (e :: path) := ⟨htrail, hfrom e List.mem_cons_self⟩
          rw [← hbegin] at hself ⊢
          exact ih hfirst hready.begin hself (references_callable _ _ e.name e.callable.name)
        · rcases Except.eq_error_or_exists_of_bind_eq_error h with hrest | ⟨_, _, h⟩
          · obtain ⟨text, turns, hcompiles, -⟩ :=
              compileSource_eq_ok (e :: path) (rest ++ waiting) hfirst
            refine ihrest _ ?_ (hready.leave (hcompiles.ready hready.begin)) ?_ hrest
            · exact hcompiles.extends_start.binding.trans hbinding
            · exact fun e' he' => hfrom e' (List.mem_cons_of_mem _ he')
          · cases h
    rcases Except.eq_error_or_exists_of_bind_eq_error h with hlower | ⟨⟨text, b₁⟩, hlower, h⟩
    · obtain ⟨r, hr, hprogress, pos, hd⟩ := lower_eq_error hlower hkind
      rw [hrefs] at hr
      rw [hready.inProgress] at hprogress
      exact ⟨r, pos, htrail.reachable_of_mem hr, htrail.transGen_of_mem hr hprogress, hd⟩
    · rcases Except.eq_error_or_exists_of_bind_eq_error h with hextract | ⟨_, _, h⟩
      · have hqueues := queues_of_lower hready.pending hlower
        refine hqueue b₁.pending { b₁ with pending := [] } hqueues.binding (hready.lowered hlower)
          (fun e he => ?_)
          hextract
        exact hrefs ▸ hqueues.exists_reference he
      · cases h

theorem reportsCycle_of_compile (hkind : d.kind = .cyclicContext)
    (h : compile width b source entry = .error d)
    (hready : Ready b [] [] []) : ReportsCycle b.binding (references b.binding source entry) d :=
  reportsCycle_of_compileSource hkind h hready trivial rfl

end Session

namespace Bundle

open Session

theorem reportsCycle_of_compileAll {width : Nat} {context : Option Binding} {d : Diagnostic}
    {components : List (Component × Option Binding)} {b : Binder} (hkind : d.kind = .cyclicContext)
    (hready : Ready b [] [] []) (h : compileAll width context b components = .error d) :
    ∃ part ∈ components, ∃ p, part.1.prepare = .ok p ∧
      ReportsCycle (part.2.orElse fun _ => context)
        (references (part.2.orElse fun _ => context) p.source p.entry) d := by
  induction components generalizing b with
  | nil => cases h
  | cons part rest ih =>
    obtain ⟨component, own⟩ := part
    have hbound := hready.rebind (own.orElse fun _ => context)
    rcases Except.eq_error_or_exists_of_bind_eq_error h with hfirst | ⟨⟨parts, b₁⟩, hfirst, h⟩
    · rw [Component.compile_eq] at hfirst
      rcases Except.eq_error_or_exists_of_bind_eq_error hfirst with hprepare | ⟨p, hprepare, hfirst⟩
      · rcases Component.kind_of_prepare_eq_error hprepare with h | h <;> rw [h] at hkind <;>
          cases hkind
      · refine ⟨_, List.mem_cons_self, p, hprepare, ?_⟩
        rcases Except.eq_error_or_exists_of_bind_eq_error hfirst with hcompile | ⟨_, _, hfirst⟩
        · exact reportsCycle_of_compile hkind hcompile hbound
        · cases hfirst
    · rcases Except.eq_error_or_exists_of_bind_eq_error h with hrest | ⟨_, _, h⟩
      · rw [Component.compile_eq] at hfirst
        obtain ⟨p, -, hfirst⟩ := Except.exists_of_bind_eq_ok hfirst
        obtain ⟨⟨units, b₂⟩, hcompile, hfirst⟩ := Except.exists_of_bind_eq_ok hfirst
        injection hfirst with hfirst
        obtain ⟨-, rfl⟩ := Prod.mk.inj hfirst
        obtain ⟨text, turns, hcompiles, -⟩ := exists_of_compile hcompile
        obtain ⟨part, hpart, hreports⟩ := ih (hcompiles.ready hbound) hrest
        exact ⟨part, List.mem_cons_of_mem _ hpart, hreports⟩
      · cases h

end Bundle

/-- A unit or a bundle is refused for a cycle only if callables that it leads to form one, and the
report names a callable on it. -/
theorem cycle_of_cyclicContext (options : Options) :
    (∀ (unit : SourceUnit) (d : Diagnostic), unit.compile options = .error d →
    d.kind = .cyclicContext →
      ∃ d₀, d = d₀.inFile options.fileName ∧
        ReportsCycle unit.context (Session.references unit.context unit.source unit.entry) d₀) ∧
    ∀ (bundle : Bundle) (d : Diagnostic), bundle.compile options = .error d →
    d.kind = .cyclicContext →
      ∃ d₀, d = d₀.inFile options.fileName ∧
        ∃ part ∈ bundle.components, ∃ p, part.1.prepare = .ok p ∧
          ReportsCycle (part.2.orElse fun _ => bundle.context)
            (Session.references (part.2.orElse fun _ => bundle.context) p.source p.entry) d₀ := by
  constructor
  · intro unit d h hkind
    rcases Except.eq_error_or_exists_of_bind_eq_error h with h | ⟨_, _, h⟩
    · obtain ⟨d₀, hcompile, rfl⟩ := Except.exists_of_mapError_eq_error h
      rw [Diagnostic.kind_inFile] at hkind
      exact ⟨d₀, rfl, Session.reportsCycle_of_compile hkind hcompile (.start unit.context)⟩
    · exact absurd hkind (kind_of_verified_eq_error h)
  · intro bundle d h hkind
    rcases Except.eq_error_or_exists_of_bind_eq_error h with h | ⟨_, _, h⟩
    · obtain ⟨d₀, hcompile, rfl⟩ := Except.exists_of_mapError_eq_error h
      rw [Diagnostic.kind_inFile] at hkind
      exact ⟨d₀, rfl, Bundle.reportsCycle_of_compileAll hkind (.start bundle.context) hcompile⟩
    · exact absurd hkind (kind_of_verified_eq_error h)

/-- A component without callables, and one that refers to a callable of a cycle. -/
def pingBundle : Bundle :=
  ⟨[(.function "def f():\n    return 1\n" none, none),
    (.function "def g():\n    return ping()\n" (some "h"), pingPong)], none⟩

theorem cycle_of_pingReport :
    (callsPing.compile {} = .error pingReport ∧ pingReport.kind = .cyclicContext ∧
      ∃ d₀, pingReport = d₀.inFile (Options.fileName {}) ∧
        ReportsCycle pingPong (Session.references pingPong callsPing.source callsPing.entry) d₀) ∧
    pingBundle.compile {} = .error pingReport ∧
      ∃ d₀, pingReport = d₀.inFile (Options.fileName {}) ∧
        ∃ part ∈ pingBundle.components, ∃ p, part.1.prepare = .ok p ∧
          ReportsCycle (part.2.orElse fun _ => pingBundle.context)
            (Session.references (part.2.orElse fun _ => pingBundle.context) p.source p.entry)
            d₀ := by
  have hunit : callsPing.compile {} = .error pingReport := by decide +kernel
  have hbundle : pingBundle.compile {} = .error pingReport := by decide +kernel
  have hkind : pingReport.kind = .cyclicContext := by decide +kernel
  exact ⟨⟨hunit, hkind, (cycle_of_cyclicContext {}).1 callsPing _ hunit hkind⟩,
    hbundle, (cycle_of_cyclicContext {}).2 pingBundle _ hbundle hkind⟩

end ScriptCompiler
