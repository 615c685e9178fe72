import ScriptCompiler.Proofs.Component
import ScriptCompiler.Proofs.SourceSoundness

/-!
# Extraction ends

Compiling a source leads to the callables that it refers to, each of them a source that may refer to
any other callable or to itself. `Ends` describes this recursion without a bound on its depth. It
ends because a callable has its name before its own compilation begins: the callables of the context
that have no name become fewer with every compilation inside another one.
-/

namespace ScriptCompiler

variable {depth : Nat} {d : Diagnostic} {b₁ : Binder} {e : Extraction}
  {rest enclosing waiting : List Extraction}

def contextIdentities (binding : Option Binding) : List Nat := (contextCallables binding).map (·.1)

/-- How many of some identities are those of callables without a name. -/
def Binder.unnamedCount (b : Binder) (identities : List Nat) :
    Nat := (identities.toFinset \ b.known.toFinset).card

namespace Binder

variable {b b' : Binder} {identities : List Nat}

theorem unnamedCount_le (h : b.known ⊆ b'.known) :
    b'.unnamedCount identities ≤ b.unnamedCount identities := by
  refine Finset.card_le_card (Finset.sdiff_subset_sdiff (Finset.Subset.refl _) ?_)
  intro i hi
  exact List.mem_toFinset.mpr (h (List.mem_toFinset.mp hi))

/-- One more callable with a name. -/
theorem unnamedCount_lt (h : b.known ⊆ b'.known) {i : Nat} (hi : i ∈ identities)
    (hnew : i ∉ b.known)
    (hnamed : i ∈ b'.known) : b'.unnamedCount identities < b.unnamedCount identities := by
  refine Finset.card_lt_card (Finset.ssubset_iff_subset_ne.mpr ⟨?_, fun heq => ?_⟩)
  · refine Finset.sdiff_subset_sdiff (Finset.Subset.refl _) fun j hj => ?_
    exact List.mem_toFinset.mpr (h (List.mem_toFinset.mp hj))
  · have hmem : i ∈ identities.toFinset \ b.known.toFinset := by simp [hi, hnew]
    rw [← heq] at hmem
    simp [hnamed] at hmem

theorem unnamedCount_le_length (b : Binder) (identities : List Nat) :
    b.unnamedCount identities ≤ identities.length :=
  (Finset.card_le_card Finset.sdiff_subset).trans identities.toFinset_card_le

end Binder

namespace Session

/-- What a compilation comes to. -/
abbrev Outcome := Except Diagnostic (List UnitText × Binder)

/-- The compilation of a callable inside another compilation. -/
structure NestedCall where
  extraction : Extraction
  /-- The binder with which the compilation around it began. -/
  outer : Binder
  /-- The binder with which it begins itself. -/
  inner : Binder

def NestedCall.identity (c : NestedCall) : Nat := c.extraction.identity

/-- What is left to do. -/
inductive Task where
  /-- Lower a source and compile what it leaves in the queue. -/
  | source (source : String) (entry : EntryPoint) (extraction : Option Extraction)
  /-- Compile the callables of a queue, left by a source whose compilation began with the given
  binder. -/
  | queue (outer : Binder) (queue : List Extraction)

/-- The recursion of a compilation, as far as it ends: what it comes to from a binder, and the
compilations inside it in the order in which they begin. -/
inductive Ends (width : Nat) : Binder → Task → List NestedCall → Outcome → Prop
  | refused {b : Binder} {source : String} {entry : EntryPoint} {extraction : Option Extraction}
      {d : Diagnostic}
      (hlower : lower width b source entry = .error d) :
      Ends width b (.source source entry extraction) [] (.error d)
  | lowered {b b₁ : Binder} {source text : String} {entry : EntryPoint}
      {extraction : Option Extraction}
      {calls : List NestedCall} {outcome : Outcome}
      (hlower : lower width b source entry = .ok (text, b₁))
      (hqueue : Ends width b₁.takePending.2 (.queue b b₁.takePending.1) calls outcome) :
      Ends width b (.source source entry extraction) calls
        (outcome.map fun out => (out.1 ++ [⟨extraction, text⟩], out.2))
  | drained {b outer : Binder} : Ends width b (.queue outer []) [] (.ok ([], b))
  | failed {b outer : Binder} {e : Extraction} {rest : List Extraction} {calls : List NestedCall}
      {d : Diagnostic}
      (hfirst : Ends width (b.beginExtraction e.identity)
      (.source e.callable.source (.callable e.name) (some e)) calls
        (.error d)) :
      Ends width b (.queue outer (e :: rest)) (⟨e, outer, b.beginExtraction e.identity⟩ :: calls)
      (.error d)
  | next {b b₁ outer : Binder} {e : Extraction} {rest : List Extraction}
      {calls more : List NestedCall}
      {units : List UnitText} {outcome : Outcome}
      (hfirst : Ends width (b.beginExtraction e.identity)
      (.source e.callable.source (.callable e.name) (some e)) calls
        (.ok (units, b₁)))
      (hrest : Ends width (b₁.endExtraction e.identity) (.queue outer rest) more outcome) :
      Ends width b (.queue outer (e :: rest))
      (⟨e, outer, b.beginExtraction e.identity⟩ :: (calls ++ more))
        (outcome.map fun out => (units ++ out.1, out.2))

variable {width : Nat} {b b' : Binder} {source text : String} {entry : EntryPoint}
  {extraction : Option Extraction}

/-! ## The bounded recursion -/

/-- The compilation of a callable with a bound on the depth. -/
def compileOne (width depth : Nat) (b : Binder) (e : Extraction) : Outcome :=
  compileSource width depth b e.callable.source (.callable e.name) (some e)

theorem compileSource_of_lower_eq_error (h : lower width b source entry = .error d) :
    compileSource width (depth + 1) b source entry extraction = .error d := by
  rw [compileSource, h]
  rfl

theorem compileSource_of_lower_eq_ok (h : lower width b source entry = .ok (text, b₁)) :
    compileSource width (depth + 1) b source entry extraction =
      (extractAll (compileOne width depth) b₁.takePending.2 b₁.takePending.1).map
        fun out => (out.1 ++ [⟨extraction, text⟩], out.2) := by
  rw [compileSource, h]
  change Except.bind (extractAll (compileOne width depth) b₁.takePending.2 b₁.takePending.1) _ = _
  cases extractAll (compileOne width depth) b₁.takePending.2 b₁.takePending.1 <;> rfl

theorem extractAll_of_error {one : Binder → Extraction → Outcome}
    (h : one (b.beginExtraction e.identity) e = .error d) :
    extractAll one b (e :: rest) = .error d := by
  rw [extractAll, h]
  rfl

theorem extractAll_of_ok {one : Binder → Extraction → Outcome}
    {units : List UnitText} (h : one (b.beginExtraction e.identity) e = .ok (units, b')) :
    extractAll one b (e :: rest) =
      (extractAll one (b'.endExtraction e.identity) rest).map fun out =>
      (units ++ out.1, out.2) := by
  rw [extractAll, h]
  change Except.bind (extractAll one (b'.endExtraction e.identity) rest) _ = _
  cases extractAll one (b'.endExtraction e.identity) rest <;> rfl

/-- What a source leaves in the queue: callables of the context that had no name before and have one
now. -/
theorem queued_of_lower (hready : Ready b enclosing [] waiting)
    (hlower : lower width b source entry = .ok (text, b₁))
    (he : e ∈ b₁.pending) :
    e.identity ∉ b.known ∧ e.identity ∈ b₁.known ∧ e.identity ∈ contextIdentities b.binding := by
  have hqueues := queues_of_lower hready.pending hlower
  refine ⟨hqueues.not_mem_known he, ?_, ?_⟩
  · rw [hqueues.known_eq, List.mem_append, List.mem_reverse]
    exact .inl (List.mem_map_of_mem he)
  · rcases pending_of_lower hlower e he with hold | htarget
    · rw [hready.pending] at hold
      cases hold
    · exact List.mem_map_of_mem htarget

theorem known_subset_of_lower (hpending : b.pending = [])
    (hlower : lower width b source entry = .ok (text, b₁)) : b.known ⊆ b₁.known := by
  rw [(queues_of_lower hpending hlower).known_eq]
  exact List.subset_append_right _ _

/-- With a bound above the number of callables without a name the bounded recursion is the whole
one. -/
theorem exists_ends (hready : Ready b enclosing [] waiting)
    (hdepth : b.unnamedCount (contextIdentities b.binding) < depth) :
    ∃ calls, Ends width b (.source source entry extraction) calls
      (compileSource width depth b source entry extraction) := by
  induction depth generalizing b source entry extraction enclosing waiting with
  | zero => exact absurd hdepth (Nat.not_lt_zero _)
  | succ depth ih =>
    -- The queue that the source leaves, one level down.
    have hqueue : ∀ (queue : List Extraction) (c : Binder), Ready c enclosing queue waiting →
        (queue ≠ [] → c.unnamedCount (contextIdentities c.binding) < depth) →
        ∃ calls, Ends width c (.queue b queue) calls
        (extractAll (compileOne width depth) c queue) := by
      intro queue
      induction queue with
      | nil =>
        intro c _ _
        exact ⟨[], .drained⟩
      | cons e rest ihrest =>
        intro c hc hcount
        have hless := hcount (List.cons_ne_nil _ _)
        obtain ⟨calls, hfirst⟩ : ∃ calls, Ends width (c.beginExtraction e.identity)
            (.source e.callable.source (.callable e.name) (some e)) calls
            (compileOne width depth (c.beginExtraction e.identity) e) := ih hc.begin hless
        cases hone : compileOne width depth (c.beginExtraction e.identity) e with
        | error d =>
          rw [hone] at hfirst
          rw [extractAll_of_error hone]
          exact ⟨_, .failed hfirst⟩
        | ok out =>
          obtain ⟨units, c₁⟩ := out
          rw [hone] at hfirst
          rw [extractAll_of_ok hone]
          obtain ⟨text, turns, hcompiles, -⟩ :=
            compileSource_eq_ok (e :: enclosing) (rest ++ waiting) hone
          have hextends := hcompiles.extends_start
          have hbinding : (c₁.endExtraction e.identity).binding = c.binding := hextends.binding
          have hfewer : (c₁.endExtraction e.identity).unnamedCount (contextIdentities c.binding) ≤
              c.unnamedCount (contextIdentities c.binding) :=
            Binder.unnamedCount_le fun i hi => hextends.mem_known hi
          obtain ⟨more, hrest⟩ :=
            ihrest (c₁.endExtraction e.identity) (hc.leave (hcompiles.ready hc.begin))
            fun _ => hbinding ▸ lt_of_le_of_lt hfewer hless
          exact ⟨_, .next hfirst hrest⟩
    cases hlower : lower width b source entry with
    | error d =>
      rw [compileSource_of_lower_eq_error hlower]
      exact ⟨[], .refused hlower⟩
    | ok out =>
      obtain ⟨text, b₁⟩ := out
      rw [compileSource_of_lower_eq_ok hlower]
      have hbinding : b₁.binding = b.binding := (queues_of_lower hready.pending hlower).binding
      have hcount : b₁.pending ≠ [] → b₁.unnamedCount (contextIdentities b₁.binding) < depth := by
        intro hne
        obtain ⟨e, he⟩ := List.exists_mem_of_ne_nil _ hne
        obtain ⟨hnew, hnamed, hmem⟩ := queued_of_lower hready hlower he
        have hless :=
          Binder.unnamedCount_lt (known_subset_of_lower hready.pending hlower) hmem hnew hnamed
        rw [hbinding]
        omega
      obtain ⟨calls, hcalls⟩ := hqueue b₁.pending b₁.takePending.2 (hready.lowered hlower) hcount
      exact ⟨calls, .lowered hlower hcalls⟩

/-! ## The compilations inside a compilation -/

namespace Task

/-- The callables whose turn is next. -/
def callables : Task → List Extraction
  | .source _ _ _ => []
  | .queue _ callables => callables

/-- A queue of callables of the context that had no name when the compilation around them began. -/
def Begun (b : Binder) : Task → Prop
  | .source _ _ _ => True
  | .queue outer callables =>
    outer.known ⊆ b.known ∧ ∀ e ∈ callables, e.identity ∉ outer.known ∧
      e.identity ∈ contextIdentities b.binding

end Task

/-- The compilations inside a session, for the callables of its contexts: none is of a callable of
another one, and each begins with fewer callables without a name than the one around it. -/
structure Bounded (identities : List Nat) (calls : List NestedCall) : Prop where
  nodup : (calls.map NestedCall.identity).Nodup
  mem : ∀ c ∈ calls, c.identity ∈ identities
  fewer : ∀ c ∈ calls, c.inner.unnamedCount identities < c.outer.unnamedCount identities

/-- The compilations inside a compilation are of callables of the queue or of callables without a
name so far. -/
structure Tally (identities : List Nat) (b : Binder) (queue : List Extraction)
    (calls : List NestedCall) : Prop extends Bounded identities calls where
  first : ∀ c ∈ calls, c.identity ∈ queue.map (·.identity) ∨ c.identity ∉ b.known

/-- The binder after a compilation. -/
structure Leaves (b : Binder) (enclosing waiting : List Extraction) (calls : List NestedCall)
    (b' : Binder) : Prop where
  ready : Ready b' enclosing [] waiting
  binding : b'.binding = b.binding
  known : b.known ⊆ b'.known
  named : ∀ c ∈ calls, c.identity ∈ b'.known

variable {identities : List Nat} {calls more : List NestedCall}
  {enclosing waiting rest queue : List Extraction}
  {e : Extraction} {b₁ outer : Binder}

namespace Bounded

theorem nil : Bounded identities [] := ⟨List.nodup_nil, nofun, nofun⟩

theorem append (h : Bounded identities calls) (hmore : Bounded identities more)
    (hnew : ∀ c ∈ calls, ∀ c' ∈ more, c.identity ≠ c'.identity) :
    Bounded identities (calls ++ more) := by
  refine ⟨?_, ?_, ?_⟩
  · rw [List.map_append]
    refine h.nodup.append hmore.nodup fun i hi hi' => ?_
    obtain ⟨c, hc, rfl⟩ := List.mem_map.mp hi
    obtain ⟨c', hc', heq⟩ := List.mem_map.mp hi'
    exact hnew c hc c' hc' heq.symm
  · intro c hc
    exact (List.mem_append.mp hc).elim (h.mem c) (hmore.mem c)
  · intro c hc
    exact (List.mem_append.mp hc).elim (h.fewer c) (hmore.fewer c)

end Bounded

namespace Tally

theorem nil : Tally identities b queue [] := ⟨.nil, nofun⟩

theorem head (h : Tally identities (b.beginExtraction e.identity) [] calls)
    (hready : Ready b enclosing (e :: rest) waiting)
    (hbegun : (Task.queue outer (e :: rest)).Begun b)
    (hidentities : contextIdentities b.binding ⊆ identities) :
    Tally identities b [e] (⟨e, outer, b.beginExtraction e.identity⟩ :: calls) := by
  obtain ⟨hknown, hqueue⟩ := hbegun
  obtain ⟨hnew, hmem⟩ := hqueue e List.mem_cons_self
  have hnamed : e.identity ∈ b.known := hready.known e (by simp)
  have hinner : ∀ c ∈ calls, c.identity ∉ b.known := by
    intro c hc
    exact (h.first c hc).resolve_left List.not_mem_nil
  have hone : Bounded identities [⟨e, outer, b.beginExtraction e.identity⟩] := by
    refine ⟨List.nodup_singleton _, ?_, ?_⟩ <;> intro c hc <;> rw [List.mem_singleton.mp hc]
    · exact hidentities hmem
    · exact Binder.unnamedCount_lt hknown (hidentities hmem) hnew hnamed
  refine ⟨hone.append h.toBounded ?_, ?_⟩
  · intro c hc c' hc' heq
    rw [List.mem_singleton.mp hc] at heq
    exact hinner c' hc' (heq ▸ hnamed)
  · intro c hc
    rcases List.mem_cons.mp hc with rfl | hc
    · exact .inl List.mem_cons_self
    · exact .inr (hinner c hc)

theorem append (h : Tally identities b [e] calls)
    (hmore : Tally identities (b₁.endExtraction e.identity) rest more)
    (hready : Ready b enclosing (e :: rest) waiting) (hknown : b.known ⊆ b₁.known)
    (hnamed : ∀ c ∈ calls, c.identity ∈ b₁.known) :
    Tally identities b (e :: rest) (calls ++ more) := by
  have hrest : ∀ i ∈ rest.map (·.identity), i ∈ b.known := by
    intro i hi
    obtain ⟨e', he', rfl⟩ := List.mem_map.mp hi
    exact hready.known e' (by simp [he'])
  have hfirst : e.identity ∉ rest.map (·.identity) := by
    have hdistinct := hready.distinct
    simp only [List.cons_append, List.map_cons, List.nodup_cons, List.map_append, List.mem_append,
      not_or] at hdistinct
    exact hdistinct.1.1.1
  refine ⟨h.toBounded.append hmore.toBounded ?_, ?_⟩
  · intro c hc c' hc' heq
    rcases hmore.first c' hc' with hnext | hnew
    · -- A callable of the rest of the queue has its name already, and is not the first one.
      rw [← heq] at hnext
      rcases h.first c hc with hone | hnew
      · rw [List.mem_singleton.mp hone] at hnext
        exact hfirst hnext
      · exact hnew (hrest _ hnext)
    · exact hnew (heq ▸ hnamed c hc)
  · intro c hc
    rw [List.map_cons, List.mem_cons]
    rcases List.mem_append.mp hc with hc | hc
    · exact (h.first c hc).imp_left fun hone => .inl (List.mem_singleton.mp hone)
    · rcases hmore.first c hc with hnext | hnew
      · exact .inl (.inr hnext)
      · exact .inr fun hmem => hnew (hknown hmem)

end Tally

namespace Ends

variable {task : Task} {outcome outcome' : Outcome} {calls' : List NestedCall}

theorem unique (h : Ends width b task calls outcome) (h' : Ends width b task calls' outcome') :
    calls' = calls ∧ outcome' = outcome := by
  induction h generalizing calls' outcome' with
  | refused hlower =>
    cases h' with
    | refused hlower' =>
      cases hlower.symm.trans hlower'
      exact ⟨rfl, rfl⟩
    | lowered hlower' _ => cases hlower.symm.trans hlower'
  | lowered hlower _ ih =>
    cases h' with
    | refused hlower' => cases hlower.symm.trans hlower'
    | lowered hlower' hqueue' =>
      cases hlower.symm.trans hlower'
      obtain ⟨rfl, rfl⟩ := ih hqueue'
      exact ⟨rfl, rfl⟩
  | drained =>
    cases h'
    exact ⟨rfl, rfl⟩
  | failed _ ih =>
    cases h' with
    | failed hfirst' =>
      obtain ⟨rfl, heq⟩ := ih hfirst'
      cases heq
      exact ⟨rfl, rfl⟩
    | next hfirst' _ => cases (ih hfirst').2
  | next _ _ ihfirst ihrest =>
    cases h' with
    | failed hfirst' => cases (ihfirst hfirst').2
    | next hfirst' hrest' =>
      obtain ⟨rfl, heq⟩ := ihfirst hfirst'
      cases heq
      obtain ⟨rfl, rfl⟩ := ihrest hrest'
      exact ⟨rfl, rfl⟩

theorem tally (h : Ends width b task calls outcome)
    (hready : Ready b enclosing task.callables waiting)
    (hbegun : task.Begun b) (hidentities : contextIdentities b.binding ⊆ identities) :
    Tally identities b task.callables calls ∧
      ∀ units b', outcome = .ok (units, b') → Leaves b enclosing waiting calls b' := by
  induction h generalizing enclosing waiting with
  | refused hlower => exact ⟨.nil, nofun⟩
  | @lowered b b₁ source text entry extraction calls outcome hlower hqueue ih =>
    have hbinding : b₁.binding = b.binding := (queues_of_lower hready.pending hlower).binding
    have hknown := known_subset_of_lower hready.pending hlower
    have hbegun : (Task.queue b b₁.takePending.1).Begun b₁.takePending.2 := by
      refine ⟨hknown, fun e he => ?_⟩
      obtain ⟨hnew, -, hmem⟩ := queued_of_lower hready hlower he
      exact ⟨hnew, hbinding.symm ▸ hmem⟩
    obtain ⟨htally, hleaves⟩ := ih (hready.lowered hlower) hbegun (hbinding.symm ▸ hidentities)
    refine ⟨⟨htally.toBounded, fun c hc => .inr ?_⟩, ?_⟩
    · -- A callable of the queue had no name before the source was lowered, and neither has any
      -- later one.
      rcases htally.first c hc with hnext | hnew
      · obtain ⟨e, he, hid⟩ := List.mem_map.mp hnext
        exact hid ▸ (queued_of_lower hready hlower he).1
      · exact fun hmem => hnew (hknown hmem)
    · intro units b' hok
      cases outcome with
      | error d => cases hok
      | ok out =>
        cases hok
        have hend := hleaves out.1 out.2 rfl
        exact ⟨hend.ready, hend.binding.trans hbinding, List.Subset.trans hknown hend.known,
          hend.named⟩
  | drained =>
    refine ⟨.nil, fun units b' hok => ?_⟩
    cases hok
    exact ⟨hready, rfl, List.Subset.refl _, nofun⟩
  | @failed b outer e rest calls d hfirst ih =>
    obtain ⟨htally, -⟩ := ih hready.begin trivial hidentities
    have hhead := htally.head hready hbegun hidentities
    refine ⟨⟨hhead.toBounded, fun c hc => ?_⟩, nofun⟩
    exact (hhead.first c hc).imp_left fun hone =>
      List.mem_cons.mpr (.inl (List.mem_singleton.mp hone))
  | @next b b₁ outer e rest calls more units outcome hfirst hrest ihfirst ihrest =>
    have hready : Ready b enclosing (e :: rest) waiting := hready
    obtain ⟨htally, hleaves⟩ := ihfirst hready.begin trivial hidentities
    have hend := hleaves units b₁ rfl
    have hbinding : (b₁.endExtraction e.identity).binding = b.binding := hend.binding
    have hbegun' : (Task.queue outer rest).Begun (b₁.endExtraction e.identity) :=
      ⟨List.Subset.trans hbegun.1 hend.known,
        fun e' he' => hbinding.symm ▸ hbegun.2 e' (List.mem_cons_of_mem _ he')⟩
    obtain ⟨hmore, hlast⟩ := ihrest (hready.leave hend.ready) hbegun' (hbinding.symm ▸ hidentities)
    have hhead := htally.head hready hbegun hidentities
    have hnamed : ∀ c ∈ (⟨e, outer, b.beginExtraction e.identity⟩ : NestedCall) :: calls,
        c.identity ∈ b₁.known := by
      intro c hc
      rcases List.mem_cons.mp hc with rfl | hc
      · exact hend.known (hready.known e (by simp))
      · exact hend.named c hc
    refine ⟨hhead.append hmore hready hend.known hnamed, ?_⟩
    intro units b' hok
    cases outcome with
    | error d => cases hok
    | ok out =>
      cases hok
      have hlast := hlast out.1 out.2 rfl
      refine ⟨hlast.ready, hlast.binding.trans hbinding,
        List.Subset.trans hend.known hlast.known, ?_⟩
      intro c hc
      rcases List.mem_append.mp (List.cons_append ▸ hc) with hc | hc
      · exact hlast.known (hnamed c hc)
      · exact hlast.named c hc

end Ends

/-- The bound with which a compilation begins is enough. -/
theorem ends_compile (width : Nat) (source : String) (entry : EntryPoint)
    (hready : Ready b [] [] []) :
    ∃ calls, Ends width b (.source source entry none) calls (compile width b source entry) := by
  refine exists_ends hready (Nat.lt_succ_of_le ?_)
  calc b.unnamedCount (contextIdentities b.binding)
      ≤ (contextIdentities b.binding).length := b.unnamedCount_le_length _
    _ = (contextCallables b.binding).length := List.length_map _
    _ = (b.binding.map Binding.callableCount).getD 0 := length_contextCallables _

end Session

/-! ## Sessions of several sources -/

namespace Bundle

open Session (NestedCall Bounded Ready Tally)

/-- The compilation of the components of a bundle, each the source of a session. -/
inductive Ends (width : Nat) (context : Option Binding) :
    Binder → List (Component × Option Binding) → List NestedCall →
      Except Diagnostic (List String) → Prop
  | finished {b : Binder} : Ends width context b [] [] (.ok [])
  | refused {b : Binder} {component : Component} {own : Option Binding}
      {rest : List (Component × Option Binding)}
      {d : Diagnostic} (hprepare : component.prepare = .error d) :
      Ends width context b ((component, own) :: rest) [] (.error d)
  | failed {b : Binder} {component : Component} {own : Option Binding}
      {rest : List (Component × Option Binding)}
      {p : Prepared} {calls : List NestedCall} {d : Diagnostic}
      (hprepare : component.prepare = .ok p)
      (hfirst : Session.Ends width (b.rebind (own.orElse fun _ => context))
      (.source p.source p.entry none) calls
        (.error d)) :
      Ends width context b ((component, own) :: rest) calls (.error d)
  | next {b b₁ : Binder} {component : Component} {own : Option Binding}
      {rest : List (Component × Option Binding)}
      {p : Prepared} {units : List UnitText} {calls more : List NestedCall}
      {outcome : Except Diagnostic (List String)}
      (hprepare : component.prepare = .ok p)
      (hfirst : Session.Ends width (b.rebind (own.orElse fun _ => context))
      (.source p.source p.entry none) calls
        (.ok (units, b₁)))
      (hrest : Ends width context b₁ rest more outcome) :
      Ends width context b ((component, own) :: rest) (calls ++ more)
        (outcome.map (UnitText.joined units :: p.tail ++ ·))

/-- The identities of the callables of all contexts of a session. -/
def identities (context : Option Binding) (components : List (Component × Option Binding)) :
    List Nat :=
  components.flatMap fun c => contextIdentities (c.2.orElse fun _ => context)

variable {width : Nat} {context : Option Binding} {b : Binder}
  {components : List (Component × Option Binding)}

theorem exists_ends (width : Nat) (context : Option Binding)
    (components : List (Component × Option Binding))
    (hready : Ready b [] [] []) :
    ∃ calls, Ends width context b components calls (compileAll width context b components) := by
  induction components generalizing b with
  | nil => exact ⟨[], .finished⟩
  | cons c rest ih =>
    obtain ⟨component, own⟩ := c
    rw [compileAll, Component.compile_eq]
    cases hprepare : component.prepare with
    | error d => exact ⟨[], .refused hprepare⟩
    | ok p =>
      have hrebound := hready.rebind (own.orElse fun _ => context)
      obtain ⟨calls, hfirst⟩ := Session.ends_compile width p.source p.entry hrebound
      simp only [bind, Except.bind]
      cases hcompile :
        Session.compile width (b.rebind (own.orElse fun _ => context)) p.source p.entry with
      | error d =>
        rw [hcompile] at hfirst
        exact ⟨calls, .failed hprepare hfirst⟩
      | ok out =>
        obtain ⟨units, b₁⟩ := out
        rw [hcompile] at hfirst
        obtain ⟨-, hleaves⟩ := hfirst.tally hrebound trivial (List.Subset.refl _)
        obtain ⟨more, hrest⟩ := ih (hleaves units b₁ rfl).ready
        have hnext := Ends.next hprepare hfirst hrest
        refine ⟨calls ++ more, ?_⟩
        simp only [pure, Except.pure]
        cases hall : compileAll width context b₁ rest <;> rw [hall] at hnext <;> exact hnext

namespace Ends

variable {calls calls' : List NestedCall} {outcome outcome' : Except Diagnostic (List String)}

theorem unique (h : Ends width context b components calls outcome)
    (h' : Ends width context b components calls' outcome') :
    calls' = calls ∧ outcome' = outcome := by
  induction h generalizing calls' outcome' with
  | finished =>
    cases h'
    exact ⟨rfl, rfl⟩
  | refused hprepare =>
    cases h' with
    | refused hprepare' =>
      cases hprepare.symm.trans hprepare'
      exact ⟨rfl, rfl⟩
    | failed hprepare' _ | next hprepare' _ _ => cases hprepare.symm.trans hprepare'
  | failed hprepare hfirst =>
    cases h' with
    | refused hprepare' => cases hprepare.symm.trans hprepare'
    | failed hprepare' hfirst' =>
      cases hprepare.symm.trans hprepare'
      obtain ⟨rfl, heq⟩ := hfirst.unique hfirst'
      cases heq
      exact ⟨rfl, rfl⟩
    | next hprepare' hfirst' _ =>
      cases hprepare.symm.trans hprepare'
      cases (hfirst.unique hfirst').2
  | next hprepare hfirst _ ih =>
    cases h' with
    | refused hprepare' => cases hprepare.symm.trans hprepare'
    | failed hprepare' hfirst' =>
      cases hprepare.symm.trans hprepare'
      cases (hfirst.unique hfirst').2
    | next hprepare' hfirst' hrest' =>
      cases hprepare.symm.trans hprepare'
      obtain ⟨rfl, heq⟩ := hfirst.unique hfirst'
      cases heq
      obtain ⟨rfl, rfl⟩ := ih hrest'
      exact ⟨rfl, rfl⟩

theorem bounded {all : List Nat} (h : Ends width context b components calls outcome)
    (hready : Ready b [] [] [])
    (hall : identities context components ⊆ all) :
    Bounded all calls ∧ ∀ c ∈ calls, c.identity ∉ b.known := by
  induction h with
  | finished | refused _ => exact ⟨.nil, nofun⟩
  | @failed b component own rest p calls d _ hfirst =>
    have hown : contextIdentities (own.orElse fun _ => context) ⊆ all :=
      fun i hi => hall (List.mem_append_left _ hi)
    obtain ⟨htally, -⟩ := hfirst.tally (hready.rebind _) trivial hown
    exact ⟨htally.toBounded, fun c hc => (htally.first c hc).resolve_left List.not_mem_nil⟩
  | @next b b₁ component own rest p units calls more outcome _ hfirst _ ih =>
    have hown : contextIdentities (own.orElse fun _ => context) ⊆ all :=
      fun i hi => hall (List.mem_append_left _ hi)
    obtain ⟨htally, hleaves⟩ := hfirst.tally (hready.rebind _) trivial hown
    have hend := hleaves units b₁ rfl
    obtain ⟨hmore, hnew⟩ := ih hend.ready fun i hi => hall (List.mem_append_right _ hi)
    refine ⟨htally.toBounded.append hmore fun c hc c' hc' heq =>
      hnew c' hc' (heq ▸ hend.named c hc), ?_⟩
    intro c hc
    rcases List.mem_append.mp hc with hc | hc
    · exact (htally.first c hc).resolve_left List.not_mem_nil
    · exact fun hmem => hnew c hc (hend.known hmem)

end Ends

end Bundle

/-- Extraction ends. The recursion of a compilation comes to exactly one outcome, the one that is
computed, and inside it there is at most one compilation for each callable of the contexts of the
session, with fewer callables that have no name in each than in the one around it. -/
theorem extraction_ends (options : Options) :
    (∀ unit : SourceUnit, ∃ calls, Session.Bounded (contextIdentities unit.context) calls ∧
      ∀ calls' outcome,
        Session.Ends options.indentWidth (.ofBinding unit.context)
        (.source unit.source unit.entry none) calls' outcome ↔
          calls' = calls ∧
            outcome = Session.compile options.indentWidth
            (.ofBinding unit.context) unit.source unit.entry) ∧
    (∀ bundle : Bundle, ∃ calls,
    Session.Bounded (Bundle.identities bundle.context bundle.components) calls ∧
      ∀ calls' outcome,
        Bundle.Ends options.indentWidth bundle.context (.ofBinding bundle.context) bundle.components
        calls' outcome ↔
          calls' = calls ∧ outcome =
            Bundle.compileAll options.indentWidth bundle.context
            (.ofBinding bundle.context) bundle.components) := by
  constructor
  · intro unit
    have hready := Session.Ready.start unit.context
    obtain ⟨calls, hends⟩ := Session.ends_compile options.indentWidth unit.source unit.entry hready
    obtain ⟨htally, -⟩ := hends.tally hready trivial (List.Subset.refl _)
    refine ⟨calls, htally.toBounded, fun calls' outcome => ⟨hends.unique, ?_⟩⟩
    rintro ⟨rfl, rfl⟩
    exact hends
  · intro bundle
    have hready := Session.Ready.start bundle.context
    obtain ⟨calls, hends⟩ :=
      Bundle.exists_ends options.indentWidth bundle.context bundle.components hready
    obtain ⟨hbounded, -⟩ := hends.bounded hready (List.Subset.refl _)
    refine ⟨calls, hbounded, fun calls' outcome => ⟨hends.unique, ?_⟩⟩
    rintro ⟨rfl, rfl⟩
    exact hends

end ScriptCompiler
