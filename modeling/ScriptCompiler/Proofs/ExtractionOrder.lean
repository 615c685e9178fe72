import ScriptCompiler.Proofs.Component

/-!
# The order of extraction

The function of a callable comes ahead of the source. Among callables the order follows the turns: a
callable has its turn after the callables that it is the first to refer to, but a callable that was
waiting already when another one refers to it is written after that one.
-/

namespace ScriptCompiler

/-- Each turn refers to callables that are done, by an earlier turn or before all turns, or that
wait. -/
def InOrder (binding : Option Binding) : List Nat → List Turn → Prop
  | _, [] => True
  | done, t :: rest =>
    (∀ r ∈ t.references binding, r.identity ∈ done ∨ r.identity ∈ t.waiting.map (·.identity)) ∧
      InOrder binding (t.identity :: done) rest

theorem inOrder_append {binding : Option Binding} {done : List Nat} {turns more : List Turn} :
    InOrder binding done (turns ++ more) ↔
      InOrder binding done turns ∧
      InOrder binding ((turns.map Turn.identity).reverse ++ done) more := by
  induction turns generalizing done with
  | nil => simp [InOrder]
  | cons t rest ih => simp [InOrder, ih, and_assoc]

/-- The callables that wait during a turn have later turns, or wait when all turns are done. -/
def Awaited (waiting : List Extraction) : List Turn → Prop
  | [] => True
  | t :: rest => t.waiting ⊆ rest.map (·.extraction) ++ waiting ∧ Awaited waiting rest

variable {waiting : List Extraction} {e : Extraction} {r : Reference}

theorem Awaited.mono {waiting' : List Extraction} (hsub : waiting ⊆ waiting') :
    ∀ {turns : List Turn}, Awaited waiting turns → Awaited waiting' turns
  | [], _ => trivial
  | _ :: rest, h => by
    have hmore : rest.map (·.extraction) ++ waiting ⊆ rest.map (·.extraction) ++ waiting' :=
      List.append_subset.mpr ⟨List.subset_append_left _ _,
        List.subset_append_of_subset_right _ hsub⟩
    exact ⟨List.Subset.trans h.1 hmore, h.2.mono hsub⟩

theorem awaited_append {turns more : List Turn} :
    Awaited waiting (turns ++ more) ↔ Awaited (more.map (·.extraction) ++ waiting) turns ∧
    Awaited waiting more := by
  induction turns with
  | nil => simp [Awaited]
  | cons t rest ih => simp [Awaited, ih, and_assoc]

namespace Session

variable {width : Nat} {enclosing waiting queue : List Extraction} {b b' : Binder}
  {turns : List Turn}

theorem mem_enclosing_append_cons {e' : Extraction} {rest : List Extraction} :
    e' ∈ enclosing ++ (e :: rest ++ waiting) ↔ e' = e ∨ e' ∈ enclosing ∨ e' ∈ rest ++ waiting := by
  rw [List.mem_append, List.cons_append, List.mem_cons]
  exact or_left_comm

namespace Drains

/-- A run whose binder knows nothing but what is done, in progress, in the queue or waiting goes
through its callables in order. -/
theorem inOrder (h : Drains width enclosing waiting b queue turns b') :
    ∀ done : List Nat, Ready b enclosing queue waiting →
      (∀ i ∈ b.known, i ∈ done ∨ ∃ e ∈ enclosing ++ (queue ++ waiting), e.identity = i) →
      InOrder b.binding done turns := by
  induction h with
  | done => exact fun _ _ _ => trivial
  | @next enclosing waiting rest e b b₁ b₂ b₃ inner later text hlower hinner hlater
      ihinner ihlater =>
    intro done hready hdone
    have hqueues := hready.queues hlower
    have hentered := hready.enter hlower
    have hbinding : b₁.binding = b.binding := hqueues.binding
    have hbinding' : b₂.binding = b.binding := hinner.extends_start.binding.trans hbinding
    have hknown : ∀ i ∈ b₁.known, (∃ e' ∈ b₁.pending, e'.identity = i) ∨ i ∈ b.known := by
      intro i hi
      rw [hqueues.known_eq, List.mem_append, List.mem_reverse, List.mem_map] at hi
      exact hi
    have hpending : ∀ e' ∈ b₁.pending, e'.identity ∈ inner.map Turn.identity := by
      intro e' he'
      obtain ⟨t, ht, rfl⟩ := List.mem_map.mp (hinner.queue_subset he')
      exact List.mem_map_of_mem ht
    refine inOrder_append.mpr ⟨?_, ?_, ?_⟩
    · -- In the inner run the callable itself is in progress, and the rest of the queue waits.
      refine hbinding ▸ ihinner done hentered fun i hi => ?_
      rcases hknown i hi with ⟨e', he', hid⟩ | hold
      · exact Or.inr ⟨e', List.mem_append_right _ (List.mem_append_left _ he'), hid⟩
      · refine (hdone i hold).imp_right ?_
        rintro ⟨e', he', hid⟩
        refine ⟨e', ?_, hid⟩
        rcases mem_enclosing_append_cons.mp he' with rfl | henclosing | hwaiting
        · exact List.mem_cons_self
        · exact List.mem_append_left _ (List.mem_cons_of_mem _ henclosing)
        · exact List.mem_append_right _ (List.mem_append_right _ hwaiting)
    · -- A reference is not to a callable in progress, so what it is to is done, or it waits.
      intro r hr
      have hidle : r.identity ∉ (b.beginExtraction e.identity).inProgress := hqueues.idle r hr
      rw [hready.begin.inProgress] at hidle
      rcases hknown _ (hqueues.known r hr) with ⟨e', he', hid⟩ | hold
      · exact Or.inl (List.mem_append_left _ (List.mem_reverse.mpr (hid ▸ hpending e' he')))
      · rcases hdone _ hold with hold | ⟨e', he', hid⟩
        · exact Or.inl (List.mem_append_right _ hold)
        · have hnot : e' ∉ e :: enclosing := fun hmem => hidle (hid ▸ List.mem_map_of_mem hmem)
          rcases mem_enclosing_append_cons.mp he' with rfl | henclosing | hwaiting
          · exact absurd List.mem_cons_self hnot
          · exact absurd (List.mem_cons_of_mem _ henclosing) hnot
          · exact Or.inr (List.mem_map.mpr ⟨e', hwaiting, hid⟩)
    · -- After the turn the callable is done, with everything that it was the first to refer to.
      refine hbinding' ▸ ihlater _ (hready.leave (hinner.ready hentered)) fun i hi => ?_
      rcases hinner.mem_known_or_mem_turns hentered hi with hi | hi
      · rcases hknown i hi with ⟨e', he', rfl⟩ | hold
        · exact Or.inl
            (List.mem_cons_of_mem _
            (List.mem_append_left _ (List.mem_reverse.mpr (hpending e' he'))))
        · rcases hdone i hold with hold | ⟨e', he', rfl⟩
          · exact Or.inl (List.mem_cons_of_mem _ (List.mem_append_right _ hold))
          · rcases mem_enclosing_append_cons.mp he' with rfl | henclosing | hwaiting
            · exact Or.inl List.mem_cons_self
            · exact Or.inr ⟨e', List.mem_append_left _ henclosing, rfl⟩
            · exact Or.inr ⟨e', List.mem_append_right _ hwaiting, rfl⟩
      · exact Or.inl (List.mem_cons_of_mem _ (List.mem_append_left _ (List.mem_reverse.mpr hi)))

theorem awaited (h : Drains width enclosing waiting b queue turns b') : Awaited waiting turns := by
  induction h with
  | done => trivial
  | @next enclosing waiting rest e b b₁ b₂ b₃ inner later text hlower hinner hlater
      ihinner ihlater =>
    have hsub : rest ++ waiting ⊆ later.map (·.extraction) ++ waiting :=
      List.append_subset.mpr ⟨List.Subset.trans hlater.queue_subset (List.subset_append_left _ _),
        List.subset_append_right _ _⟩
    refine awaited_append.mpr ⟨ihinner.mono ?_, hsub, ihlater⟩
    exact List.Subset.trans hsub (List.subset_cons_self _ _)

theorem enclosing_subset (h : Drains width enclosing waiting b queue turns b') :
    ∀ t ∈ turns, enclosing ⊆ t.enclosing := by
  induction h with
  | done => simp
  | next _ _ _ ihinner ihlater =>
    intro t ht
    rcases List.mem_append.mp ht with ht | ht
    · exact List.Subset.trans (List.subset_cons_self _ _) (ihinner t ht)
    · rcases List.mem_cons.mp ht with rfl | ht
      · exact List.Subset.refl _
      · exact ihlater t ht

/-- A callable waits during a turn because a callable around it refers to it, or because it waits
for the whole run. -/
theorem exists_reference_of_waiting (h : Drains width enclosing waiting b queue turns b') :
    Ready b enclosing queue waiting → ∀ t ∈ turns, ∀ e' ∈ t.waiting, e' ∈ queue ++ waiting ∨
      ∃ r ∈ t.enclosing.flatMap (·.callable.references b.binding), r.target = e'.target := by
  induction h with
  | done => simp
  | @next enclosing waiting rest e b b₁ b₂ b₃ inner later text hlower hinner hlater
      ihinner ihlater =>
    intro hready t ht e' he'
    have hqueues := hready.queues hlower
    have hentered := hready.enter hlower
    have hbinding : b₁.binding = b.binding := hqueues.binding
    have hbinding' : b₂.binding = b.binding := hinner.extends_start.binding.trans hbinding
    rcases List.mem_append.mp ht with ht | ht
    · rcases ihinner hentered t ht e' he' with hqueue | ⟨r, hr, htarget⟩
      · rcases List.mem_append.mp hqueue with hnew | hwaiting
        · obtain ⟨r, hr, htarget⟩ := hqueues.exists_reference hnew
          have houter : e ∈ t.enclosing := hinner.enclosing_subset t ht List.mem_cons_self
          exact Or.inr ⟨r, List.mem_flatMap.mpr ⟨e, houter, hr⟩, htarget⟩
        · exact Or.inl (List.mem_cons_of_mem _ hwaiting)
      · exact Or.inr ⟨r, hbinding ▸ hr, htarget⟩
    · rcases List.mem_cons.mp ht with rfl | ht
      · exact Or.inl (List.mem_cons_of_mem _ he')
      · rcases ihlater (hready.leave (hinner.ready hentered)) t ht e' he' with hrest | ⟨r,
          hr, htarget⟩
        · exact Or.inl (List.mem_cons_of_mem _ hrest)
        · exact Or.inr ⟨r, hbinding' ▸ hr, htarget⟩

end Drains

namespace Compiles

variable {binding : Option Binding} {source text : String} {entry : EntryPoint}
  {before after : List Turn} {t : Turn}

theorem inOrder (h : Compiles width [] [] (.ofBinding binding) source entry text turns b') :
    InOrder binding [] turns := by
  obtain ⟨b₁, hlower, hdrains⟩ := h
  have hready := (Ready.start binding).lowered hlower
  have hqueues := queues_of_lower (Ready.start binding).pending hlower
  have hbinding : b₁.binding = binding := hqueues.binding
  refine hbinding ▸ hdrains.inOrder [] hready fun i hi => Or.inr ?_
  have hi : i ∈ b₁.known := hi
  rw [hqueues.known_eq, List.mem_append] at hi
  rcases hi with hi | hi
  · simpa using hi
  · exact absurd hi List.not_mem_nil

theorem awaited (h : Compiles width [] [] b source entry text turns b') : Awaited [] turns := by
  obtain ⟨b₁, -, hdrains⟩ := h
  exact hdrains.awaited

/-- A callable that waits during a turn has its own turn later. -/
theorem exists_after_of_waiting
    (h : Compiles width [] [] b source entry text (before ++ t :: after) b') {i : Nat}
    (hi : i ∈ t.waiting.map (·.identity)) : ∃ u ∈ after, u.identity = i := by
  obtain ⟨e, he, rfl⟩ := List.mem_map.mp hi
  have hlater := (awaited_append.mp h.awaited).2.1 he
  rw [List.append_nil] at hlater
  obtain ⟨u, hu, rfl⟩ := List.mem_map.mp hlater
  exact ⟨u, hu, rfl⟩

/-- A callable waits during a turn because the source or a callable around the turn refers to it. -/
theorem exists_reference_of_waiting
    (h : Compiles width [] [] (.ofBinding binding) source entry text turns b')
    (ht : t ∈ turns) (he : e ∈ t.waiting) :
    ∃ r ∈ references binding source entry ++ t.enclosing.flatMap (·.callable.references binding),
      r.target = e.target := by
  obtain ⟨b₁, hlower, hdrains⟩ := h
  have hqueues := queues_of_lower (Ready.start binding).pending hlower
  have hbinding : b₁.binding = binding := hqueues.binding
  rcases hdrains.exists_reference_of_waiting ((Ready.start binding).lowered hlower) t ht e he with
    hqueue | ⟨r, hr, htarget⟩
  · rw [List.append_nil] at hqueue
    obtain ⟨r, hr, htarget⟩ := hqueues.exists_reference hqueue
    exact ⟨r, List.mem_append_left _ hr, htarget⟩
  · exact ⟨r, List.mem_append_right _ (hbinding ▸ hr), htarget⟩

theorem exists_before_or_waiting
    (h : Compiles width [] [] (.ofBinding binding) source entry text (before ++ t :: after) b')
    (hr : r ∈ t.references binding) :
    (∃ u ∈ before, u.identity = r.identity) ∨ r.identity ∈ t.waiting.map (·.identity) := by
  rcases (inOrder_append.mp h.inOrder).2.1 r hr with hdone | hwaiting
  · rw [List.append_nil, List.mem_reverse] at hdone
    obtain ⟨u, hu, hid⟩ := List.mem_map.mp hdone
    exact Or.inl ⟨u, hu, hid⟩
  · exact Or.inr hwaiting

/-- No callable has a turn both before and after another turn. -/
theorem identity_ne (h : Compiles width [] [] b source entry text (before ++ t :: after) b')
    (hready : Ready b [] [] [])
    {u v : Turn} (hu : u ∈ before) (hv : v ∈ after) : u.identity ≠ v.identity := by
  have hnodup := h.nodup hready
  rw [List.map_append] at hnodup
  intro heq
  exact List.disjoint_of_nodup_append hnodup (List.mem_map_of_mem hu)
    (heq ▸ List.mem_cons_of_mem _ (List.mem_map_of_mem hv))

/-- A callable to which the source refers has a turn. -/
theorem exists_turn (h : Compiles width [] [] (.ofBinding binding) source entry text turns b')
    (hr : r ∈ references binding source entry ++ turns.flatMap (·.references binding)) :
    ∃ t ∈ turns, t.identity = r.identity := by
  have hknown := h.mem_known (Ready.start binding) hr
  obtain ⟨p, hp, hid⟩ := List.mem_map.mp hknown
  rcases List.mem_append.mp ((h.names_perm (Ready.start binding)).mem_iff.mp hp) with hp | hp
  · obtain ⟨t, ht, rfl⟩ := List.mem_map.mp hp
    exact ⟨t, ht, hid⟩
  · exact absurd hp List.not_mem_nil

end Compiles

end Session

/-- The functions of all callables come ahead of the source. One that a callable refers to comes
ahead of the function of that callable exactly if it does not wait at the turn of that callable, and
else after it. It waits only if the source or a callable in progress around that turn refers to it
too. -/
theorem written_before_iff_not_waiting {unit : SourceUnit} {options : Options} {output : String}
    (h : unit.compile options = .ok output) :
    ∃ text turns b,
      Session.Compiles options.indentWidth [] [] (.ofBinding unit.context) unit.source unit.entry
      text turns b ∧
        output = String.join (turns.map (·.text)) ++ text ∧
        (∀ r ∈ Session.references unit.context unit.source unit.entry, ∃ t ∈ turns,
        t.identity = r.identity) ∧
        (∀ t ∈ turns, ∀ e ∈ t.waiting,
          ∃ r ∈ Session.references unit.context unit.source unit.entry ++
              t.enclosing.flatMap (·.callable.references unit.context),
            r.target = e.target) ∧
        ∀ before t after, turns = before ++ t :: after → ∀ r ∈ t.references unit.context,
          ((∃ u ∈ before, u.identity = r.identity) ↔ r.identity ∉ t.waiting.map (·.identity)) ∧
            ((∃ u ∈ after, u.identity = r.identity) ↔ r.identity ∈ t.waiting.map (·.identity)) := by
  obtain ⟨text, turns, b, hcompiles, houtput⟩ := SourceUnit.exists_compiles h
  refine ⟨text, turns, b, hcompiles, houtput, fun r hr =>
    hcompiles.exists_turn (List.mem_append_left _ hr),
    fun t ht e he => hcompiles.exists_reference_of_waiting ht he, ?_⟩
  rintro before t after rfl r hr
  have hready := Session.Ready.start unit.context
  have hcases := hcompiles.exists_before_or_waiting hr
  refine ⟨⟨?_, fun hnot => hcases.resolve_right hnot⟩, ?_, hcompiles.exists_after_of_waiting⟩
  · rintro ⟨u, hu, hid⟩ hwaiting
    obtain ⟨v, hv, hid'⟩ := hcompiles.exists_after_of_waiting hwaiting
    exact hcompiles.identity_ne hready hu hv (hid.trans hid'.symm)
  · rintro ⟨v, hv, hid'⟩
    refine hcases.resolve_left ?_
    rintro ⟨u, hu, hid⟩
    exact hcompiles.identity_ne hready hu hv (hid.trans hid'.symm)

def caller : Callable := ⟨"a", none, "def a():\n    return b()\n"⟩

def callee : Callable := ⟨"b", none, "def b():\n    return 1\n"⟩

/-- A source that refers to two callables, of which the first refers to the second. -/
def callsBoth :
    SourceUnit :=
    ⟨"a()\nb()\n", some ⟨[("a", .callable 0 caller), ("b", .callable 1 callee)]⟩, .module⟩

def callerText : String := "function a() \x7b\n    return b();\n\x7d\n"

def calleeText : String := "function b() \x7b\n    return 1;\n\x7d\n"

def callsBothOutput : String := callerText ++ calleeText ++ "a();\nb();\n"

theorem written_before_callsBoth :
    callsBoth.compile {} = .ok callsBothOutput ∧
      ∃ text turns b,
        Session.Compiles (Options.indentWidth {}) [] []
        (.ofBinding callsBoth.context) callsBoth.source callsBoth.entry
            text turns b ∧
          callsBothOutput = String.join (turns.map (·.text)) ++ text ∧
          (∀ r ∈ Session.references callsBoth.context callsBoth.source callsBoth.entry,
            ∃ t ∈ turns, t.identity = r.identity) ∧
          (∀ t ∈ turns, ∀ e ∈ t.waiting,
            ∃ r ∈ Session.references callsBoth.context callsBoth.source callsBoth.entry ++
                t.enclosing.flatMap (·.callable.references callsBoth.context),
              r.target = e.target) ∧
          ∀ before t after, turns = before ++ t :: after → ∀ r ∈ t.references callsBoth.context,
            ((∃ u ∈ before, u.identity = r.identity) ↔ r.identity ∉ t.waiting.map (·.identity)) ∧
              ((∃ u ∈ after, u.identity = r.identity) ↔
              r.identity ∈ t.waiting.map (·.identity)) := by
  have h : callsBoth.compile {} = .ok callsBothOutput := by decide +kernel
  exact ⟨h, written_before_iff_not_waiting h⟩

/-- A callable can be written after one that refers to it, and there is no other function of it. -/
theorem callee_written_after_caller :
    callsBoth.compile {} = .ok (callerText ++ calleeText ++ "a();\nb();\n") ∧
      (1, callee) ∈ (caller.references callsBoth.context).map Reference.target := by
  decide +kernel

end ScriptCompiler
