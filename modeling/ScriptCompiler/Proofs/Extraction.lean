import ScriptCompiler.Proofs.SourceEffect
import ScriptCompiler.Proofs.Elementary

/-!
# Extraction

The callables that a source refers to are compiled one after the other, each followed at once by the
callables that it is the first to refer to. `Drains` describes this process without a bound on its
depth, and its runs are what a successful compilation consists of. What is proved of one turn of a
callable holds of all turns of a run.
-/

namespace ScriptCompiler

/-- The turn of a callable to be compiled. -/
structure Turn where
  extraction : Extraction
  /-- The callables around it whose extraction is in progress, the innermost first. -/
  enclosing : List Extraction
  /-- The callables that have a name and still wait for their turn. -/
  waiting : List Extraction
  text : String

namespace Turn

def identity (t : Turn) : Nat := t.extraction.identity

def unit (t : Turn) : UnitText := ⟨some t.extraction, t.text⟩

def references (binding : Option Binding) (t : Turn) :
    List Reference := t.extraction.callable.references binding

end Turn

namespace Session

/-- Compile the callables of a queue in order. Lowering a callable may put new ones into the
binder's own queue, and these have their turns before the callable is done. -/
inductive Drains (width : Nat) :
    List Extraction → List Extraction → Binder → List Extraction → List Turn → Binder → Prop
  | done {enclosing waiting : List Extraction} {b : Binder} :
      Drains width enclosing waiting b [] [] b
  | next {enclosing waiting rest : List Extraction} {e : Extraction} {b b₁ b₂ b₃ : Binder}
      {inner later : List Turn}
      {text : String}
      (hlower : lower width (b.beginExtraction e.identity) e.callable.source (.callable e.name) =
      .ok (text, b₁))
      (hinner : Drains width (e :: enclosing) (rest ++ waiting) { b₁ with pending := [] }
      b₁.pending inner b₂)
      (hlater : Drains width enclosing waiting (b₂.endExtraction e.identity) rest later b₃) :
      Drains width enclosing waiting b (e :: rest)
      (inner ++ ⟨e, enclosing, rest ++ waiting, text⟩ :: later) b₃

/-- A source is lowered, and then the callables that it is the first to refer to have their
turns. -/
def Compiles (width : Nat) (enclosing waiting : List Extraction) (b : Binder) (source : String)
    (entry : EntryPoint)
    (text : String) (turns : List Turn) (b' : Binder) : Prop :=
  ∃ b₁, lower width b source entry = .ok (text, b₁) ∧
    Drains width enclosing waiting { b₁ with pending := [] } b₁.pending turns b'

variable {width : Nat} {enclosing waiting queue : List Extraction} {b b' : Binder}
  {turns : List Turn}

variable (binding : Option Binding) {source : String} {entry : EntryPoint} {e : Extraction}
  {c : Binder} {t : Turn}
  {r : Reference}

/-- What the lowering in a turn refers to. -/
theorem references_turn (t : Turn) :
    references binding t.extraction.callable.source (.callable t.extraction.name) =
    t.references binding :=
  references_callable binding t.extraction.callable.source t.extraction.name
    t.extraction.callable.name

theorem compileSource_eq_ok {depth : Nat}
    {extraction : Option Extraction} {units : List UnitText} (enclosing waiting : List Extraction)
    (h : compileSource width depth b source entry extraction = .ok (units, b')) :
    ∃ text turns, Compiles width enclosing waiting b source entry text turns b' ∧
      units = turns.map Turn.unit ++ [⟨extraction, text⟩] := by
  induction depth generalizing b b' source entry extraction units enclosing waiting with
  | zero => cases h
  | succ depth ih =>
    -- The queue is drained by the same function, one level down.
    have hqueue : ∀ (queue : List Extraction) (b b' : Binder) (units : List UnitText),
        extractAll (fun b e => compileSource width depth b e.callable.source (.callable e.name)
        (some e)) b queue =
          .ok (units, b') →
        ∃ turns, Drains width enclosing waiting b queue turns b' ∧ units = turns.map Turn.unit := by
      intro queue
      induction queue with
      | nil =>
        intro b b' units h
        injection h with h
        obtain ⟨rfl, rfl⟩ := Prod.mk.inj h
        exact ⟨[], .done, rfl⟩
      | cons e rest ihrest =>
        intro b b' units h
        obtain ⟨⟨first, b₂⟩, hfirst, h⟩ := Except.exists_of_bind_eq_ok h
        obtain ⟨⟨more, b₃⟩, hmore, h⟩ := Except.exists_of_bind_eq_ok h
        injection h with h
        obtain ⟨rfl, rfl⟩ := Prod.mk.inj h
        obtain ⟨text, inner, ⟨b₁, hlower, hinner⟩, rfl⟩ :=
          ih (e :: enclosing) (rest ++ waiting) hfirst
        obtain ⟨later, hlater, rfl⟩ := ihrest _ _ _ hmore
        exact ⟨_, .next hlower hinner hlater, by simp [Turn.unit]⟩
    obtain ⟨⟨text, b₁⟩, hlower, h⟩ := Except.exists_of_bind_eq_ok h
    obtain ⟨⟨extracted, b₂⟩, hextract, h⟩ := Except.exists_of_bind_eq_ok h
    injection h with h
    obtain ⟨rfl, rfl⟩ := Prod.mk.inj h
    obtain ⟨turns, hdrains, rfl⟩ := hqueue _ _ _ _ hextract
    exact ⟨text, turns, ⟨b₁, hlower, hdrains⟩, rfl⟩

/-! ## The queue of one source -/

/-- A binder with an empty queue meets references: `b₁` has the new callables in its queue and among
its names. -/
structure Queues (b : Binder) (refs : List Reference) (b₁ : Binder) : Prop where
  binding : b₁.binding = b.binding
  inProgress : b₁.inProgress = b.inProgress
  names : b₁.names = (b₁.pending.map Extraction.key).reverse ++ b.names
  targets : b₁.pending.map Extraction.target = (newReferences b.known refs).map Reference.target
  generated : b.generated.Nodup → b₁.generated.Nodup
  idle : ∀ r ∈ refs, r.identity ∉ b.inProgress
  known : ∀ r ∈ refs, r.identity ∈ b₁.known

theorem queues_of_lower {text : String} {b₁ : Binder} (hpending : b.pending = [])
    (h : lower width b source entry = .ok (text, b₁)) :
    Queues b (references b.binding source entry) b₁ := by
  have hscheduled := (lower_eq_ok h).1
  obtain ⟨hidle, added, heq, htargets, hgenerated⟩ := Binder.scheduleAll_eq_ok hscheduled
  have hadded : b₁.pending = added := by
    rw [heq, Binder.enqueueAll_eq, hpending, List.nil_append]
  rw [Binder.enqueueAll_eq] at heq
  refine ⟨?_, ?_, ?_, hadded ▸ htargets, hgenerated, hidle,
    fun r => Binder.mem_known_of_scheduleAll hscheduled⟩
  · rw [heq]
  · rw [heq]
  · rw [hadded, heq]

namespace Queues

variable {refs : List Reference} {b₁ : Binder}

theorem known_eq (h : Queues b refs b₁) :
    b₁.known = (b₁.pending.map (·.identity)).reverse ++ b.known := by
  unfold Binder.known
  rw [h.names]
  simp [Extraction.key, Function.comp_def]

theorem identities (h : Queues b refs b₁) :
    b₁.pending.map (·.identity) = (newReferences b.known refs).map (·.identity) :=
    identities_of_targets h.targets

theorem nodup (h : Queues b refs b₁) : (b₁.pending.map (·.identity)).Nodup :=
  h.identities ▸ newReferences_nodup b.known refs

theorem not_mem_known (h : Queues b refs b₁) (he : e ∈ b₁.pending) : e.identity ∉ b.known := by
  have hmem : e.identity ∈ (newReferences b.known refs).map (·.identity) :=
    h.identities ▸ List.mem_map_of_mem he
  obtain ⟨r, hr, hid⟩ := List.mem_map.mp hmem
  exact hid ▸ not_mem_seen_of_mem_newReferences hr

theorem exists_reference (h : Queues b refs b₁) (he : e ∈ b₁.pending) :
    ∃ r ∈ refs, r.target = e.target := by
  have hmem : e.target ∈ (newReferences b.known refs).map Reference.target :=
    h.targets ▸ List.mem_map_of_mem he
  obtain ⟨r, hr, htarget⟩ := List.mem_map.mp hmem
  exact ⟨r, (newReferences_sublist b.known refs).subset hr, htarget⟩

end Queues

/-! ## The binder during a run -/

/-- The state of a binder before the next turn: it knows the callables of the queue and those that
wait or are in progress, and these are all different. -/
structure Ready (b : Binder) (enclosing queue waiting : List Extraction) : Prop where
  pending : b.pending = []
  inProgress : b.inProgress = enclosing.map (·.identity)
  distinct : ((queue ++ waiting ++ enclosing).map (·.identity)).Nodup
  known : ∀ e ∈ queue ++ waiting ++ enclosing, e.identity ∈ b.known
  nodup : b.known.Nodup
  generated : b.generated.Nodup

namespace Ready

theorem start : Ready (.ofBinding binding) [] [] [] := by
  refine ⟨rfl, rfl, ?_, ?_, ?_, ?_⟩ <;> simp [Binder.ofBinding, Binder.known, Binder.generated]

theorem rebind (h : Ready b enclosing queue waiting) (binding : Option Binding) :
    Ready (b.rebind binding) enclosing queue waiting :=
  ⟨h.pending, h.inProgress, h.distinct, h.known, h.nodup, h.generated⟩

variable {e : Extraction} {rest : List Extraction} {b₁ : Binder} {text : String}

theorem not_mem_enclosing (h : Ready b enclosing (e :: rest) waiting) :
    e.identity ∉ enclosing.map (·.identity) := by
  have hdistinct := h.distinct
  simp only [List.cons_append, List.map_cons, List.nodup_cons, List.map_append, List.mem_append,
    not_or] at hdistinct
  exact hdistinct.1.2

/-- A callable begins: it is in progress now. -/
theorem begin (h : Ready b enclosing (e :: rest) waiting) :
    Ready (b.beginExtraction e.identity) (e :: enclosing) [] (rest ++ waiting) := by
  refine ⟨h.pending, ?_, ?_, ?_, h.nodup, h.generated⟩
  · have hnot : ¬ b.inProgress.contains e.identity := by
      rw [List.contains_iff_mem, h.inProgress]
      exact h.not_mem_enclosing
    simp only [Binder.beginExtraction]
    rw [if_neg hnot, h.inProgress, List.map_cons]
  · refine (List.Perm.nodup_iff (List.Perm.map _ ?_)).mp h.distinct
    have hmiddle : (rest ++ waiting ++ e :: enclosing).Perm (e :: (rest ++ waiting ++ enclosing)) :=
      List.perm_middle
    exact hmiddle.symm
  · intro e' he'
    refine h.known e' ?_
    simp only [List.nil_append, List.mem_append, List.mem_cons] at he' ⊢
    tauto

/-- A source is lowered: the callables that it adds are next. -/
theorem lowered (h : Ready b enclosing [] waiting)
    (hlower : lower width b source entry = .ok (text, b₁)) :
    Ready { b₁ with pending := [] } enclosing b₁.pending waiting := by
  have hqueues := queues_of_lower h.pending hlower
  have hknown : b₁.known = (b₁.pending.map (·.identity)).reverse ++ b.known := hqueues.known_eq
  refine ⟨rfl, hqueues.inProgress.trans h.inProgress, ?_, ?_, ?_, hqueues.generated h.generated⟩
  · -- What waits or is in progress is known already, and what is added is not.
    rw [List.append_assoc, List.map_append]
    refine hqueues.nodup.append h.distinct ?_
    intro i hnew hold
    obtain ⟨e₁, he₁, rfl⟩ := List.mem_map.mp hnew
    obtain ⟨e₂, he₂, hid⟩ := List.mem_map.mp hold
    exact hqueues.not_mem_known he₁ (hid ▸ h.known e₂ he₂)
  · intro e' he'
    show e'.identity ∈ b₁.known
    rw [hknown, List.mem_append, List.mem_reverse]
    rw [List.append_assoc, List.mem_append] at he'
    rcases he' with he' | he'
    · exact Or.inl (List.mem_map_of_mem he')
    · exact Or.inr (h.known e' he')
  · show b₁.known.Nodup
    rw [hknown]
    refine (List.nodup_reverse.mpr hqueues.nodup).append h.nodup ?_
    intro i hnew hold
    obtain ⟨e₁, he₁, rfl⟩ := List.mem_map.mp (List.mem_reverse.mp hnew)
    exact hqueues.not_mem_known he₁ hold

theorem enter (h : Ready b enclosing (e :: rest) waiting)
    (hlower : lower width (b.beginExtraction e.identity) e.callable.source (.callable e.name) =
    .ok (text, b₁)) :
    Ready { b₁ with pending := [] } (e :: enclosing) b₁.pending (rest ++ waiting) :=
  h.begin.lowered hlower

theorem queues (h : Ready b enclosing (e :: rest) waiting)
    (hlower : lower width (b.beginExtraction e.identity) e.callable.source (.callable e.name) =
    .ok (text, b₁)) :
    Queues (b.beginExtraction e.identity) (e.callable.references b.binding) b₁ := by
  have hqueues := queues_of_lower h.begin.pending hlower
  rw [references_callable _ _ e.name e.callable.name] at hqueues
  exact hqueues

/-- A callable is done: it is no longer in progress, and the rest of the queue follows. -/
theorem leave (hbefore : Ready b enclosing (e :: rest) waiting)
    (h : Ready b₁ (e :: enclosing) [] (rest ++ waiting)) :
    Ready (b₁.endExtraction e.identity) enclosing rest waiting := by
  have hnot := hbefore.not_mem_enclosing
  refine ⟨h.pending, ?_, ?_, ?_, h.nodup, h.generated⟩
  · show b₁.inProgress.filter (· != e.identity) = _
    rw [h.inProgress, List.map_cons, List.filter_cons_of_neg (by simp)]
    refine List.filter_eq_self.mpr fun i hi => ?_
    rw [bne_iff_ne]
    rintro rfl
    exact hnot hi
  · exact (List.nodup_cons.mp hbefore.distinct).2
  · intro e' he'
    refine h.known e' ?_
    simp only [List.nil_append, List.mem_append, List.mem_cons] at he' ⊢
    tauto

end Ready

namespace Drains

theorem ready (h : Drains width enclosing waiting b queue turns b') :
    Ready b enclosing queue waiting → Ready b' enclosing [] waiting := by
  induction h with
  | done => exact id
  | next hlower _ _ ihinner ihlater =>
    exact fun hready => ihlater (hready.leave (ihinner (hready.enter hlower)))

theorem extends_start (h : Drains width enclosing waiting b queue turns b') : b'.Extends b := by
  induction h with
  | done => exact ⟨rfl, id⟩
  | next hlower _ _ ihinner ihlater =>
    have hfirst := Binder.extends_of_scheduleAll (lower_eq_ok hlower).1
    exact ⟨ihlater.binding.trans (ihinner.binding.trans hfirst.binding),
      fun hname => ihlater.names (ihinner.names (hfirst.names hname))⟩

/-- Each turn lowers its callable while exactly the callables around it are in progress. -/
theorem exists_lower (h : Drains width enclosing waiting b queue turns b') :
    Ready b enclosing queue waiting → ∀ t ∈ turns, ∃ c c₁ : Binder,
      lower width c t.extraction.callable.source (.callable t.extraction.name) = .ok (t.text, c₁) ∧
        c.binding = b.binding ∧ c.inProgress = (t.extraction :: t.enclosing).map (·.identity) ∧
        b'.Extends c₁ := by
  induction h with
  | done => simp
  | next hlower hinner hlater ihinner ihlater =>
    intro hready t ht
    have hentered := hready.enter hlower
    have hbinding := (Binder.extends_of_scheduleAll (lower_eq_ok hlower).1).binding
    have hinnerEnd := hinner.extends_start
    have hlaterEnd := hlater.extends_start
    rcases List.mem_append.mp ht with ht | ht
    · obtain ⟨c, c₁, hc, hcbinding, hprogress, hends⟩ := ihinner hentered t ht
      refine ⟨c, c₁, hc, hcbinding.trans hbinding, hprogress, ?_⟩
      exact hlaterEnd.trans ⟨hends.binding, hends.names⟩
    · rcases List.mem_cons.mp ht with rfl | ht
      · refine ⟨_, _, hlower, rfl, hready.begin.inProgress, ?_⟩
        exact hlaterEnd.trans ⟨hinnerEnd.binding, hinnerEnd.names⟩
      · obtain ⟨c, c₁, hc, hcbinding, hprogress, hends⟩ :=
          ihlater (hready.leave (hinner.ready hentered)) t ht
        exact ⟨c, c₁, hc, hcbinding.trans (hinnerEnd.binding.trans hbinding), hprogress, hends⟩

/-- The callables of the queue have their turns, and besides them exactly the callables that are new
to the binder. -/
theorem exists_perm (h : Drains width enclosing waiting b queue turns b') :
    Ready b enclosing queue waiting → ∃ fresh : List Extraction,
      (turns.map (·.extraction)).Perm (queue ++ fresh) ∧
        b'.names.Perm (fresh.map Extraction.key ++ b.names) := by
  induction h with
  | done => exact fun _ => ⟨[], .refl _, .refl _⟩
  | @next _ _ rest e b b₁ b₂ b₃ inner later _ hlower hinner hlater ihinner ihlater =>
    intro hready
    have hentered := hready.enter hlower
    have hnames : b₁.names = (b₁.pending.map Extraction.key).reverse ++ b.names :=
      (hready.queues hlower).names
    obtain ⟨fresh₁, hturns₁, hnames₁⟩ := ihinner hentered
    obtain ⟨fresh₂, hturns₂, hnames₂⟩ := ihlater (hready.leave (hinner.ready hentered))
    refine ⟨b₁.pending ++ fresh₁ ++ fresh₂, ?_, ?_⟩
    · -- The new callables of the turn are the queue of the inner run, so both sides count them
      -- once.
      rw [List.perm_iff_count] at hturns₁ hturns₂ ⊢
      intro a
      have h₁ := hturns₁ a
      have h₂ := hturns₂ a
      simp only [List.map_append, List.map_cons, List.cons_append, List.count_append,
        List.count_cons] at h₁ h₂ ⊢
      omega
    · rw [List.perm_iff_count] at hnames₁ hnames₂ ⊢
      intro a
      have h₁ : b₂.names.count a = (fresh₁.map Extraction.key ++ b₁.names).count a := hnames₁ a
      have h₂ : b₃.names.count a = (fresh₂.map Extraction.key ++ b₂.names).count a := hnames₂ a
      rw [hnames] at h₁
      simp only [List.map_append, List.count_append, List.count_reverse] at h₁ h₂ ⊢
      omega

theorem queue_subset (h : Drains width enclosing waiting b queue turns b') :
    queue ⊆ turns.map (·.extraction) := by
  induction h with
  | done => exact List.Subset.refl []
  | next _ _ _ _ ihlater =>
    intro e he
    simp only [List.map_append, List.map_cons, List.mem_append, List.mem_cons]
    rcases List.mem_cons.mp he with rfl | he
    · exact Or.inr (Or.inl rfl)
    · exact Or.inr (Or.inr (ihlater he))

theorem mem_known_or_mem_turns (h : Drains width enclosing waiting b queue turns b')
    (hready : Ready b enclosing queue waiting) {i : Nat} (hi : i ∈ b'.known) :
    i ∈ b.known ∨ i ∈ turns.map Turn.identity := by
  obtain ⟨fresh, hturns, hnames⟩ := h.exists_perm hready
  obtain ⟨p, hp, rfl⟩ := List.mem_map.mp hi
  rcases List.mem_append.mp (hnames.mem_iff.mp hp) with hp | hp
  · obtain ⟨e, he, rfl⟩ := List.mem_map.mp hp
    obtain ⟨t, ht, rfl⟩ := List.mem_map.mp (hturns.mem_iff.mpr (List.mem_append_right _ he))
    exact Or.inr (List.mem_map_of_mem ht)
  · exact Or.inl (List.mem_map_of_mem hp)

theorem exists_reference (h : Drains width enclosing waiting b queue turns b') :
    Ready b enclosing queue waiting → ∀ t ∈ turns, t.extraction ∈ queue ∨
      ∃ u ∈ turns, ∃ r ∈ u.references b.binding, r.target = t.extraction.target := by
  induction h with
  | done => simp
  | @next _ _ rest e b b₁ b₂ _ inner later text hlower hinner hlater ihinner ihlater =>
    intro hready t ht
    have hentered := hready.enter hlower
    have hbinding : b₁.binding = b.binding :=
      (Binder.extends_of_scheduleAll (lower_eq_ok hlower).1).binding
    have hbinding' : b₂.binding = b.binding := hinner.extends_start.binding.trans hbinding
    rcases List.mem_append.mp ht with ht | ht
    · right
      rcases ihinner hentered t ht with hpending | ⟨u, hu, r, hr, htarget⟩
      · obtain ⟨r, hr, htarget⟩ := (hready.queues hlower).exists_reference hpending
        exact ⟨_, List.mem_append_right _ List.mem_cons_self, r, hr, htarget⟩
      · exact ⟨u, List.mem_append_left _ hu, r, hbinding ▸ hr, htarget⟩
    · rcases List.mem_cons.mp ht with rfl | ht
      · exact Or.inl List.mem_cons_self
      · rcases ihlater (hready.leave (hinner.ready hentered)) t ht with hrest | ⟨u, hu, r,
          hr, htarget⟩
        · exact Or.inl (List.mem_cons_of_mem _ hrest)
        · refine Or.inr ⟨u, List.mem_append_right _ (List.mem_cons_of_mem _ hu), r, ?_, htarget⟩
          exact hbinding' ▸ hr

end Drains

/-! ## A whole compilation -/

namespace Compiles

variable {source text : String} {entry : EntryPoint}

theorem ready (h : Compiles width enclosing waiting b source entry text turns b')
    (hready : Ready b enclosing [] waiting) : Ready b' enclosing [] waiting := by
  obtain ⟨b₁, hlower, hdrains⟩ := h
  exact hdrains.ready (hready.lowered hlower)

theorem extends_start (h : Compiles width enclosing waiting b source entry text turns b') :
    b'.Extends b := by
  obtain ⟨b₁, hlower, hdrains⟩ := h
  have hfirst := Binder.extends_of_scheduleAll (lower_eq_ok hlower).1
  exact ⟨hdrains.extends_start.binding.trans hfirst.binding,
    fun hname => hdrains.extends_start.names (hfirst.names hname)⟩

/-- The callables that get a name are those that have a turn. -/
theorem names_perm (h : Compiles width [] [] b source entry text turns b')
    (hready : Ready b [] [] []) : b'.names.Perm (turns.map (·.extraction.key) ++ b.names) := by
  obtain ⟨b₁, hlower, hdrains⟩ := h
  obtain ⟨fresh, hturns, hnames⟩ := hdrains.exists_perm (hready.lowered hlower)
  have hfirst : b₁.names = (b₁.pending.map Extraction.key).reverse ++ b.names :=
    (queues_of_lower hready.pending hlower).names
  have hkeys := hturns.map Extraction.key
  rw [List.map_map] at hkeys
  rw [List.perm_iff_count] at hkeys hnames ⊢
  intro a
  have h₁ : (turns.map (·.extraction.key)).count a =
      ((b₁.pending ++ fresh).map Extraction.key).count a := hkeys a
  have h₂ : b'.names.count a = (fresh.map Extraction.key ++ b₁.names).count a := hnames a
  rw [hfirst] at h₂
  simp only [List.map_append, List.count_append, List.count_reverse] at h₁ h₂ ⊢
  omega

theorem nodup (h : Compiles width [] [] b source entry text turns b') (hready : Ready b [] [] []) :
    (turns.map Turn.identity).Nodup := by
  have hknown : b'.known.Perm (turns.map Turn.identity ++ b.known) := by
    have hnames := (h.names_perm hready).map Prod.fst
    rw [List.map_append, List.map_map] at hnames
    exact hnames
  exact (hknown.nodup_iff.mp (h.ready hready).nodup).of_append_left

/-- The text of a source is what it is lowered to if all names are chosen beforehand. -/
theorem lower_settled (h : Compiles width [] [] b source entry text turns b') (hc : c.Settles b') :
    lower width c source entry = .ok (text, c) := by
  obtain ⟨b₁, hlower, hdrains⟩ := h
  exact (lower_eq_ok hlower).2 c
    (hc.earlier ⟨hdrains.extends_start.binding, hdrains.extends_start.names⟩)

theorem lower_turn_settled (h : Compiles width [] [] b source entry text turns b')
    (hready : Ready b [] [] [])
    (ht : t ∈ turns) (hc : c.Settles b') :
    lower width c t.extraction.callable.source (.callable t.extraction.name) = .ok (t.text, c) := by
  obtain ⟨b₁, hlower, hdrains⟩ := h
  obtain ⟨c₀, c₁, hturn, -, -, hends⟩ := hdrains.exists_lower (hready.lowered hlower) t ht
  exact (lower_eq_ok hturn).2 c (hc.earlier hends)

theorem isFunctionText (h : Compiles width [] [] b source entry text turns b')
    (hready : Ready b [] [] [])
    (ht : t ∈ turns) : Lowering.IsFunctionText t.extraction.name t.text := by
  obtain ⟨b₁, hlower, hdrains⟩ := h
  obtain ⟨c₀, c₁, hturn, -⟩ := hdrains.exists_lower (hready.lowered hlower) t ht
  exact isFunctionText_of_lower hturn

theorem not_mem_enclosing (h : Compiles width [] [] b source entry text turns b')
    (hready : Ready b [] [] [])
    (ht : t ∈ turns) (hr : r ∈ t.references b.binding) :
    r.identity ∉ (t.extraction :: t.enclosing).map (·.identity) := by
  obtain ⟨b₁, hlower, hdrains⟩ := h
  obtain ⟨c₀, c₁, hturn, hbinding, hprogress, -⟩ :=
    hdrains.exists_lower (hready.lowered hlower) t ht
  have hsame : b₁.binding = b.binding :=
    (Binder.extends_of_scheduleAll (lower_eq_ok hlower).1).binding
  obtain ⟨hidle, -⟩ := Binder.scheduleAll_eq_ok (lower_eq_ok hturn).1
  rw [hbinding, references_turn] at hidle
  exact hprogress ▸ hidle r (hsame ▸ hr)

/-- Every callable that the source or a turn refers to has a name. -/
theorem mem_known (h : Compiles width [] [] b source entry text turns b')
    (hready : Ready b [] [] [])
    (hr : r ∈ references b.binding source entry ++ turns.flatMap (·.references b.binding)) :
    r.identity ∈ b'.known := by
  obtain ⟨b₁, hlower, hdrains⟩ := h
  have hsame : b₁.binding = b.binding :=
    (Binder.extends_of_scheduleAll (lower_eq_ok hlower).1).binding
  rcases List.mem_append.mp hr with hr | hr
  · have hknown : r.identity ∈ b₁.known := Binder.mem_known_of_scheduleAll (lower_eq_ok hlower).1 hr
    exact hdrains.extends_start.mem_known hknown
  · obtain ⟨t, ht, hr⟩ := List.mem_flatMap.mp hr
    obtain ⟨c₀, c₁, hturn, hbinding, -, hends⟩ := hdrains.exists_lower (hready.lowered hlower) t ht
    have hscheduled := (lower_eq_ok hturn).1
    rw [hbinding, references_turn] at hscheduled
    exact hends.mem_known (Binder.mem_known_of_scheduleAll hscheduled (hsame ▸ hr))

theorem exists_reference (h : Compiles width [] [] b source entry text turns b')
    (hready : Ready b [] [] [])
    (ht : t ∈ turns) :
    ∃ r ∈ references b.binding source entry ++ turns.flatMap (·.references b.binding),
      r.target = t.extraction.target := by
  obtain ⟨b₁, hlower, hdrains⟩ := h
  have hsame : b₁.binding = b.binding :=
    (Binder.extends_of_scheduleAll (lower_eq_ok hlower).1).binding
  rcases hdrains.exists_reference (hready.lowered hlower) t ht with hpending | ⟨u, hu, r,
    hr, htarget⟩
  · obtain ⟨r, hr, htarget⟩ := (queues_of_lower hready.pending hlower).exists_reference hpending
    exact ⟨r, List.mem_append_left _ hr, htarget⟩
  · exact ⟨r, List.mem_append_right _ (List.mem_flatMap.mpr ⟨u, hu, hsame ▸ hr⟩), htarget⟩

end Compiles

end Session

end ScriptCompiler
