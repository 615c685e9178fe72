import ScriptCompiler.Proofs.Termination

/-!
# Entries of the context that nothing mentions

Two contexts may differ in the value of one name. A source that does not mention the name, against
contexts whose other values do not lead to sources that mention it, is compiled to the same text or
refused with the same report. The identities of callables are of no account, as long as different
ones stay different.
-/

namespace ScriptCompiler

variable {identities : List Nat} {i : Nat} {callable : Callable} {c : Change}
  {changes : List Change}

/-! ## Other identities -/

mutual

/-- The same value with other identities of its callables. -/
def ContextValue.renumber (f : Nat → Nat) : ContextValue → ContextValue
  | .null => .null
  | .bool b => .bool b
  | .integer n => .integer n
  | .float x => .float x
  | .string s => .string s
  | .list items => .list (renumberItems f items)
  | .map entries => .map (renumberEntries f entries)
  | .callable identity callable => .callable (f identity) callable
  | .object name attributes => .object name (renumberEntries f attributes)

def renumberItems (f : Nat → Nat) : List ContextValue → List ContextValue
  | [] => []
  | v :: rest => v.renumber f :: renumberItems f rest

def renumberEntries (f : Nat → Nat) : List (String × ContextValue) → List (String × ContextValue)
  | [] => []
  | (k, v) :: rest => (k, v.renumber f) :: renumberEntries f rest

end

mutual

theorem ContextValue.literal?_renumber (f : Nat → Nat) :
    ∀ v : ContextValue, (v.renumber f).literal? = v.literal?
  | .null | .bool _ | .integer _ | .float _ | .string _ | .callable _ _ | .object _ _ => by
    simp only [ContextValue.renumber, ContextValue.literal?]
  | .list items => by
    rw [ContextValue.renumber, ContextValue.literal?, ContextValue.literal?,
      literals?_renumberItems f items]
  | .map entries => by
    rw [ContextValue.renumber, ContextValue.literal?, ContextValue.literal?,
      entryLiterals?_renumberEntries f entries]

theorem literals?_renumberItems (f : Nat → Nat) :
    ∀ items : List ContextValue, ContextValue.literals? (renumberItems f items) =
    ContextValue.literals? items
  | [] => by rw [renumberItems]
  | v :: rest => by
    rw [renumberItems, ContextValue.literals?, ContextValue.literals?, v.literal?_renumber f,
      literals?_renumberItems f rest]

theorem entryLiterals?_renumberEntries (f : Nat → Nat) : ∀ entries : List (String × ContextValue),
    ContextValue.entryLiterals? (renumberEntries f entries) = ContextValue.entryLiterals? entries
  | [] => by rw [renumberEntries]
  | (k, v) :: rest => by
    rw [renumberEntries, ContextValue.entryLiterals?, ContextValue.entryLiterals?,
      v.literal?_renumber f,
      entryLiterals?_renumberEntries f rest]

end

variable (f : Nat → Nat)

theorem lookup_renumberEntries (entries : List (String × ContextValue)) (key : String) :
    (renumberEntries f entries).lookup key = (entries.lookup key).map
    (ContextValue.renumber f) := by
  induction entries with
  | nil => rfl
  | cons entry rest ih =>
    obtain ⟨k, v⟩ := entry
    rw [renumberEntries, List.lookup_cons, List.lookup_cons, ih]
    cases key == k <;> rfl

theorem Binder.attributeOf?_renumber (v : ContextValue) (key : String) :
    attributeOf? (v.renumber f) key = (attributeOf? v key).map
    (Option.map (ContextValue.renumber f)) := by
  cases v with
  | object name attributes =>
    simp only [ContextValue.renumber, attributeOf?, lookup_renumberEntries]
    cases attributes.lookup key <;> rfl
  | _ => rfl

def Extraction.renumber (f : Nat → Nat) (e : Extraction) :
    Extraction := { e with identity := f e.identity }

def ContextHit.renumber (f : Nat → Nat) (hit : ContextHit) :
    ContextHit := { hit with value := hit.value.renumber f }

/-! ## Binders that agree -/

/-- The same outcome twice: results that are related, or one and the same failure. -/
inductive Except.Agree {ε α β : Type} (R : α → β → Prop) : Except ε α → Except ε β → Prop
  | ok {a : α} {b : β} (h : R a b) : Agree R (.ok a) (.ok b)
  | error (e : ε) : Agree R (.error e) (.error e)

theorem Except.Agree.eq_error {ε α β : Type} {R : α → β → Prop} {e : ε} {y : Except ε β}
    (h : Agree R (.error e) y) : y = .error e := by
  cases h
  rfl

theorem Except.Agree.exists_ok {ε α β : Type} {R : α → β → Prop} {a : α} {y : Except ε β}
    (h : Agree R (.ok a) y) : ∃ b, y = .ok b ∧ R a b := by
  cases h with
  | ok h => exact ⟨_, rfl, h⟩

section Agreement

-- The name whose value may differ, the other identities, and the callables that can be met.
variable (n : String) (f : Nat → Nat) (held : Nat × Callable → Prop)

/-- Binders that resolve all names but one alike and know the same of all callables. -/
structure Binder.Alike (b b' : Binder) : Prop where
  values : ∀ m, m ≠ n → b'.lookup m = (b.lookup m).map (ContextValue.renumber f)
  reached : ∀ m, m ≠ n → ∀ v, b.lookup m = some v → ∀ p ∈ v.callables, held p
  names : b'.names = b.names.map fun p => (f p.1, p.2)
  inProgress : b'.inProgress = b.inProgress.map f
  pending : b'.pending = b.pending.map (Extraction.renumber f)
  heldNames : ∀ p ∈ b.names, ∃ callable, held (p.1, callable)
  heldProgress : ∀ i ∈ b.inProgress, ∃ callable, held (i, callable)
  heldPending : ∀ e ∈ b.pending, held e.target

variable {n f held} (hf : ∀ p q, held p → held q → f p.1 = f q.1 → p.1 = q.1) {b b' : Binder}

section Lists

variable {i : Nat}

theorem lookup_renumbered {names : List (Nat × String)} (h : ∀ p ∈ names, f p.1 = f i → p.1 = i) :
    (names.map fun p => (f p.1, p.2)).lookup (f i) = names.lookup i := by
  induction names with
  | nil => rfl
  | cons p rest ih =>
    obtain ⟨j, name⟩ := p
    have hkey : (f i == f j) = (i == j) := by
      by_cases hij : i = j
      · simp [hij]
      · have hne : f i ≠ f j := fun heq => hij (h (j, name) List.mem_cons_self heq.symm).symm
        simp [hij, hne]
    rw [List.map_cons, List.lookup_cons, List.lookup_cons, hkey,
      ih fun p hp => h p (List.mem_cons_of_mem _ hp)]

theorem contains_renumbered (h : ∀ j ∈ identities, f j = f i → j = i) :
    (identities.map f).contains (f i) = identities.contains i := by
  rw [Bool.eq_iff_iff, List.contains_iff_mem, List.contains_iff_mem, List.mem_map]
  constructor
  · rintro ⟨j, hj, heq⟩
    exact h j hj heq ▸ hj
  · intro hi
    exact ⟨i, hi, rfl⟩

theorem filter_renumbered (h : ∀ j ∈ identities, f j = f i → j = i) :
    (identities.map f).filter (· != f i) = (identities.filter (· != i)).map f := by
  rw [List.filter_map]
  congr 1
  refine List.filter_congr fun j hj => ?_
  by_cases hij : j = i
  · simp [hij]
  · have hne : f j ≠ f i := fun heq => hij (h j hj heq)
    exact (bne_iff_ne.mpr hne).trans (bne_iff_ne.mpr hij).symm

end Lists

namespace Binder.Alike

include hf in
theorem names_apart (h : Alike n f held b b') (hi : held (i, callable)) :
    ∀ p ∈ b.names, f p.1 = f i → p.1 = i := by
  intro p hp heq
  obtain ⟨other, hother⟩ := h.heldNames p hp
  exact hf _ _ hother hi heq

include hf in
theorem progress_apart (h : Alike n f held b b') (hi : held (i, callable)) :
    ∀ j ∈ b.inProgress, f j = f i → j = i := by
  intro j hj heq
  obtain ⟨other, hother⟩ := h.heldProgress j hj
  exact hf _ _ hother hi heq

include hf in
theorem schedule (h : Alike n f held b b') (hi : held (i, callable)) (access : String)
    (owner : Option String) :
    Except.Agree (fun out out' => out.1 = out'.1 ∧ Alike n f held out.2 out'.2)
      (b.schedule i callable access owner) (b'.schedule (f i) callable access owner) := by
  have hprogress : b'.inProgress.contains (f i) = b.inProgress.contains i := by
    rw [h.inProgress, contains_renumbered (h.progress_apart hf hi)]
  have hlookup : b'.names.lookup (f i) = b.names.lookup i := by
    rw [h.names, lookup_renumbered (h.names_apart hf hi)]
  have htaken : b'.names.map (·.2) = b.names.map (·.2) := by
    rw [h.names, List.map_map]
    rfl
  unfold Binder.schedule
  rw [hprogress, hlookup, htaken]
  by_cases hcycle : b.inProgress.contains i = true
  · rw [if_pos hcycle, if_pos hcycle]
    exact .error _
  · rw [if_neg hcycle, if_neg hcycle]
    cases b.names.lookup i with
    | some name => exact .ok ⟨rfl, h⟩
    | none =>
      refine .ok ⟨rfl, h.values, h.reached, ?_, h.inProgress, ?_, ?_, h.heldProgress, ?_⟩
      · simp [h.names]
      · simp [h.pending, Extraction.renumber]
      · intro p hp
        rcases List.mem_cons.mp hp with rfl | hp
        · exact ⟨callable, hi⟩
        · exact h.heldNames p hp
      · intro e he
        rcases List.mem_append.mp he with he | he
        · exact h.heldPending e he
        · cases List.mem_singleton.mp he
          exact hi

include hf in
theorem render (h : Alike n f held b b') {v : ContextValue} (hv : ∀ p ∈ v.callables, held p)
    (access : String)
    (owner : Option String) :
    Except.Agree (fun out out' => out.1 = out'.1 ∧ Alike n f held out.2 out'.2)
      (b.render v access owner) (b'.render (v.renumber f) access owner) := by
  by_cases hcallable : ∃ i callable, v = .callable i callable
  · obtain ⟨i, callable, rfl⟩ := hcallable
    have hi : held (i, callable) := hv _ (by simp [ContextValue.callables])
    have hagree := h.schedule hf hi access owner
    simp only [ContextValue.renumber, Binder.render]
    generalize b.schedule i callable access owner = out at hagree
    generalize b'.schedule (f i) callable access owner = out' at hagree
    cases hagree with
    | error fault => exact .error fault
    | ok hout => exact .ok ⟨congrArg Resolution.reference hout.1, hout.2⟩
  · have hne : ∀ i callable, v ≠ .callable i callable :=
      fun i callable heq => hcallable ⟨i, callable, heq⟩
    have hne' : ∀ i callable, v.renumber f ≠ .callable i callable := by
      intro i callable heq
      cases v <;> simp [ContextValue.renumber] at heq hne
    rw [b.render_of_ne_callable access owner hne, b'.render_of_ne_callable access owner hne',
      ContextValue.literal?_renumber]
    exact .ok ⟨rfl, h⟩

include hf in
theorem beginExtraction (h : Alike n f held b b') (hi : held (i, callable)) :
    Alike n f held (b.beginExtraction i) (b'.beginExtraction (f i)) := by
  have hprogress : b'.inProgress.contains (f i) = b.inProgress.contains i := by
    rw [h.inProgress, contains_renumbered (h.progress_apart hf hi)]
  refine ⟨h.values, h.reached, h.names, ?_, h.pending, h.heldNames, ?_, h.heldPending⟩
  · rw [Binder.beginExtraction, Binder.beginExtraction]
    rw [hprogress, h.inProgress]
    split_ifs <;> rfl
  · intro j hj
    simp only [Binder.beginExtraction] at hj
    split_ifs at hj
    · exact h.heldProgress j hj
    · rcases List.mem_cons.mp hj with rfl | hj
      · exact ⟨callable, hi⟩
      · exact h.heldProgress j hj

include hf in
theorem endExtraction (h : Alike n f held b b') (hi : held (i, callable)) :
    Alike n f held (b.endExtraction i) (b'.endExtraction (f i)) := by
  refine ⟨h.values, h.reached, h.names, ?_, h.pending, h.heldNames, ?_, h.heldPending⟩
  · simp only [Binder.endExtraction, h.inProgress, filter_renumbered (h.progress_apart hf hi)]
  · intro j hj
    exact h.heldProgress j (List.mem_of_mem_filter hj)

theorem takePending (h : Alike n f held b b') : Alike n f held b.takePending.2 b'.takePending.2 :=
  ⟨h.values, h.reached, h.names, h.inProgress, rfl, h.heldNames, h.heldProgress, nofun⟩

end Binder.Alike

/-! ## Lowerings that agree -/

theorem Expr.contextHit?_alike (h : Binder.Alike n f held b b') (scopes : Scopes) :
    ∀ e : Expr, (∀ id ∈ e.names, id ≠ n) →
      Except.Agree (fun hit hit' => hit' = hit.map (ContextHit.renumber f) ∧
          ∀ found ∈ hit, ∀ p ∈ found.value.callables, held p)
        (e.contextHit? scopes b) (e.contextHit? scopes b') := by
  intro e
  have hmissing : ∀ found ∈ (none : Option ContextHit), ∀ p ∈ found.value.callables, held p := by
    intro found hfound
    cases hfound
  fun_induction Expr.contextHit? scopes b e with
  | case1 pos id hbound =>
    intro _
    rw [Expr.contextHit?, if_pos hbound]
    exact .ok ⟨rfl, hmissing⟩
  | case2 pos id hbound =>
    intro hnames
    have hid : id ≠ n := hnames id (by simp [Expr.names])
    rw [Expr.contextHit?, if_neg hbound, h.values id hid]
    cases hlookup : b.lookup id with
    | none => exact .ok ⟨rfl, hmissing⟩
    | some v =>
      refine .ok ⟨rfl, ?_⟩
      rintro _ ⟨⟩
      exact h.reached id hid v hlookup
  | case3 object key ih =>
    intro hnames
    rw [Expr.contextHit?]
    have hagree := ih hnames
    generalize object.contextHit? scopes b = out at hagree
    generalize object.contextHit? scopes b' = out' at hagree
    cases hagree with
    | error d => exact .error d
    | @ok hit _ hout =>
      obtain ⟨rfl, hheld⟩ := hout
      cases hit with
      | none => exact .ok ⟨rfl, hmissing⟩
      | some base =>
        obtain ⟨v, access, owner⟩ := base
        have hattribute' := Binder.attributeOf?_renumber f v key
        cases hattribute : Binder.attributeOf? v key with
        | error fault =>
          simp only [bind, Except.bind, Option.map_some, ContextHit.renumber, hattribute,
            hattribute']
          exact .error _
        | ok found =>
          simp only [bind, Except.bind, Option.map_some, ContextHit.renumber, hattribute,
            hattribute']
          refine .ok ⟨?_, ?_⟩
          · cases found with
            | none => rfl
            | some value => cases v <;> rfl
          · intro hit hhit p hp
            cases found with
            | none => cases hhit
            | some value =>
              cases hhit
              exact hheld _ rfl p (Binder.callables_attributeOf? hattribute hp)
  | case4 e hname hmember =>
    intro _
    have hnone : Expr.contextHit? scopes b' e = .ok none := by
      unfold Expr.contextHit?
      split
      · exact absurd rfl (hname _ _)
      · exact absurd rfl (hmember _ _)
      · rfl
    rw [hnone]
    exact .ok ⟨rfl, hmissing⟩

namespace Change

theorem apply_binder (hc : c.KeepsBinder) (s : LoweringState) (b' : Binder) :
    c.apply { s with binder := b' } = { c.apply s with binder := b' } ∧
    (c.apply s).binder = s.binder := by
  cases c with
  | setBinder binder => cases hc
  | _ => exact ⟨rfl, rfl⟩

theorem applyAll_binder (hchanges : ∀ c ∈ changes, c.KeepsBinder) (s : LoweringState)
    (b' : Binder) :
    applyAll changes { s with binder := b' } = { applyAll changes s with binder := b' } ∧
      (applyAll changes s).binder = s.binder := by
  induction changes generalizing s with
  | nil => exact ⟨rfl, rfl⟩
  | cons c rest ih =>
    obtain ⟨hc, hrest⟩ := List.forall_mem_cons.mp hchanges
    obtain ⟨happly, hbinder⟩ := apply_binder hc s b'
    obtain ⟨hall, hkept⟩ := ih hrest (c.apply s)
    show applyAll rest (c.apply { s with binder := b' }) = _ ∧
      (applyAll rest (c.apply s)).binder = _
    rw [happly]
    exact ⟨hall, hkept.trans hbinder⟩

end Change

namespace Lowering

variable {α β : Type}

variable (n f held) in
/-- The same result of two runs: the same value with states that differ in binders that agree, or
the same report. -/
inductive SameResult :
    EStateM.Result Diagnostic LoweringState α → EStateM.Result Diagnostic LoweringState α → Prop
  | ok {a : α} {s : LoweringState} {b' : Binder} (h : Binder.Alike n f held s.binder b') :
      SameResult (.ok a s) (.ok a { s with binder := b' })
  | error {d : Diagnostic} {s s' : LoweringState} : SameResult (.error d s) (.error d s')

variable (n f held) in
/-- An action that does not tell binders apart that agree. -/
def Blind (m : Lowering α) : Prop :=
  ∀ (s : LoweringState) (b' : Binder), Binder.Alike n f held s.binder b' →
    SameResult n f held (m.run s) (m.run { s with binder := b' })

namespace Blind

theorem bind {m : Lowering α} {g : α → Lowering β} (hm : Blind n f held m)
    (hg : ∀ a, Blind n f held (g a)) : Blind n f held (m >>= g) := by
  intro s b' hb
  have hsame := hm s b' hb
  rw [run_bind, run_bind]
  generalize m.run s = r at hsame
  generalize m.run { s with binder := b' } = r' at hsame
  cases hsame with
  | ok h => exact hg _ _ _ h
  | error => exact .error

theorem perform (hc : c.KeepsBinder) : Blind n f held (Lowering.perform c) := by
  intro s b' hb
  obtain ⟨happly, hbinder⟩ := Change.apply_binder hc s b'
  show SameResult n f held (.ok () (c.apply s)) (.ok () (c.apply { s with binder := b' }))
  rw [happly]
  exact .ok (hbinder ▸ hb)

theorem ensuring {m : Lowering α} (hchanges : ∀ c ∈ changes, c.KeepsBinder)
    (hm : Blind n f held m) : Blind n f held (Lowering.ensuring changes m) := by
  intro s b' hb
  have hsame := hm s b' hb
  rw [run_ensuring, run_ensuring]
  generalize m.run s = r at hsame
  generalize m.run { s with binder := b' } = r' at hsame
  cases hsame with
  | @ok a t c' h =>
    obtain ⟨happly, hbinder⟩ := Change.applyAll_binder hchanges t c'
    dsimp only
    rw [happly]
    exact .ok (hbinder ▸ h)
  | error => exact .error

theorem reading {g : LoweringState → Lowering α}
    (hg : ∀ s binder, g { s with binder := binder } = g s)
    (h : ∀ s, Blind n f held (g s)) : Blind n f held (get >>= g) := by
  intro s b' hb
  rw [run_get_bind, run_get_bind, hg s b']
  exact h s s b' hb

theorem isFree {id : String} (hid : id ≠ n) : Blind n f held (Lowering.isFree id) := by
  intro s b' hb
  have hnone : (b'.lookup id).isNone = (s.binder.lookup id).isNone := by
    rw [hb.values id hid]
    cases s.binder.lookup id <;> rfl
  show SameResult n f held (.ok (!s.scopes.isBound id && (s.binder.lookup id).isNone) s)
    (.ok (!s.scopes.isBound id && (b'.lookup id).isNone) { s with binder := b' })
  rw [hnone]
  exact .ok hb

include hf in
theorem contextText? {e : Expr} (he : ∀ id ∈ e.names, id ≠ n) :
    Blind n f held (Lowering.contextText? e) := by
  intro s b' hb
  have hagree := Expr.contextHit?_alike hb s.scopes e he
  rw [Lowering.contextText?, run_get_bind, run_get_bind]
  generalize e.contextHit? s.scopes s.binder = out at hagree
  generalize e.contextHit? s.scopes b' = out' at hagree
  cases hagree with
  | error d => exact .error
  | @ok found _ hout =>
    obtain ⟨rfl, hheld⟩ := hout
    cases found with
    | none => exact .ok hb
    | some hit =>
      -- The value is rendered by both binders to the same text.
      have hrender := hb.render hf (hheld hit rfl) hit.access hit.owner
      simp only [Option.map_some, ContextHit.renumber]
      rw [Lowering.render, Lowering.render, run_get_bind, run_get_bind]
      generalize s.binder.render hit.value hit.access hit.owner = out at hrender
      generalize b'.render (hit.value.renumber f) hit.access hit.owner = out' at hrender
      cases hrender with
      | error fault => exact .error
      | @ok first second hout =>
        obtain ⟨resolution, binder⟩ := first
        obtain ⟨resolution', binder'⟩ := second
        obtain ⟨rfl, halike⟩ := hout
        cases resolution <;> exact .ok (s := { s with binder := binder }) halike

end Blind

include hf in
theorem composes_blind : Composes (fun m => Blind n f held m) (· ≠ n) where
  pure _ := fun _ _ hb => .ok hb
  fail _ := fun _ _ _ => .error
  bind := Blind.bind
  perform := Blind.perform
  ensuring := Blind.ensuring
  reading := Blind.reading
  isFree := Blind.isFree
  contextText? := Blind.contextText? hf

end Lowering

/-! ## Sessions that agree -/

namespace Session

variable {width : Nat} {source : String}

include hf in
theorem lower_alike (width : Nat) (entry : EntryPoint) (hb : Binder.Alike n f held b b')
    (hsource : n ∉ sourceNames source) :
    Except.Agree (fun out out' => out.1 = out'.1 ∧ Binder.Alike n f held out.2 out'.2)
      (lower width b source entry) (lower width b' source entry) := by
  cases hparse : parse source with
  | error d =>
    have herror : ∀ binder, lower width binder source entry = .error d := by
      intro binder
      rw [lower, hparse]
      rfl
    rw [herror, herror]
    exact .error d
  | ok program =>
    have hnames : ∀ id ∈ blockNames program, id ≠ n := by
      rintro id hid rfl
      rw [sourceNames, hparse] at hsource
      exact hsource hid
    have hblind : Lowering.Blind n f held (Lowering.program program entry) :=
      Lowering.composed_program (Lowering.composes_blind hf) entry hnames
    have hsame := hblind (.start b width) b' hb
    rw [lower_of_parse hparse, lower_of_parse hparse]
    have hstart : ({ LoweringState.start b width with binder := b' } : LoweringState) =
        .start b' width := rfl
    rw [hstart] at hsame
    generalize (Lowering.program program entry).run (.start b width) = r at hsame
    generalize (Lowering.program program entry).run (.start b' width) = r' at hsame
    cases hsame with
    | error => exact .error _
    | @ok u state _ halike =>
      dsimp only
      cases state.buffer.finish with
      | error fault => exact .error _
      | ok text => exact .ok ⟨rfl, halike⟩

/-- The same outcome of two compilations: the same texts with binders that agree, or the same
report. -/
abbrev SameOutcome (n : String) (f : Nat → Nat) (held : Nat × Callable → Prop) :
    Outcome → Outcome → Prop :=
  Except.Agree fun out out' => out.1.map (·.text) = out'.1.map (·.text) ∧
    Binder.Alike n f held out.2 out'.2

/-- What is left to do beside a task: the same source, or the same queue. -/
inductive Task.Beside (f : Nat → Nat) (held : Nat × Callable → Prop) (n : String) :
    Task → Task → Prop
  | source {source : String} {entry : EntryPoint} {extraction extraction' : Option Extraction}
      (hsource : n ∉ sourceNames source) :
      Beside f held n (.source source entry extraction) (.source source entry extraction')
  | queue {outer outer' : Binder} {queue : List Extraction} (hqueue : ∀ e ∈ queue, held e.target) :
      Beside f held n (.queue outer queue) (.queue outer' (queue.map (Extraction.renumber f)))

include hf in
/-- A compilation that ends also ends from a binder that agrees, and in the same way. -/
theorem Ends.beside (hheld : ∀ p, held p → n ∉ sourceNames p.2.source) {task task' : Task}
    {calls : List NestedCall}
    {outcome : Outcome} (h : Ends width b task calls outcome) (hb : Binder.Alike n f held b b')
    (htask : Task.Beside f held n task task') :
    ∃ calls' outcome', Ends width b' task' calls' outcome' ∧
    SameOutcome n f held outcome outcome' := by
  have hone : ∀ e : Extraction, held e.target →
      Task.Beside f held n (.source e.callable.source (.callable e.name) (some e))
        (.source (e.renumber f).callable.source (.callable (e.renumber f).name)
        (some (e.renumber f))) := by
    intro e he
    have hsource : n ∉ sourceNames e.callable.source := hheld e.target he
    exact .source hsource
  induction h generalizing b' task' with
  | @refused b source entry extraction d hlower =>
    cases htask with
    | source hsource =>
      have hagree := lower_alike hf width entry hb hsource
      rw [hlower] at hagree
      exact ⟨[], _, .refused hagree.eq_error, .error d⟩
  | @lowered b b₁ source text entry extraction calls outcome hlower hqueue ih =>
    cases htask with
    | source hsource =>
      have hagree := lower_alike hf width entry hb hsource
      rw [hlower] at hagree
      obtain ⟨⟨text', b₁'⟩, hlower', rfl, hb₁⟩ := hagree.exists_ok
      -- The callables that wait are the same, under other identities.
      have hbeside :
          Task.Beside f held n (.queue b b₁.takePending.1) (.queue b' b₁'.takePending.1) := by
        have hpending : b₁'.takePending.1 = b₁.takePending.1.map (Extraction.renumber f) :=
          hb₁.pending
        rw [hpending]
        exact .queue hb₁.heldPending
      obtain ⟨calls', outcome', hends, hsame⟩ := ih hb₁.takePending hbeside
      refine ⟨calls', _, .lowered hlower' hends, ?_⟩
      cases hsame with
      | error d => exact .error d
      | ok hout => exact .ok ⟨by simp [hout.1], hout.2⟩
  | drained =>
    cases htask
    exact ⟨[], _, .drained, .ok ⟨rfl, hb⟩⟩
  | @failed b outer e rest calls d hfirst ih =>
    cases htask with
    | @queue _ outer' _ hqueue =>
      have he : held e.target := hqueue e List.mem_cons_self
      obtain ⟨calls', outcome', hends, hsame⟩ := ih (hb.beginExtraction hf he) (hone e he)
      cases hsame with
      | error d => exact ⟨_, _, .failed hends, .error d⟩
  | @next b b₁ outer e rest calls more units outcome hfirst hrest ihfirst ihrest =>
    cases htask with
    | @queue _ outer' _ hqueue =>
      have he : held e.target := hqueue e List.mem_cons_self
      obtain ⟨calls', outcome', hends, hsame⟩ := ihfirst (hb.beginExtraction hf he) (hone e he)
      obtain ⟨⟨units', b₁'⟩, rfl, hunits, hb₁⟩ := hsame.exists_ok
      have hqueue' :
          Task.Beside f held n (.queue outer rest)
          (.queue outer' (rest.map (Extraction.renumber f))) :=
        .queue fun e' he' => hqueue e' (List.mem_cons_of_mem _ he')
      obtain ⟨more', outcome', hends', hsame'⟩ := ihrest (hb₁.endExtraction hf he) hqueue'
      refine ⟨_, _, .next hends hends', ?_⟩
      cases hsame' with
      | error d => exact .error d
      | ok hout => exact .ok ⟨by simp [hunits, hout.1], hout.2⟩

end Session

end Agreement

/-! ## Contexts that agree -/

/-- A callable that a context holds in the value of another name. -/
def HeldBeside (n : String) (context : Option Binding) (p : Nat × Callable) : Prop :=
  ∃ m v, m ≠ n ∧ context.bind (·.get? m) = some v ∧ p ∈ v.callables

/-- Contexts that agree on every name but one, up to the identities of callables. -/
structure AgreeExcept (n : String) (f : Nat → Nat) (context context' : Option Binding) : Prop where
  values : ∀ m, m ≠ n → context'.bind (·.get? m) = (context.bind (·.get? m)).map
    (ContextValue.renumber f)
  distinct : ∀ p q, HeldBeside n context p → HeldBeside n context q → f p.1 = f q.1 → p.1 = q.1

theorem AgreeExcept.alike {n : String} {f : Nat → Nat} {context context' : Option Binding}
    (h : AgreeExcept n f context context') :
    Binder.Alike n f (HeldBeside n context) (.ofBinding context) (.ofBinding context') :=
  ⟨h.values, fun m hm v hv _ hp => ⟨m, v, hm, hv, hp⟩, rfl, rfl, rfl, nofun, nofun, nofun⟩

/-- The value of a name that neither a source mentions nor any callable that the context holds
beside it makes no difference: the source is compiled to the same output, or fails with the same
report. -/
theorem compile_eq_of_agreeExcept {n : String} {f : Nat → Nat} {context context' : Option Binding}
    (hagree : AgreeExcept n f context context') {source : String} (hsource : n ∉ sourceNames source)
    (hcallables : ∀ p, HeldBeside n context p → n ∉ sourceNames p.2.source) (entry : EntryPoint)
    (options : Options) :
    (SourceUnit.mk source context entry).compile options =
    (SourceUnit.mk source context' entry).compile options := by
  obtain ⟨calls, hends⟩ :=
    Session.ends_compile options.indentWidth source entry (Session.Ready.start context)
  obtain ⟨calls', hends'⟩ :=
    Session.ends_compile options.indentWidth source entry (Session.Ready.start context')
  obtain ⟨others, outcome, hbeside, hsame⟩ :=
    hends.beside hagree.distinct hcallables hagree.alike (.source hsource)
  obtain ⟨-, rfl⟩ := hends'.unique hbeside
  unfold SourceUnit.compile
  dsimp only
  generalize Session.compile options.indentWidth (.ofBinding context) source entry = out at hsame
  generalize Session.compile options.indentWidth (.ofBinding context') source entry = out' at hsame
  cases hsame with
  | error d => rfl
  | @ok first second hout =>
    show verified options (UnitText.joined first.1) = verified options (UnitText.joined second.1)
    rw [UnitText.joined, UnitText.joined, hout.1]

def scaling : Callable := ⟨"scale", none, "def scale(x):\n    return x * unit.factor\n"⟩

/-- A context with a value that nothing mentions, before the others. -/
def surveyContext : Option Binding :=
  some ⟨[("depth",
    .object "Probe" [("read", .callable 0 ⟨"read", none, "def read():\n    return scale(1)\n"⟩)]),
    ("scale", .callable 1 scaling), ("unit", .object "Unit" [("factor", .integer 3)])]⟩

/-- The same context with another value of that name, which shifts the identities. -/
def shallowContext : Option Binding :=
  some ⟨[("depth", .null), ("scale", .callable 0 scaling),
    ("unit", .object "Unit" [("factor", .integer 3)])]⟩

def surveySource : String := "def survey(w):\n    return scale(w) + len(w)\nsurvey(unit.height)\n"

theorem heldBeside_surveyContext {p : Nat × Callable} (h : HeldBeside "depth" surveyContext p) :
    p = (1, scaling) := by
  obtain ⟨m, v, hm, hv, hp⟩ := h
  rw [surveyContext, Option.bind_some, Binding.get?, List.lookup_cons, beq_false_of_ne hm,
    List.lookup_cons,
    List.lookup_cons] at hv
  by_cases hscale : m = "scale"
  · subst hscale
    cases hv
    simpa [ContextValue.callables] using hp
  · rw [beq_false_of_ne hscale] at hv
    by_cases hunit : m = "unit"
    · subst hunit
      cases hv
      simp [ContextValue.callables, entryCallables] at hp
    · rw [beq_false_of_ne hunit] at hv
      cases hv

theorem survey_eq_whatever_depth :
    AgreeExcept "depth" (· - 1) surveyContext shallowContext ∧ "depth" ∉ sourceNames surveySource ∧
      (∀ p, HeldBeside "depth" surveyContext p → "depth" ∉ sourceNames p.2.source) ∧
      (SourceUnit.mk surveySource surveyContext .module).compile {} =
        (SourceUnit.mk surveySource shallowContext .module).compile {} := by
  have hagree : AgreeExcept "depth" (· - 1) surveyContext shallowContext := by
    constructor
    · intro m hm
      simp only [surveyContext, shallowContext, Option.bind_some, Binding.get?, List.lookup_cons,
        beq_false_of_ne hm]
      by_cases hscale : m = "scale"
      · subst hscale
        rfl
      · rw [beq_false_of_ne hscale]
        by_cases hunit : m = "unit"
        · subst hunit
          rfl
        · rw [beq_false_of_ne hunit]
          rfl
    · intro p q hp hq _
      rw [heldBeside_surveyContext hp, heldBeside_surveyContext hq]
  have hsource : "depth" ∉ sourceNames surveySource := by decide +kernel
  have hcallables : ∀ p, HeldBeside "depth" surveyContext p → "depth" ∉ sourceNames p.2.source := by
    intro p hp
    rw [heldBeside_surveyContext hp]
    decide +kernel
  exact ⟨hagree, hsource, hcallables,
    compile_eq_of_agreeExcept hagree hsource hcallables .module {}⟩

end ScriptCompiler
