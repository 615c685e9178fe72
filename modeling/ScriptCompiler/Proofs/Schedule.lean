import Mathlib
import ScriptCompiler.Proofs.Reference

/-!
# Scheduling references

A binder meets the references of a source one after the other. The first reference to a callable
chooses its generated name, which no other callable has, and puts the callable at the end of the
queue; every later reference repeats that name. Only a callable whose extraction is in progress is
refused.
-/

namespace ScriptCompiler

variable {b b' b₁ : Binder} {identity : Nat} {name access : String} {callable : Callable}
  {owner : Option String}
  {seen : List Nat} {r : Reference} {refs : List Reference}

/-! ## Generated names -/

namespace Binder

theorem candidate_injective (base : String) : Function.Injective (candidate base) := by
  have longer : ∀ n : Nat, base ≠ base ++ "_" ++ toString n := by
    intro n h
    have hlen := congrArg String.length h
    simp only [String.length_append] at hlen
    have : "_".length = 1 := rfl
    omega
  intro i j h
  unfold candidate at h
  split_ifs at h with hi hj hj
  · omega
  · exact absurd h (longer _)
  · exact absurd h.symm (longer _)
  · have hnum : toString (i + 1) = toString (j + 1) := (String.append_right_inj _).mp h
    exact Nat.succ.inj (Nat.repr_injective hnum)

/-- A search that ends on a taken name has met taken names only. -/
theorem candidate_mem_of_freshFrom_mem {taken : List String} {base : String} :
    ∀ {fuel index : Nat}, freshFrom taken base fuel index ∈ taken →
      ∀ k ≤ fuel, candidate base (index + k) ∈ taken
  | 0, index, h, k, hk => by
    obtain rfl : k = 0 := Nat.le_zero.mp hk
    exact h
  | fuel + 1, index, h, k, hk => by
    rw [freshFrom] at h
    split_ifs at h with htaken
    · cases k with
      | zero => simpa using htaken
      | succ k =>
        have := candidate_mem_of_freshFrom_mem h k (by omega)
        rwa [Nat.add_right_comm, Nat.add_assoc] at this
    · exact absurd (List.contains_iff_mem.mpr h) htaken

theorem freshName_not_mem (taken : List String) (base : String) : freshName taken base ∉ taken := by
  intro h
  have hall := candidate_mem_of_freshFrom_mem h
  let candidates := (List.range (taken.length + 1)).map (candidate base)
  have hnodup : candidates.Nodup := List.nodup_range.map (candidate_injective base)
  have hsub : candidates ⊆ taken := by
    intro name hname
    obtain ⟨k, hk, rfl⟩ := List.mem_map.mp hname
    have hle : k ≤ taken.length := Nat.lt_succ_iff.mp (List.mem_range.mp hk)
    simpa using hall k hle
  have hlen := (List.subperm_of_subset hnodup hsub).length_le
  simp only [candidates, List.length_map, List.length_range] at hlen
  omega

/-! ## One reference -/

/-- The callables that have a generated name. -/
def known (b : Binder) : List Nat := b.names.map (·.1)

def generated (b : Binder) : List String := b.names.map (·.2)

/-- The binder after the first reference to a callable. -/
def enqueue (b : Binder) (e : Extraction) : Binder :=
  { b with names := (e.identity, e.name) :: b.names, pending := b.pending ++ [e] }

theorem lookup_eq_none_iff_not_mem_known : b.names.lookup identity = none ↔ identity ∉ b.known := by
  simp only [List.lookup_eq_none_iff, known, List.mem_map, not_exists, not_and, bne_iff_ne, ne_eq]
  exact ⟨fun h p hp heq => h p hp heq.symm, fun h p hp heq => h p hp heq.symm⟩

theorem mem_known_of_lookup (h : b.names.lookup identity = some name) : identity ∈ b.known := by
  by_contra hnot
  rw [lookup_eq_none_iff_not_mem_known.mpr hnot] at h
  cases h

/-- Everything that a reference can do to a binder. -/
theorem schedule_eq_ok (h : b.schedule identity callable access owner = .ok (name, b')) :
    identity ∉ b.inProgress ∧
      ((b.names.lookup identity = some name ∧ b' = b) ∨
        (identity ∉ b.known ∧ name ∉ b.generated ∧ b' = b.enqueue ⟨identity, name, callable⟩)) := by
  unfold schedule at h
  split_ifs at h with hprogress
  refine ⟨fun hmem => hprogress (List.contains_iff_mem.mpr hmem), ?_⟩
  cases hlookup : b.names.lookup identity with
  | some memo =>
    rw [hlookup] at h
    injection h with h
    obtain ⟨rfl, rfl⟩ := Prod.mk.inj h
    exact Or.inl ⟨rfl, rfl⟩
  | none =>
    rw [hlookup] at h
    injection h with h
    obtain ⟨rfl, rfl⟩ := Prod.mk.inj h
    exact Or.inr ⟨lookup_eq_none_iff_not_mem_known.mp hlookup, freshName_not_mem _ _, rfl⟩

theorem lookup_of_schedule (h : b.schedule identity callable access owner = .ok (name, b')) :
    b'.names.lookup identity = some name := by
  obtain ⟨-, ⟨hmemo, rfl⟩ | ⟨-, -, rfl⟩⟩ := schedule_eq_ok h
  · exact hmemo
  · simp [enqueue]

theorem schedule_eq_error {f : Fault} (h : b.schedule identity callable access owner = .error f) :
    identity ∈ b.inProgress ∧ f = .cyclicCallable callable.name := by
  unfold schedule at h
  split_ifs at h with hprogress
  · injection h with h
    exact ⟨List.contains_iff_mem.mp hprogress, h.symm⟩
  · cases hlookup : b.names.lookup identity <;> rw [hlookup] at h <;> cases h

/-- A callable that has its name keeps it. -/
theorem schedule_of_lookup (hidle : b.inProgress = [])
    (hname : b.names.lookup identity = some name) : b.schedule identity callable access owner =
    .ok (name, b) := by
  unfold schedule
  rw [hidle, hname]
  rfl

end Binder

/-! ## All references of a source -/

/-- The first references to callables that are not among those seen before. -/
def newReferences (seen : List Nat) : List Reference → List Reference
  | [] => []
  | r :: rest =>
    if r.identity ∈ seen then newReferences seen rest else r ::
      newReferences (r.identity :: seen) rest

theorem newReferences_cons_of_mem (h : r.identity ∈ seen) (rest : List Reference) :
    newReferences seen (r :: rest) = newReferences seen rest := by
  rw [newReferences, if_pos h]

theorem newReferences_cons_of_not_mem (h : r.identity ∉ seen) (rest : List Reference) :
    newReferences seen (r :: rest) = r :: newReferences (r.identity :: seen) rest := by
  rw [newReferences, if_neg h]

theorem newReferences_sublist :
    ∀ (seen : List Nat) (refs : List Reference), (newReferences seen refs).Sublist refs
  | _, [] => .slnil
  | seen, r :: rest => by
    by_cases h : r.identity ∈ seen
    · rw [newReferences_cons_of_mem h]
      exact (newReferences_sublist seen rest).cons r
    · rw [newReferences_cons_of_not_mem h]
      exact (newReferences_sublist _ rest).cons_cons r

theorem not_mem_seen_of_mem_newReferences :
    ∀ {seen : List Nat} {refs : List Reference}, r ∈ newReferences seen refs → r.identity ∉ seen
  | seen, s :: rest, hr => by
    by_cases h : s.identity ∈ seen
    · rw [newReferences_cons_of_mem h] at hr
      exact not_mem_seen_of_mem_newReferences hr
    · rw [newReferences_cons_of_not_mem h] at hr
      rcases List.mem_cons.mp hr with rfl | hr
      · exact h
      · intro hseen
        exact not_mem_seen_of_mem_newReferences hr (List.mem_cons_of_mem _ hseen)

theorem newReferences_nodup :
    ∀ (seen : List Nat) (refs : List Reference), ((newReferences seen refs).map (·.identity)).Nodup
  | _, [] => List.nodup_nil
  | seen, r :: rest => by
    by_cases h : r.identity ∈ seen
    · rw [newReferences_cons_of_mem h]
      exact newReferences_nodup seen rest
    · rw [newReferences_cons_of_not_mem h, List.map_cons, List.nodup_cons]
      refine ⟨?_, newReferences_nodup _ rest⟩
      intro hmem
      obtain ⟨s, hs, hid⟩ := List.mem_map.mp hmem
      exact not_mem_seen_of_mem_newReferences hs (hid ▸ List.mem_cons_self)

theorem mem_seen_or_mem_newReferences : ∀ {seen : List Nat} {refs : List Reference}, r ∈ refs →
      r.identity ∈ seen ∨ r.identity ∈ (newReferences seen refs).map (·.identity)
  | seen, s :: rest, hr => by
    by_cases h : s.identity ∈ seen
    · rw [newReferences_cons_of_mem h]
      rcases List.mem_cons.mp hr with rfl | hr
      · exact Or.inl h
      · exact mem_seen_or_mem_newReferences hr
    · rw [newReferences_cons_of_not_mem h, List.map_cons, List.mem_cons]
      rcases List.mem_cons.mp hr with rfl | hr
      · exact Or.inr (Or.inl rfl)
      · have hrest : r.identity ∈ s.identity :: seen ∨ _ := mem_seen_or_mem_newReferences hr
        rcases hrest with hseen | hnew
        · rcases List.mem_cons.mp hseen with heq | hseen
          · exact Or.inr (Or.inl heq)
          · exact Or.inl hseen
        · exact Or.inr (Or.inr hnew)

def Reference.target (r : Reference) : Nat × Callable := (r.identity, r.callable)

/-- The callable that is compiled by an extraction. -/
def Extraction.target (e : Extraction) : Nat × Callable := (e.identity, e.callable)

theorem identities_of_targets {extractions : List Extraction}
    (h : extractions.map Extraction.target = refs.map Reference.target) :
    extractions.map (·.identity) = refs.map (·.identity) := by
  have hfirst := congrArg (List.map Prod.fst) h
  simpa [Extraction.target, Reference.target, Function.comp_def] using hfirst

/-- The entry that an extraction has among the names of a binder. -/
def Extraction.key (e : Extraction) : Nat × String := (e.identity, e.name)

namespace Binder

/-- Meet references one after the other. -/
def scheduleAll (b : Binder) : List Reference → Except Fault Binder
  | [] => .ok b
  | r :: rest => do
    let (_, b) ← b.schedule r.identity r.callable r.access r.owner
    b.scheduleAll rest

/-- The binder after first references to several callables. -/
def enqueueAll (b : Binder) (added : List Extraction) : Binder := added.foldl enqueue b

theorem enqueueAll_eq (b : Binder) (added : List Extraction) : b.enqueueAll added =
      { b with
        names := (added.map Extraction.key).reverse ++ b.names
        pending := b.pending ++ added } := by
  unfold enqueueAll
  induction added generalizing b with
  | nil => simp
  | cons e rest ih => simp [ih, enqueue, Extraction.key]

theorem known_enqueueAll (b : Binder) (added : List Extraction) :
    (b.enqueueAll added).known = (added.map (·.identity)).reverse ++ b.known := by
  simp [enqueueAll_eq, known, Extraction.key, Function.comp_def]

theorem scheduleAll_cons {rest : List Reference}
    (h : b.schedule r.identity r.callable r.access r.owner = .ok (name, b₁)) :
    b.scheduleAll (r :: rest) = b₁.scheduleAll rest := by
  rw [scheduleAll, h]
  rfl

theorem scheduleAll_append (h : b.scheduleAll refs = .ok b₁)
    (more : List Reference) : b.scheduleAll (refs ++ more) = b₁.scheduleAll more := by
  induction refs generalizing b with
  | nil =>
    injection h with h
    rw [List.nil_append, h]
  | cons r rest ih =>
    cases hr : b.schedule r.identity r.callable r.access r.owner with
    | error f =>
      rw [scheduleAll, hr] at h
      cases h
    | ok out =>
      rw [scheduleAll_cons hr] at h
      rw [List.cons_append, scheduleAll_cons hr]
      exact ih h

/-- Everything that the references of a source do to a binder: none of them is to a callable in
progress, and the callables that had no name get one and join the queue. -/
theorem scheduleAll_eq_ok (h : b.scheduleAll refs = .ok b') :
    (∀ r ∈ refs, r.identity ∉ b.inProgress) ∧
      ∃ added : List Extraction, b' = b.enqueueAll added ∧
        added.map Extraction.target = (newReferences b.known refs).map Reference.target ∧
        (b.generated.Nodup → b'.generated.Nodup) := by
  induction refs generalizing b with
  | nil =>
    injection h with h
    exact ⟨by simp, [], h.symm, rfl, fun hb => h ▸ hb⟩
  | cons r rest ih =>
    cases hr : b.schedule r.identity r.callable r.access r.owner with
    | error f =>
      rw [scheduleAll, hr] at h
      cases h
    | ok out =>
      obtain ⟨name, b₁⟩ := out
      rw [scheduleAll_cons hr] at h
      obtain ⟨hidle, ⟨hmemo, rfl⟩ | ⟨hnew, hname, rfl⟩⟩ := schedule_eq_ok hr
      · -- The callable has its name already: the binder stays as it is.
        obtain ⟨hrest, added, heq, htargets, hnodup⟩ := ih h
        refine ⟨List.forall_mem_cons.mpr ⟨hidle, hrest⟩, added, heq, ?_, hnodup⟩
        rw [newReferences_cons_of_mem (mem_known_of_lookup hmemo)]
        exact htargets
      · -- The callable is new, and so is its name: it is the next in the queue.
        obtain ⟨hrest, added, heq, htargets, hnodup⟩ := ih h
        refine ⟨List.forall_mem_cons.mpr ⟨hidle, hrest⟩, ⟨r.identity, name, r.callable⟩ :: added,
          heq, ?_, ?_⟩
        · rw [newReferences_cons_of_not_mem hnew]
          exact congrArg _ htargets
        · intro hb
          exact hnodup (List.nodup_cons.mpr ⟨hname, hb⟩)

/-- A callable that is referred to has a name. -/
theorem mem_known_of_scheduleAll (h : b.scheduleAll refs = .ok b') (hr : r ∈ refs) :
    r.identity ∈ b'.known := by
  obtain ⟨-, added, rfl, htargets, -⟩ := scheduleAll_eq_ok h
  rw [known_enqueueAll, List.mem_append, List.mem_reverse, identities_of_targets htargets]
  exact (mem_seen_or_mem_newReferences hr).symm

theorem scheduleAll_lookup (h : b.scheduleAll refs = .ok b')
    (hname : b.names.lookup identity = some name) : b'.names.lookup identity = some name := by
  obtain ⟨-, added, rfl, htargets, -⟩ := scheduleAll_eq_ok h
  -- New names stand in front of the table, and none of them is for a callable that has one.
  have hadded : (added.map Extraction.key).reverse.lookup identity = none := by
    rw [List.lookup_eq_none_iff]
    intro p hp
    obtain ⟨e, he, rfl⟩ := List.mem_map.mp (List.mem_reverse.mp hp)
    have hmem : e.target ∈ (newReferences b.known refs).map Reference.target :=
      htargets ▸ List.mem_map_of_mem he
    obtain ⟨r, hr, heq⟩ := List.mem_map.mp hmem
    have hid : r.identity = e.identity := congrArg Prod.fst heq
    have hnew := not_mem_seen_of_mem_newReferences hr
    rw [bne_iff_ne]
    rintro rfl
    exact hnew (hid ▸ mem_known_of_lookup hname)
  rw [enqueueAll_eq, List.lookup_append, hadded]
  exact hname

theorem scheduleAll_binding (h : b.scheduleAll refs = .ok b') : b'.binding = b.binding := by
  obtain ⟨-, added, rfl, -⟩ := scheduleAll_eq_ok h
  rw [enqueueAll_eq]

theorem scheduleAll_inProgress (h : b.scheduleAll refs = .ok b') :
    b'.inProgress = b.inProgress := by
  obtain ⟨-, added, rfl, -⟩ := scheduleAll_eq_ok h
  rw [enqueueAll_eq]

end Binder

end ScriptCompiler
