import ScriptCompiler.Proofs.ContextCallables
import ScriptCompiler.Proofs.Strings

/-!
# Places of a lowering

Between the entry and the end of an action its lines may be indented more deeply and frames may be
added, but the action never gets outside the place where it was entered, whether it fails or not. An
action that succeeds is back at that place. `Keeps` says so for an action, with rules for the ways
in which actions are put together.
-/

namespace ScriptCompiler

variable {c : Change} {changes : List Change} {d : Diagnostic} {s : LoweringState}
  {inner : Lowering Unit}

namespace LoweringState

/-- A state at the place of an earlier one or further inside: not less deep, with all the frames
around that place. -/
structure Inside (u s : LoweringState) : Prop where
  depth : s.buffer.depth ≤ u.buffer.depth
  frames : s.scopes.outer <:+ u.scopes.outer

/-- A state back at the place of an earlier one. Names may have been bound in the innermost frame;
lines, all of them with a text, may have been added; and callables of the context may have joined
the queue. -/
structure Restores (t s : LoweringState) : Prop where
  depth : t.buffer.depth = s.buffer.depth
  outer : t.scopes.outer = s.scopes.outer
  className : t.className = s.className
  dictNesting : t.dictNesting = s.dictNesting
  lines : ∃ texts : List String, t.buffer.lines.toList = s.buffer.lines.toList ++ texts.map some
  binding : t.binder.binding = s.binder.binding
  pending : ∀ e ∈ t.binder.pending, e ∈ s.binder.pending ∨
    e.target ∈ contextCallables s.binder.binding

variable {s t u : LoweringState}

theorem Inside.refl (s : LoweringState) : s.Inside s := ⟨le_refl _, List.suffix_refl _⟩

theorem Inside.trans (h₂ : u.Inside t) (h₁ : t.Inside s) : u.Inside s :=
  ⟨h₁.depth.trans h₂.depth, h₁.frames.trans h₂.frames⟩

/-- A change of other parts of the state. -/
theorem Restores.of_eq (hdepth : t.buffer.depth = s.buffer.depth)
    (houter : t.scopes.outer = s.scopes.outer)
    (hclass : t.className = s.className) (hnesting : t.dictNesting = s.dictNesting)
    (hlines : ∃ texts : List String, t.buffer.lines.toList = s.buffer.lines.toList ++
    texts.map some)
    (hbinder : t.binder = s.binder) : t.Restores s :=
  ⟨hdepth, houter, hclass, hnesting, hlines, hbinder ▸ rfl, fun _ he => .inl (hbinder ▸ he)⟩

theorem Restores.refl (s : LoweringState) : s.Restores s :=
  .of_eq rfl rfl rfl rfl ⟨[], (List.append_nil _).symm⟩ rfl

theorem Restores.trans (h₂ : u.Restores t) (h₁ : t.Restores s) : u.Restores s := by
  obtain ⟨earlier, hearlier⟩ := h₁.lines
  obtain ⟨later, hlater⟩ := h₂.lines
  refine ⟨h₂.depth.trans h₁.depth, h₂.outer.trans h₁.outer, h₂.className.trans h₁.className,
    h₂.dictNesting.trans h₁.dictNesting, ⟨earlier ++ later, ?_⟩, h₂.binding.trans h₁.binding, ?_⟩
  · rw [hlater, hearlier, List.map_append, List.append_assoc]
  · intro e he
    rcases h₂.pending e he with he | he
    · exact h₁.pending e he
    · exact .inr (h₁.binding ▸ he)

theorem Restores.inside (h : t.Restores s) : t.Inside s :=
  ⟨h.depth.ge, h.outer ▸ List.suffix_refl _⟩

end LoweringState

namespace Change

/-- A change that does not leave the place of an earlier state: an indentation is left, or a frame,
only if it was entered since then. -/
def Permitted (s u : LoweringState) : Change → Prop
  | .dedent => s.buffer.depth < u.buffer.depth
  | .popFrame => s.scopes.outer.length < u.scopes.outer.length
  | _ => True

variable {s t u : LoweringState}

theorem Permitted.outward (h : c.Permitted t u) (hinside : t.Inside s) : c.Permitted s u := by
  have hdepth := hinside.depth
  have hframes := hinside.frames.length_le
  cases c with
  | dedent => exact lt_of_le_of_lt hdepth h
  | popFrame => exact lt_of_le_of_lt hframes h
  | _ => trivial

/-- Frames that are all there are still there without the innermost one, unless it is one of
them. -/
theorem suffix_pop {scopes : Scopes} {frames : List (List String)} (h : frames <:+ scopes.outer)
    (hlength : frames.length < scopes.outer.length) : frames <:+ scopes.pop.outer := by
  unfold Scopes.pop
  cases houter : scopes.outer with
  | nil =>
    rw [houter] at hlength
    simp at hlength
  | cons frame outer =>
    rw [houter] at h hlength
    rcases List.suffix_cons_iff.mp h with heq | hsuffix
    · simp [heq] at hlength
    · exact hsuffix

theorem inside_apply (hinside : u.Inside s) (h : c.Permitted s u) : (c.apply u).Inside s := by
  obtain ⟨hdepth, hframes⟩ := hinside
  cases c with
  | dedent => exact ⟨Nat.le_sub_one_of_lt h, hframes⟩
  | popFrame => exact ⟨hdepth, suffix_pop hframes h⟩
  | indent => exact ⟨Nat.le_succ_of_le hdepth, hframes⟩
  | pushFrame => exact ⟨hdepth, hframes.trans (List.suffix_cons _ _)⟩
  | register name =>
    refine ⟨hdepth, ?_⟩
    have houter : ((Change.register name).apply u).scopes.outer = u.scopes.outer :=
      u.scopes.outer_register name
    rw [houter]
    exact hframes
  | _ => exact ⟨hdepth, hframes⟩

/-- Changes one after the other, none of which leaves the place of an earlier state. -/
def AllPermitted (s : LoweringState) : List Change → LoweringState → Prop
  | [], _ => True
  | c :: rest, u => c.Permitted s u ∧ AllPermitted s rest (c.apply u)

theorem inside_applyAll (hinside : u.Inside s) (h : AllPermitted s changes u) :
    (applyAll changes u).Inside s := by
  induction changes generalizing u with
  | nil => exact hinside
  | cons c rest ih => exact ih (inside_apply hinside h.1) h.2

end Change

namespace Lowering

variable {α β : Type} {E : Diagnostic → Prop}

/-- A run that never gets outside the place of an earlier state, with a failure as described. -/
structure Stays (E : Diagnostic → Prop) (place : LoweringState) (m : Lowering α)
    (s : LoweringState) : Prop where
  trace : ∀ u c, (u, c) ∈ m.trace s → u.Inside place ∧ c.Permitted place u
  failure : ∀ d t, m.run s = .error d t → t.Inside place ∧ E d

namespace Stays

variable {place s : LoweringState}

theorem outward {m : Lowering α} {inner : LoweringState} (h : Stays E inner m s)
    (hinside : inner.Inside place) : Stays E place m s := by
  constructor
  · intro u c huc
    obtain ⟨hu, hc⟩ := h.trace u c huc
    exact ⟨hu.trans hinside, hc.outward hinside⟩
  · intro d t hrun
    obtain ⟨ht, hd⟩ := h.failure d t hrun
    exact ⟨ht.trans hinside, hd⟩

theorem pure (a : α) : Stays E place (pure a) s := by
  constructor
  · intro u c huc
    cases huc
  · intro d t hrun
    cases hrun

theorem fail (hinside : s.Inside place) (hd : E d) : Stays E place (fail d : Lowering α) s := by
  constructor
  · intro u c huc
    cases huc
  · intro d' t hrun
    cases hrun
    exact ⟨hinside, hd⟩

theorem perform (hinside : s.Inside place) (hc : c.Permitted place s) :
    Stays E place (perform c) s := by
  constructor
  · intro u c' huc
    obtain ⟨rfl, rfl⟩ : u = s ∧ c' = c := by simpa [Lowering.perform, Lowering.trace] using huc
    exact ⟨hinside, hc⟩
  · intro d t hrun
    cases hrun

theorem bind {m : Lowering α} {f : α → Lowering β} (hm : Stays E place m s)
    (hf : ∀ a t, m.run s = .ok a t → Stays E place (f a) t) : Stays E place (m >>= f) s := by
  constructor
  · intro u c huc
    rw [trace_bind, List.mem_append] at huc
    rcases huc with hfirst | hsecond
    · exact hm.trace u c hfirst
    · cases hrun : m.run s with
      | error d t => simp [hrun] at hsecond
      | ok a t =>
        rw [hrun] at hsecond
        exact (hf a t hrun).trace u c hsecond
  · intro d t hrun
    rw [run_bind] at hrun
    cases hfirst : m.run s with
    | error d' t' =>
      rw [hfirst] at hrun
      cases hrun
      exact hm.failure d t hfirst
    | ok a t' =>
      rw [hfirst] at hrun
      exact (hf a t' hfirst).failure d t hrun

theorem of_mem_trace_finishing {u : LoweringState} (hinside : s.Inside place)
    (h : Change.AllPermitted place changes s)
    (huc : (u, c) ∈ (finishing changes (done ())).trace s) :
    u.Inside place ∧ c.Permitted place u := by
  induction changes generalizing s with
  | nil => cases huc
  | cons c' rest ih =>
    have hcons : (Lowering.finishing (c' :: rest) (done ())).trace s =
        (s, c') :: (Lowering.finishing rest (done ())).trace (c'.apply s) := rfl
    rw [hcons, List.mem_cons] at huc
    rcases huc with ⟨rfl, rfl⟩ | huc
    · exact ⟨hinside, h.1⟩
    · exact ih (Change.inside_apply hinside h.1) h.2 huc

theorem ensuring {m : Lowering α} (hm : Stays E place m s)
    (hfinal : (m.final s).Inside place)
    (hpermitted : Change.AllPermitted place changes (m.final s)) :
    Stays E place (ensuring changes m) s := by
  constructor
  · intro u c huc
    rw [trace_ensuring, List.mem_append] at huc
    rcases huc with hbefore | hafter
    · exact hm.trace u c hbefore
    · exact of_mem_trace_finishing hfinal hpermitted hafter
  · intro d t hrun
    rw [run_ensuring] at hrun
    cases hinner : m.run s with
    | ok a t' =>
      rw [hinner] at hrun
      cases hrun
    | error d' t' =>
      rw [hinner] at hrun
      cases hrun
      have hend : m.final s = t' := by simp [final, hinner]
      rw [hend] at hfinal hpermitted
      exact ⟨Change.inside_applyAll hfinal hpermitted, (hm.failure d t' hinner).2⟩

end Stays

/-- What an action keeps to from a state: it stays at that place or further inside, and is back if
it succeeds. -/
structure KeepsAt (E : Diagnostic → Prop) (m : Lowering α) (s : LoweringState) : Prop where
  stays : Stays E s m s
  restores : ∀ a t, m.run s = .ok a t → t.Restores s

/-- An action that keeps to the place where it is entered, wherever that is. -/
def Keeps (E : Diagnostic → Prop) (m : Lowering α) : Prop := ∀ s, KeepsAt E m s

/-- Only the run and the trace from the state matter. -/
theorem KeepsAt.congr {m m' : Lowering α} (h : KeepsAt E m' s) (htrace : m.trace s = m'.trace s)
    (hrun : m.run s = m'.run s) : KeepsAt E m s := by
  refine ⟨⟨fun u c huc => ?_, fun d t ht => ?_⟩, fun a t ht => ?_⟩
  · exact h.stays.trace u c (htrace ▸ huc)
  · exact h.stays.failure d t (hrun ▸ ht)
  · exact h.restores a t (hrun ▸ ht)

theorem KeepsAt.inside_final {m : Lowering α} (h : KeepsAt E m s) : (m.final s).Inside s := by
  unfold final
  cases hrun : m.run s with
  | ok a t => exact (h.restores a t hrun).inside
  | error d t => exact (h.stays.failure d t hrun).1

/-- An action between a change and the changes that undo it, made whether the action fails or
not. -/
theorem KeepsAt.ensuring {m : Lowering α} (hm : KeepsAt E m (c.apply s)) (henter : c.Permitted s s)
    (hleave : ∀ u, u.Inside (c.apply s) → Change.AllPermitted s changes u)
    (hrestores : ∀ t, t.Restores (c.apply s) → (Change.applyAll changes t).Restores s) :
    KeepsAt E (perform c >>= fun _ => ensuring changes m) s := by
  have hentered : (c.apply s).Inside s := Change.inside_apply (.refl s) henter
  constructor
  · refine (Stays.perform (.refl s) henter).bind fun _ t ht => ?_
    cases ht
    exact (hm.stays.outward hentered).ensuring (hm.inside_final.trans hentered)
      (hleave _ hm.inside_final)
  · intro a t hrun
    rw [run_perform_bind, run_ensuring] at hrun
    cases hinner : m.run (c.apply s) with
    | error d t' =>
      rw [hinner] at hrun
      cases hrun
    | ok a' t' =>
      rw [hinner] at hrun
      cases hrun
      exact hrestores t' (hm.restores a t' hinner)

/-- An action between a change and the one that undoes it, made unless the action fails. -/
theorem KeepsAt.bracket {c' : Change} {m : Lowering Unit} (hm : KeepsAt E m (c.apply s))
    (henter : c.Permitted s s) (hleave : ∀ t, t.Restores (c.apply s) → c'.Permitted s t)
    (hrestores : ∀ t, t.Restores (c.apply s) → (c'.apply t).Restores s) :
    KeepsAt E (perform c >>= fun _ => m >>= fun _ => perform c') s := by
  have hentered : (c.apply s).Inside s := Change.inside_apply (.refl s) henter
  constructor
  · refine (Stays.perform (.refl s) henter).bind fun _ t ht => ?_
    cases ht
    refine (hm.stays.outward hentered).bind fun a t ht => ?_
    have hback := hm.restores a t ht
    exact Stays.perform (hback.inside.trans hentered) (hleave t hback)
  · intro a t hrun
    rw [run_perform_bind] at hrun
    obtain ⟨a', t', hinner, hlast⟩ := exists_of_bind_eq_ok hrun
    cases hlast
    exact hrestores t' (hm.restores a' t' hinner)

namespace KeepsAt

variable {s : LoweringState}

theorem pure (a : α) : KeepsAt E (pure a) s := by
  refine ⟨.pure a, fun b t hrun => ?_⟩
  cases hrun
  exact .refl s

theorem fail (hd : E d) : KeepsAt E (fail d : Lowering α) s := by
  refine ⟨.fail (.refl s) hd, fun b t hrun => ?_⟩
  cases hrun

theorem bind {m : Lowering α} {f : α → Lowering β} (hm : KeepsAt E m s)
    (hf : ∀ a t, m.run s = .ok a t → KeepsAt E (f a) t) : KeepsAt E (m >>= f) s := by
  constructor
  · refine hm.stays.bind fun a t ht => ?_
    exact (hf a t ht).stays.outward (hm.restores a t ht).inside
  · intro b u hrun
    obtain ⟨a, t, hfirst, hsecond⟩ := exists_of_bind_eq_ok hrun
    exact ((hf a t hfirst).restores b u hsecond).trans (hm.restores a t hfirst)

theorem reading {f : LoweringState → Lowering α} (hf : KeepsAt E (f s) s) :
    KeepsAt E (get >>= f) s :=
  hf.congr rfl rfl

theorem perform (hpermitted : c.Permitted s s) (hrestores : (c.apply s).Restores s) :
    KeepsAt E (perform c) s := by
  refine ⟨.perform (.refl s) hpermitted, fun a t hrun => ?_⟩
  cases hrun
  exact hrestores

end KeepsAt

namespace Keeps

theorem pure (a : α) : Keeps E (pure a) := fun _ => .pure a

theorem fail (hd : E d) : Keeps E (fail d : Lowering α) := fun _ => .fail hd

theorem bind {m : Lowering α} {f : α → Lowering β} (hm : Keeps E m) (hf : ∀ a, Keeps E (f a)) :
    Keeps E (m >>= f) :=
  fun s => (hm s).bind fun a t _ => hf a t

theorem reading {f : LoweringState → Lowering α} (hf : ∀ s, Keeps E (f s)) : Keeps E (get >>= f) :=
  fun s => .reading (hf s s)

theorem perform (hpermitted : ∀ s, c.Permitted s s) (hrestores : ∀ s, (c.apply s).Restores s) :
    Keeps E (perform c) :=
  fun s => .perform (hpermitted s) (hrestores s)

end Keeps

/-! ## Primitive actions -/

theorem keeps_write (line : String) : Keeps E (write line) := by
  refine Keeps.perform (fun _ => trivial) fun s =>
    .of_eq rfl rfl rfl rfl ⟨[s.buffer.indentation ++ line], ?_⟩ rfl
  simp [Change.apply, Buffer.write]

variable (name : String)

theorem keeps_register : Keeps E (register name) := by
  refine Keeps.perform (fun _ => trivial) fun s => .of_eq rfl (s.scopes.outer_register name) rfl rfl
    ⟨[], ?_⟩ rfl
  simp [Change.apply]

theorem keeps_temporary (stem : String) : Keeps E (temporary stem) := by
  refine Keeps.reading fun s => Keeps.bind (Keeps.perform (fun _ => trivial) fun s => ?_) fun _ =>
    .pure _
  exact .of_eq rfl rfl rfl rfl ⟨[], (List.append_nil _).symm⟩ rfl

theorem keeps_isFree : Keeps E (isFree name) := Keeps.reading fun _ => .pure _

theorem keeps_indented (h : Keeps E inner) : Keeps E (indented inner) := by
  intro s
  refine (h _).bracket trivial (fun t ht => ?_) fun t ht => ?_
  · show s.buffer.depth < t.buffer.depth
    rw [show t.buffer.depth = s.buffer.depth + 1 from ht.depth]
    exact Nat.lt_succ_self _
  · have hdepth : t.buffer.depth = s.buffer.depth + 1 := ht.depth
    have hback : ((Change.dedent).apply t).buffer.depth = s.buffer.depth := by
      simp [Change.apply, Buffer.dedent, hdepth]
    exact ⟨hback, ht.outer, ht.className, ht.dictNesting, ht.lines, ht.binding, ht.pending⟩

/-- The closer is written at the depth of the header. -/
theorem keeps_enclosed {closer : String} (h : Keeps E inner) : Keeps E (enclosed closer inner) := by
  intro s
  refine (h _).ensuring trivial (fun u hu => ⟨?_, trivial, trivial⟩) fun t ht => ?_
  · have hdepth : s.buffer.depth + 1 ≤ u.buffer.depth := hu.depth
    exact hdepth
  · have hdepth : t.buffer.depth = s.buffer.depth + 1 := ht.depth
    obtain ⟨texts, hlines⟩ := ht.lines
    refine ⟨?_, ht.outer, ht.className, ht.dictNesting,
      ⟨texts ++ [t.buffer.dedent.indentation ++ closer], ?_⟩,
      ht.binding, ht.pending⟩
    · simp [Change.applyAll, Change.apply, Buffer.write, Buffer.dedent, hdepth]
    · have hentered : (Change.indent.apply s).buffer.lines = s.buffer.lines := rfl
      rw [hentered] at hlines
      simp [Change.applyAll, Change.apply, Buffer.write, ← hlines, ← List.append_assoc]
      simp [Buffer.dedent]

theorem keeps_inFrame {inner : Lowering α} (h : Keeps E inner) : Keeps E (inFrame inner) := by
  intro s
  refine (h _).ensuring trivial (fun u hu => ⟨?_, trivial⟩) fun t ht => ?_
  · have hlength := hu.frames.length_le
    exact hlength
  · have hpop : t.scopes.pop = s.scopes := Scopes.pop_of_outer_eq ht.outer
    exact ⟨ht.depth, congrArg Scopes.outer hpop, ht.className, ht.dictNesting, ht.lines, ht.binding,
      ht.pending⟩

theorem keeps_nested {inner : Lowering α} (h : Keeps E inner) : Keeps E (nested inner) := by
  intro s
  refine (h _).ensuring trivial (fun u hu => ⟨trivial, trivial⟩) fun t ht => ?_
  have hnesting : t.dictNesting = s.dictNesting + 1 := ht.dictNesting
  have hback : (Change.applyAll [.leaveDict] t).dictNesting = s.dictNesting := by
    simp [Change.applyAll, Change.apply, hnesting]
  exact ⟨ht.depth, ht.outer, ht.className, hback, ht.lines, ht.binding, ht.pending⟩

theorem keeps_inClass {className : Option String} (h : Keeps E inner) :
    Keeps E (inClass className inner) := by
  intro s
  refine .reading ((h _).ensuring trivial (fun u hu => ⟨trivial, trivial⟩) fun t ht => ?_)
  exact ⟨ht.depth, ht.outer, rfl, ht.dictNesting, ht.lines, ht.binding, ht.pending⟩

/-- The line that is reserved has a text when the action is done. -/
theorem keeps_reserving {line : String} (h : Keeps E inner) : Keeps E (reserving line inner) := by
  intro s
  have hat : KeepsAt E (perform .reserve >>= fun _ => inner >>= fun _ =>
    patch s.buffer.reserve.1 line) s := by
    refine (h _).bracket trivial (fun t ht => trivial) fun t ht => ?_
    obtain ⟨texts, hlines⟩ := ht.lines
    refine ⟨ht.depth, ht.outer, ht.className, ht.dictNesting,
      ⟨(t.buffer.indentationAt s.buffer.depth ++ line) :: texts, ?_⟩, ht.binding, ht.pending⟩
    have hreserved : t.buffer.lines.toList = s.buffer.lines.toList ++ none :: texts.map some := by
      rw [hlines]
      simp [Change.apply, Buffer.reserve]
    simp [Change.apply, Buffer.patch, Buffer.reserve, hreserved]
  exact hat.congr rfl rfl

end Lowering

end ScriptCompiler
