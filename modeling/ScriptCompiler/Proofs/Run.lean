import ScriptCompiler.Lowering.State

/-!
# Runs of a lowering

How the run and the trace of an action come from those of its parts.
-/

namespace ScriptCompiler.Lowering

variable {α β γ : Type}

protected theorem bind_assoc (m : Lowering α) (f : α → Lowering β) (g : β → Lowering γ) :
    (m.bind f).bind g = m.bind fun a => (f a).bind g := by
  induction m with
  | done a => rfl
  | fail d => rfl
  | look next ih =>
    simp only [Lowering.bind]
    congr 1
    funext s
    exact ih s
  | change c next ih =>
    simp only [Lowering.bind]
    congr 1

protected theorem bind_done_id (m : Lowering α) : m.bind done = m := by
  induction m with
  | done a => rfl
  | fail d => rfl
  | look next ih =>
    simp only [Lowering.bind]
    congr 1
    funext s
    exact ih s
  | change c next ih =>
    simp only [Lowering.bind]
    congr 1

instance : LawfulMonad Lowering :=
  LawfulMonad.mk' Lowering (fun m => m.bind_done_id) (fun _ _ => rfl)
    (fun m f g => m.bind_assoc f g)

/-! ## Results -/

theorem run_bind (m : Lowering α) (f : α → Lowering β) (s : LoweringState) :
    (m >>= f).run s =
      match m.run s with
      | .ok a t => (f a).run t
      | .error d t => .error d t := by
  induction m generalizing s with
  | done a => rfl
  | fail d => rfl
  | look next ih => exact ih s s
  | change c next ih => exact ih (c.apply s)

theorem run_get_bind (f : LoweringState → Lowering α) (s : LoweringState) :
    (get >>= f).run s = (f s).run s := rfl

variable (c : Change) (changes : List Change)

theorem run_perform_bind (f : Unit → Lowering α) (s : LoweringState) :
    (perform c >>= f).run s = (f ()).run (c.apply s) := rfl

theorem run_finishing (m : Lowering α) (s : LoweringState) :
    (finishing changes m).run s = m.run (Change.applyAll changes s) := by
  induction changes generalizing s with
  | nil => rfl
  | cons c rest ih => exact ih (c.apply s)

theorem run_ensuring (m : Lowering α) (s : LoweringState) :
    (ensuring changes m).run s =
      match m.run s with
      | .ok a t => .ok a (Change.applyAll changes t)
      | .error d t => .error d (Change.applyAll changes t) := by
  induction m generalizing s with
  | done a => exact run_finishing changes (done a) s
  | fail d => exact run_finishing changes (fail d) s
  | look next ih => exact ih s s
  | change c next ih => exact ih (c.apply s)

theorem run_bind_of_ok {m : Lowering α} {f : α → Lowering β} {s t : LoweringState} {a : α}
    (h : m.run s = .ok a t) : (m >>= f).run s = (f a).run t := by
  rw [run_bind, h]

theorem exists_of_bind_eq_ok {m : Lowering α} {f : α → Lowering β} {s u : LoweringState} {b : β}
    (h : (m >>= f).run s = .ok b u) : ∃ a t, m.run s = .ok a t ∧ (f a).run t = .ok b u := by
  rw [run_bind] at h
  cases hm : m.run s with
  | error d t =>
    rw [hm] at h
    cases h
  | ok a t =>
    rw [hm] at h
    exact ⟨a, t, rfl, h⟩

/-! ## Traces -/

theorem trace_bind (m : Lowering α) (f : α → Lowering β) (s : LoweringState) :
    (m >>= f).trace s = m.trace s ++
      match m.run s with
      | .ok a t => (f a).trace t
      | .error _ _ => [] := by
  induction m generalizing s with
  | done a => rfl
  | fail d => rfl
  | look next ih => exact ih s s
  | change c next ih => exact congrArg ((s, c) :: ·) (ih (c.apply s))

def final (m : Lowering α) (s : LoweringState) : LoweringState :=
  match m.run s with
  | .ok _ t | .error _ t => t

theorem trace_finishing (m : Lowering α) (s : LoweringState) :
    (finishing changes m).trace s =
      (finishing changes (done ())).trace s ++ m.trace (Change.applyAll changes s) := by
  induction changes generalizing s with
  | nil => rfl
  | cons c rest ih => exact congrArg ((s, c) :: ·) (ih (c.apply s))

theorem trace_ensuring (m : Lowering α) (s : LoweringState) :
    (ensuring changes m).trace s = m.trace s ++ (finishing changes (done ())).trace
    (m.final s) := by
  induction m generalizing s with
  | done a => exact (trace_finishing changes (done a) s).trans (List.append_nil _)
  | fail d => exact (trace_finishing changes (fail d) s).trans (List.append_nil _)
  | look next ih => exact ih s s
  | change c next ih => exact congrArg ((s, c) :: ·) (ih (c.apply s))

/-! ## Lines are never taken back -/

theorem size_apply (s : LoweringState) : s.buffer.lines.size ≤ (c.apply s).buffer.lines.size := by
  cases c <;> simp [Change.apply, Buffer.write, Buffer.indent, Buffer.dedent, Buffer.reserve,
    Buffer.patch]

theorem size_final (m : Lowering α) (s : LoweringState) :
    s.buffer.lines.size ≤ (m.final s).buffer.lines.size := by
  induction m generalizing s with
  | done a | fail d => exact Nat.le_refl _
  | look next ih => exact ih s s
  | change c next ih => exact Nat.le_trans (size_apply c s) (ih (c.apply s))

/-- A line that is added on the way stands between the lines from before and those at the end. -/
theorem size_of_mem_trace {m : Lowering α} {s u : LoweringState} {c : Change}
    (h : (u, c) ∈ m.trace s) :
    s.buffer.lines.size ≤ u.buffer.lines.size ∧ (c.apply u).buffer.lines.size ≤
    (m.final s).buffer.lines.size := by
  induction m generalizing s with
  | done a => simp [trace] at h
  | fail d => simp [trace] at h
  | look next ih => exact ih s h
  | change c' next ih =>
    rw [trace, List.mem_cons] at h
    rcases h with ⟨rfl, rfl⟩ | h
    · exact ⟨Nat.le_refl _, size_final next (c.apply u)⟩
    · obtain ⟨hbefore, hafter⟩ := ih h
      exact ⟨Nat.le_trans (size_apply c' s) hbefore, hafter⟩

end ScriptCompiler.Lowering
