import ScriptCompiler.Proofs.Composition
import ScriptCompiler.Proofs.Restoration

/-!
# The state after an expression or a statement

Every expression and every statement keeps to the place where it is lowered.
-/

namespace ScriptCompiler

theorem Binder.onlyFaults_render (b : Binder) (value : ContextValue) (access : String)
    (owner : Option String) :
    OnlyFaults (·.kind = .cyclicContext) (b.render value access owner) := by
  by_cases hcallable : ∃ identity callable, value = .callable identity callable
  · obtain ⟨identity, callable, rfl⟩ := hcallable
    simp only [render]
    cases hschedule : b.schedule identity callable access owner with
    | error f =>
      obtain ⟨-, rfl⟩ := schedule_eq_error hschedule
      exact OnlyFaults.error rfl
    | ok out => exact OnlyFaults.ok _
  · rw [b.render_of_ne_callable access owner fun identity callable heq =>
      hcallable ⟨identity, callable, heq⟩]
    exact .ok _

namespace Lowering

variable {α : Type} {tokens : List String}

/-- An action that keeps to its place and whose failure is no defect, except for one of the given
string tokens. -/
abbrev Sound (tokens : List String) (m : Lowering α) : Prop := Keeps (Diagnostic.Reports tokens) m

variable {s : LoweringState} (e : Expr) {E : Diagnostic → Prop}

theorem keepsAt_render (pos : Position) {hit : ContextHit}
    (hcallables : hit.value.callables ⊆ contextCallables s.binder.binding) :
    KeepsAt (Diagnostic.Reports tokens) (render pos hit.value hit.access hit.owner) s := by
  refine .reading ?_
  cases hrender : s.binder.render hit.value hit.access hit.owner with
  | error f =>
    refine .bind (.fail (Diagnostic.reports_of_kind_ne ?_)) fun out t hout => by cases hout
    rw [Fault.kind_reportAt, s.binder.onlyFaults_render hit.value hit.access hit.owner f hrender]
    simp
  | ok out =>
    obtain ⟨resolution, binder⟩ := out
    obtain ⟨hbinding, hpending⟩ := Binder.render_eq_ok hrender
    refine .bind (.pure _) fun out t hout => ?_
    cases hout
    refine .bind (.perform trivial ?_) fun _ t _ => ?_
    · refine ⟨rfl, rfl, rfl, rfl, ⟨[], (List.append_nil _).symm⟩, hbinding, fun e he => ?_⟩
      rcases hpending e he with he | he
      · exact .inl he
      · exact .inr (hcallables he)
    · cases resolution <;> exact .pure _

theorem sound_contextText? : Sound tokens (contextText? e) := by
  intro s
  refine .reading ?_
  cases hhit : e.contextHit? s.scopes s.binder with
  | error d =>
    refine .fail (Diagnostic.reports_of_kind_ne ?_)
    rw [Expr.kind_of_contextHit?_eq_error hhit]
    simp
  | ok found =>
    cases found with
    | none => exact .pure _
    | some hit => exact keepsAt_render e.start (Expr.callables_contextHit? hhit)

/-- Every action that lowerings are put together from keeps to its place, and so do those that are
put together. -/
theorem assembles_sound (tokens : List String) :
    Assembles (fun m => Sound tokens m) (fun _ => True) tokens where
  pure := .pure
  fail := .fail
  bind := .bind
  reading _ := .reading
  isFree _ := keeps_isFree _
  contextText? _ := sound_contextText? _
  write := keeps_write
  register := keeps_register
  temporary := keeps_temporary
  indented := keeps_indented
  enclosed := keeps_enclosed
  reserving := keeps_reserving
  inFrame := keeps_inFrame
  nested := keeps_nested
  inClass := keeps_inClass

theorem leaves_strings {names strings : List String} (h : strings ⊆ tokens) :
    Leaves (fun _ => True) tokens names strings :=
  ⟨fun _ _ => trivial, h⟩

theorem sound_fragment (h : e.strings ⊆ tokens) : Sound tokens (fragment e) :=
  related_fragment (n := 0) (k := 0) (assembles_sound tokens).relates e (leaves_strings h)

theorem sound_text {e : Expr} (h : e.strings ⊆ tokens) : Sound tokens (text e) :=
  (sound_fragment e h).bind fun _ => .pure _

theorem sound_statement (s : Stmt) (h : s.strings ⊆ tokens) : Sound tokens (statement s) :=
  related_statement (n := 0) (k := 0) (assembles_sound tokens).relates s (leaves_strings h)

theorem sound_program {statements : List Stmt} (entry : EntryPoint)
    (h : blockStrings statements ⊆ tokens) : Sound tokens (program statements entry) :=
  related_program (n := 0) (k := 0) (assembles_sound tokens).relates entry (leaves_strings h)

/-! ## The state as a whole -/

theorem Keeps.exists_line_of_reserve {m : Lowering α} (h : Keeps E m) {t u : LoweringState}
    {a : α} (hrun : m.run s = .ok a t) (hreserve : (u, .reserve) ∈ m.trace s) :
    ∃ line, t.buffer.lines[u.buffer.reserve.1.index]? = some (some line) := by
  obtain ⟨hfrom, hto⟩ := size_of_mem_trace hreserve
  obtain ⟨texts, hlines⟩ := ((h s).restores a t hrun).lines
  have hfinal : m.final s = t := by simp [final, hrun]
  have hsize : u.buffer.lines.size + 1 ≤ t.buffer.lines.size := by
    simpa [hfinal, Change.apply, Buffer.reserve] using hto
  have hcount : t.buffer.lines.size = s.buffer.lines.size + texts.length := by
    simpa using congrArg List.length hlines
  have hindex : u.buffer.lines.size - s.buffer.lines.size < texts.length := by omega
  -- The mark points behind the lines from before, and all lines behind those have texts.
  have hget : t.buffer.lines[u.buffer.lines.size]? =
      t.buffer.lines.toList[u.buffer.lines.size]? := by simp
  rw [show u.buffer.reserve.1.index = u.buffer.lines.size from rfl, hget, hlines,
    List.getElem?_append_right (by simpa using hfrom)]
  simp [hindex]

/-- What an action does to the state that it is entered in, and on its way. -/
structure KeepsState (m : Lowering α) (s : LoweringState) : Prop where
  depth : ∀ {a t}, m.run s = .ok a t → t.buffer.depth = s.buffer.depth
  frameCount : ∀ {a t}, m.run s = .ok a t → t.scopes.depth = s.scopes.depth
  /-- The frames below the innermost one bind what they bound. -/
  outerFrames : ∀ {a t}, m.run s = .ok a t → t.scopes.outer = s.scopes.outer
  className : ∀ {a t}, m.run s = .ok a t → t.className = s.className
  dictNesting : ∀ {a t}, m.run s = .ok a t → t.dictNesting = s.dictNesting
  /-- Every line that was reserved has got its text. -/
  patched : ∀ {a t u}, m.run s = .ok a t → (u, .reserve) ∈ m.trace s →
    ∃ line, t.buffer.lines[u.buffer.reserve.1.index]? = some (some line)
  /-- No state on the way is less deep, whether the run succeeds or fails. -/
  neverShallower : ∀ {u c}, (u, c) ∈ m.trace s →
    s.buffer.depth ≤ u.buffer.depth ∧ s.buffer.depth ≤ (c.apply u).buffer.depth
  /-- No state on the way lacks one of the frames, whether the run succeeds or fails. -/
  framesStay : ∀ {u c}, (u, c) ∈ m.trace s →
    s.scopes.outer <:+ u.scopes.outer ∧ s.scopes.outer <:+ (c.apply u).scopes.outer
  /-- An indentation is left only if it was entered on the way. -/
  dedents : ∀ {u}, (u, .dedent) ∈ m.trace s → s.buffer.depth < u.buffer.depth
  /-- A frame is left only if it was entered on the way. -/
  pops : ∀ {u}, (u, .popFrame) ∈ m.trace s → s.scopes.depth < u.scopes.depth

theorem Keeps.keepsState {m : Lowering α} (h : Keeps E m) (s : LoweringState) :
    KeepsState m s where
  depth hrun := ((h s).restores _ _ hrun).depth
  frameCount hrun := by
    unfold Scopes.depth
    rw [((h s).restores _ _ hrun).outer]
  outerFrames hrun := ((h s).restores _ _ hrun).outer
  className hrun := ((h s).restores _ _ hrun).className
  dictNesting hrun := ((h s).restores _ _ hrun).dictNesting
  patched hrun hreserve := h.exists_line_of_reserve hrun hreserve
  neverShallower huc := by
    obtain ⟨hinside, hpermitted⟩ := (h s).stays.trace _ _ huc
    exact ⟨hinside.depth, (Change.inside_apply hinside hpermitted).depth⟩
  framesStay huc := by
    obtain ⟨hinside, hpermitted⟩ := (h s).stays.trace _ _ huc
    exact ⟨hinside.frames, (Change.inside_apply hinside hpermitted).frames⟩
  dedents huc := ((h s).stays.trace _ _ huc).2
  pops huc := Nat.succ_lt_succ ((h s).stays.trace _ _ huc).2

/-- Every statement and every expression leaves the state of the lowering as it was, but for the
names of the innermost frame and for lines that are added, and never gets outside the place where it
is lowered. -/
theorem statement_and_expression_keep_state (s : LoweringState) :
    (∀ n : Stmt, KeepsState (statement n) s) ∧
      ∀ e : Expr, KeepsState (fragment e) s ∧ KeepsState (text e) s := by
  refine ⟨fun n => ?_, fun e => ⟨?_, ?_⟩⟩
  · exact (sound_statement n (List.Subset.refl _)).keepsState s
  · exact (sound_fragment e (List.Subset.refl _)).keepsState s
  · exact (sound_text (List.Subset.refl e.strings)).keepsState s

end Lowering

end ScriptCompiler
