import ScriptCompiler.Proofs.RestoredState
import ScriptCompiler.Proofs.SourceEffect

/-!
# Sources without defects

A source that is lowered by itself leaves its buffer finished, so the only defect that can be
reported is one of its string tokens. The callables that it leaves in the queue are of the context.
-/

namespace ScriptCompiler

theorem Buffer.exists_finish_eq_ok {b : Buffer} (hdepth : b.depth = 0) {texts : List String}
    (hlines : b.lines.toList = texts.map some) : ∃ text, b.finish = .ok text := by
  have hnone : b.lines.toList.findIdx? (·.isNone) = none := by
    rw [hlines]
    simp
  unfold finish
  rw [if_neg (not_not.mpr hdepth), hnone]
  exact ⟨_, rfl⟩

namespace Session

variable {width : Nat} {b b' : Binder} {source text : String} {entry : EntryPoint} {d : Diagnostic}

theorem pending_of_lower (h : lower width b source entry = .ok (text, b')) :
    ∀ e ∈ b'.pending, e ∈ b.pending ∨ e.target ∈ contextCallables b.binding := by
  obtain ⟨program, state, -, hrun, -, rfl⟩ := exists_run_of_lower h
  have hsound := Lowering.sound_program entry (List.Subset.refl (blockStrings program))
  exact ((hsound (.start b width)).restores () state hrun).pending

theorem reports_of_lower {program : List Stmt} (hparse : parse source = .ok program)
    (h : lower width b source entry = .error d) : d.Reports (blockStrings program) := by
  have hsound :=
    Lowering.sound_program entry (List.Subset.refl (blockStrings program)) (.start b width)
  rw [lower_of_parse hparse] at h
  cases hrun : (Lowering.program program entry).run (.start b width) with
  | error d' state =>
    rw [hrun] at h
    cases h
    exact (hsound.stays.failure d state hrun).2
  | ok u state =>
    -- The buffer is back at depth zero with all its lines, so it is finished.
    obtain ⟨hdepth, -, -, -, ⟨texts, hlines⟩, -⟩ := hsound.restores u state hrun
    have hlines' : state.buffer.lines.toList = texts.map some := hlines
    obtain ⟨text, hfinish⟩ := Buffer.exists_finish_eq_ok hdepth hlines'
    rw [hrun] at h
    dsimp only at h
    rw [hfinish] at h
    cases h

end Session

end ScriptCompiler
