import ScriptCompiler.Emit.Buffer
import Mathlib.Tactic.SplitIfs
import ScriptCompiler.Proofs.Elementary

/-!
# Backpatching

A line can be reserved and get its text later, at any depth and more than once. Whatever the order
of the calls on a buffer, the outcome is that of writing each reserved line in its place, with the
text that it got last.
-/

namespace ScriptCompiler

/-- A call on a buffer. Reserved lines are known by their numbers, from zero on. -/
inductive BufferCall where
  | write (line : String)
  | indent
  | dedent
  | reserve
  | patch (number : Nat) (line : String)
deriving DecidableEq, Repr

/-- Calls on a buffer with the marks of the lines that are reserved so far. No other line can be
patched. -/
def Buffer.run (b : Buffer) (marks : List LineMark) : List BufferCall → Buffer
  | [] => b
  | .write line :: rest => (b.write line).run marks rest
  | .indent :: rest => b.indent.run marks rest
  | .dedent :: rest => b.dedent.run marks rest
  | .reserve :: rest => b.reserve.2.run (marks ++ [b.reserve.1]) rest
  | .patch number line :: rest => ((marks[number]?.map (b.patch · line)).getD b).run marks rest

/-- What a call does to the depth. -/
def BufferCall.shift (depth : Nat) : BufferCall → Nat
  | .indent => depth + 1
  | .dedent => depth - 1
  | _ => depth

/-- What a call does to the texts that the reserved lines have got. -/
def BufferCall.fill (texts : List (Option String)) : BufferCall → List (Option String)
  | .reserve => texts ++ [none]
  | .patch number line => texts.set number (some line)
  | _ => texts

/-- The text that each reserved line gets last. -/
def lastTexts (calls : List BufferCall) : List (Option String) := calls.foldl BufferCall.fill []

/-- The calls without patches. The reserved lines, counted from a number on, are written in their
places. -/
def inPlace (texts : List (Option String)) : Nat → List BufferCall → List BufferCall
  | _, [] => []
  | number, .reserve :: rest =>
    ((texts[number]?.getD none).map BufferCall.write).getD .reserve ::
      inPlace texts (number + 1) rest
  | number, .patch _ _ :: rest => inPlace texts number rest
  | number, call :: rest => call :: inPlace texts number rest

/-- A line of a buffer: a text, or the number of a reserved line and its depth. -/
inductive Slot where
  | line (text : String)
  | reserved (number depth : Nat)

variable {width depth n : Nat} {texts final : List (Option String)} {slots : List Slot}
  {marks : List LineMark}
  {mark : LineMark} {calls : List BufferCall} {line : String}

def Slot.text? (width : Nat) (texts : List (Option String)) : Slot → Option String
  | .line text => some text
  | .reserved number depth => (texts[number]?.getD none).map (Buffer.spaces (depth * width) ++ ·)

/-- The buffer with the given lines, when the reserved ones have the given texts. -/
def Buffer.ofSlots (width depth : Nat) (texts : List (Option String)) (slots : List Slot) :
    Buffer where
  lines := (slots.map (Slot.text? width texts)).toArray
  depth := depth
  width := width

/-- The marks of the reserved lines, one for each text. -/
structure MarksOf (texts : List (Option String)) (slots : List Slot) (marks : List LineMark) :
    Prop where
  length : marks.length = texts.length
  slot : ∀ n (mark : LineMark), marks[n]? = some mark ↔
    slots[mark.index]? = some (Slot.reserved n mark.depth)

namespace Buffer

theorem write_ofSlots : (ofSlots width depth texts slots).write line =
    ofSlots width depth texts (slots ++ [.line (spaces (depth * width) ++ line)]) := by
  simp [ofSlots, write, Slot.text?, indentation, indentationAt]

theorem reserve_ofSlots : (ofSlots width depth texts slots).reserve =
    (⟨slots.length, depth⟩, ofSlots width depth (texts ++ [none])
    (slots ++ [.reserved texts.length depth])) := by
  have hnone : Slot.text? width (texts ++ [none]) = Slot.text? width texts := by
    funext slot
    cases slot <;> grind [Slot.text?]
  simp [ofSlots, reserve, hnone, Slot.text?]

/-- In its place a reserved line is written with its last text, or it stays reserved for lack of
one. -/
theorem exists_run_inPlace_reserve (width depth n : Nat) (final : List (Option String))
    (slots : List Slot)
    (others : List LineMark) (rest : List BufferCall) : ∃ others',
      (ofSlots width depth final slots).run others (inPlace final n (.reserve :: rest)) =
        (ofSlots width depth final (slots ++ [.reserved n depth])).run others'
        (inPlace final (n + 1) rest) := by
  rw [inPlace]
  cases htext : final[n]?.getD none with
  | none =>
    refine ⟨others ++ [⟨slots.length, depth⟩], ?_⟩
    simp [run, reserve, ofSlots, Slot.text?, htext]
  | some text =>
    refine ⟨others, ?_⟩
    simp [run, write, ofSlots, Slot.text?, htext, indentation, indentationAt]

/-- A patch changes one line, since a mark stands for one line and a line has one mark. -/
theorem patch_ofSlots (h : MarksOf texts slots marks) (hmark : marks[n]? = some mark) :
    (ofSlots width depth texts slots).patch mark line =
    ofSlots width depth (texts.set n (some line)) slots := by
  have hslot := (h.slot n mark).mp hmark
  have hn : n < texts.length := h.length ▸ (List.getElem?_eq_some_iff.mp hmark).1
  simp only [ofSlots, patch, mk.injEq, and_true, indentationAt, List.setIfInBounds_toArray]
  refine congrArg List.toArray (List.ext_getElem? fun i => ?_)
  by_cases hi : mark.index = i
  · subst hi
    rw [List.getElem?_set_self (by simpa using (List.getElem?_eq_some_iff.mp hslot).1),
      List.getElem?_map, hslot]
    simp [Slot.text?, hn]
  · rw [List.getElem?_set_ne hi, List.getElem?_map, List.getElem?_map]
    cases hother : slots[i]? with
    | none => rfl
    | some slot =>
      cases slot with
      | line text => rfl
      | reserved n' d =>
        have hne : n ≠ n' := by
          rintro rfl
          have hsame := (h.slot n ⟨i, d⟩).mpr hother
          rw [hmark, Option.some.injEq] at hsame
          exact hi (congrArg LineMark.index hsame)
        simp [Slot.text?, List.getElem?_set_ne hne]

end Buffer

theorem MarksOf.concat_line (h : MarksOf texts slots marks) (text : String) :
    MarksOf texts (slots ++ [.line text]) marks :=
  ⟨h.length, fun n mark => by simp [getElem?_concat_eq_some_iff, h.slot]⟩

theorem MarksOf.concat_reserved (h : MarksOf texts slots marks) (depth : Nat) :
    MarksOf (texts ++ [none]) (slots ++ [.reserved texts.length depth])
    (marks ++ [⟨slots.length, depth⟩]) := by
  refine ⟨by simp [h.length], fun n mark => ?_⟩
  obtain ⟨i, d⟩ := mark
  simp only [getElem?_concat_eq_some_iff, h.slot, h.length]
  grind

theorem MarksOf.patch (h : MarksOf texts slots marks) (n : Nat) (line : String) :
    MarksOf (texts.set n (some line)) slots marks :=
  ⟨by simp [h.length], h.slot⟩

theorem MarksOf.none_mem_iff (h : MarksOf texts slots marks) :
    none ∈ (Buffer.ofSlots width depth texts slots).lines.toList ↔ none ∈ texts := by
  simp only [Buffer.ofSlots, List.mem_map]
  constructor
  · rintro ⟨slot, hslot, hnone⟩
    obtain ⟨i, hi⟩ := List.mem_iff_getElem?.mp hslot
    cases slot with
    | line text => simp [Slot.text?] at hnone
    | reserved n d =>
      have hn := h.length ▸ (List.getElem?_eq_some_iff.mp ((h.slot n ⟨i, d⟩).mpr hi)).1
      rw [Slot.text?, Option.map_eq_none_iff, List.getElem?_eq_getElem hn,
        Option.getD_some] at hnone
      exact hnone ▸ List.getElem_mem hn
  · intro hnone
    obtain ⟨n, hn⟩ := List.mem_iff_getElem?.mp hnone
    have hlt := h.length ▸ (List.getElem?_eq_some_iff.mp hn).1
    have hslot := (h.slot n _).mp (List.getElem?_eq_getElem hlt)
    exact ⟨_, List.mem_of_getElem? hslot, by simp [Slot.text?, hn]⟩

/-- The lines are the same in the end, if the buffer that is written in place has the last texts
from the start. -/
theorem Buffer.exists_run_ofSlots (h : MarksOf texts slots marks)
    (hfinal : calls.foldl BufferCall.fill texts = final)
    (others : List LineMark) : ∃ depth' slots' marks', MarksOf final slots' marks' ∧
      (ofSlots width depth texts slots).run marks calls = ofSlots width depth' final slots' ∧
      (ofSlots width depth final slots).run others (inPlace final texts.length calls) =
        ofSlots width depth' final slots' := by
  induction calls generalizing depth texts slots marks others with
  | nil =>
    subst hfinal
    exact ⟨depth, slots, marks, h, rfl, rfl⟩
  | cons call rest ih =>
    cases call with
    | write line =>
      simp only [run, inPlace, write_ofSlots]
      exact ih (h.concat_line _) hfinal others
    | indent => exact ih h hfinal others
    | dedent => exact ih h hfinal others
    | reserve =>
      obtain ⟨others', hplace⟩ :=
        exists_run_inPlace_reserve width depth texts.length final slots others rest
      have hlength : texts.length + 1 = (texts ++ [none]).length := by simp
      rw [run, hplace, reserve_ofSlots, hlength]
      exact ih (h.concat_reserved depth) hfinal others'
    | patch n line =>
      simp only [run, inPlace]
      cases hmark : marks[n]? with
      | none =>
        have hset : texts.set n (some line) = texts :=
          List.set_eq_of_length_le (h.length ▸ List.getElem?_eq_none_iff.mp hmark)
        exact ih h (by simpa [BufferCall.fill, hset] using hfinal) others
      | some mark =>
        rw [Option.map_some, Option.getD_some, patch_ofSlots h hmark, ← List.length_set]
        exact ih (h.patch n line) hfinal others

theorem Buffer.exists_finish_iff (b : Buffer) :
    (∃ text, b.finish = .ok text) ↔ b.depth = 0 ∧ none ∉ b.lines.toList := by
  have hlines : b.lines.toList.findIdx? (·.isNone) = none ↔ none ∉ b.lines.toList := by
    simp only [List.findIdx?_eq_none_iff, Option.isNone_eq_false_iff, Option.isSome_iff_ne_none]
    exact ⟨fun h hnone => h none hnone rfl, fun h line hline heq => h (heq ▸ hline)⟩
  unfold finish
  split_ifs with hdepth
  · simp [hdepth]
  · rw [← hlines]
    cases b.lines.toList.findIdx? (·.isNone) <;> simp_all

/-- Only the calls that indent and dedent change the depth. -/
theorem Buffer.depth_run (b : Buffer) (marks : List LineMark) (calls : List BufferCall) :
    (b.run marks calls).depth = calls.foldl BufferCall.shift b.depth := by
  induction calls generalizing b marks with
  | nil => rfl
  | cons call rest ih =>
    cases call with
    | patch number line =>
      rw [run, ih, List.foldl_cons]
      cases marks[number]? <;> rfl
    | _ => exact ih ..

/-- A buffer is finished if and only if its depth, the indents less the dedents, is zero and each
reserved line has got a text. The buffer is the one that is written in place, without patches,
whatever the order and the depths of the calls. -/
theorem backpatching_eq_inPlace (width : Nat) (calls : List BufferCall) :
    ((∃ text, ((Buffer.empty width).run [] calls).finish = .ok text) ↔
      ((Buffer.empty width).run [] calls).depth = 0 ∧ none ∉ lastTexts calls) ∧
    ((Buffer.empty width).run [] calls).depth = calls.foldl BufferCall.shift 0 ∧
    (Buffer.empty width).run [] calls = (Buffer.empty width).run []
    (inPlace (lastTexts calls) 0 calls) := by
  have hstart : MarksOf [] [] [] := ⟨rfl, by simp⟩
  obtain ⟨depth, slots, marks, hmarks, hrun, hplace⟩ := Buffer.exists_run_ofSlots hstart (by rfl) []
  have hempty (texts : List (Option String)) : Buffer.ofSlots width 0 texts [] =
      Buffer.empty width := rfl
  rw [hempty] at hrun hplace
  refine ⟨?_, Buffer.depth_run _ _ _, hrun.trans hplace.symm⟩
  rw [Buffer.exists_finish_iff, hrun]
  exact and_congr_right fun _ => not_congr hmarks.none_mem_iff

end ScriptCompiler
