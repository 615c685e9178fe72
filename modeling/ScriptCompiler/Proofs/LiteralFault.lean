import Mathlib.Tactic.SplitIfs
import ScriptCompiler.Literal.Number
import ScriptCompiler.Lowering.Fragment

/-!
# Faults of literals

A literal without counterpart is refused as a construct. The only other faults of a literal are
those of a string token that cannot be taken apart, or is cut inside a character.
-/

namespace ScriptCompiler

/-- A result whose fault, if it has one, is as described. -/
def OnlyFaults {α : Type} (P : Fault → Prop) (x : Except Fault α) : Prop := ∀ f, x = .error f → P f

namespace OnlyFaults

variable {α β : Type} {P Q : Fault → Prop}

theorem ok (a : α) : OnlyFaults P (.ok a) := by
  intro f h
  cases h

theorem error {f : Fault} (h : P f) : OnlyFaults P (.error f : Except Fault α) := by
  intro f' h'
  cases h'
  exact h

theorem bind {x : Except Fault α} {g : α → Except Fault β} (hx : OnlyFaults P x)
    (hg : ∀ a, OnlyFaults P (g a)) : OnlyFaults P (x >>= g) := by
  cases x with
  | ok a => exact hg a
  | error f => exact error (hx f rfl)

theorem mono {x : Except Fault α} (hx : OnlyFaults P x) (h : ∀ f, P f → Q f) : OnlyFaults Q x :=
  fun f hf => h f (hx f hf)

end OnlyFaults

def Fault.IsRefusal (f : Fault) : Prop := ∃ construct, f = .unsupported construct

theorem Fault.IsRefusal.kind {f : Fault} (h : f.IsRefusal) : f.kind = .unsupportedConstruct := by
  obtain ⟨construct, rfl⟩ := h
  rfl

/-- The refusal of a construct, a broken slice, or the report that a string token cannot be taken
apart. -/
def Fault.IsFlawOf (token : List Char) (f : Fault) : Prop :=
  f.IsRefusal ∨ f = .brokenSlice ∨
    (Literal.splitString? token = none ∧ f = .malformedString (String.ofList token))

namespace Literal

theorem onlyRefusals_lowerNumber (token : List Char) :
    OnlyFaults Fault.IsRefusal (lowerNumber token) := by
  unfold lowerNumber
  dsimp only
  split_ifs
  · exact .error ⟨_, rfl⟩
  all_goals exact .ok _

theorem onlyRefusals_hexEscape (count : Nat) (cs : List Char) :
    OnlyFaults Fault.IsRefusal (hexEscape count cs) := by
  unfold hexEscape
  dsimp only
  split
  · exact .error ⟨_, rfl⟩
  · split_ifs
    · exact .ok _
    · exact .error ⟨_, rfl⟩

theorem onlyRefusals_escape (cs : List Char) : OnlyFaults Fault.IsRefusal (escape cs) := by
  unfold escape
  split
  · exact .ok _
  · split
    · exact .ok _
    · split_ifs
      · exact .ok _
      · exact onlyRefusals_hexEscape 2 _
      · exact onlyRefusals_hexEscape 4 _
      · exact onlyRefusals_hexEscape 8 _
      · exact .error ⟨_, rfl⟩
      · exact .ok _

theorem onlyRefusals_decodeFrom :
    ∀ (skip : Nat) (cs : List Char), OnlyFaults Fault.IsRefusal (decodeFrom skip cs)
  | _, [] => by
    exact .ok _
  | skip + 1, _ :: rest => by
    exact onlyRefusals_decodeFrom skip rest
  | 0, c :: rest => by
    rw [decodeFrom]
    split_ifs
    · exact (onlyRefusals_escape rest).bind fun meaning =>
        (onlyRefusals_decodeFrom meaning.2 rest).bind fun _ => .ok _
    · exact (onlyRefusals_decodeFrom 0 rest).bind fun _ => .ok _

theorem onlyBroken_takeApart (tokens : List (List Char)) :
    OnlyFaults (· = .brokenSlice) (takeApart tokens) := by
  fun_induction takeApart tokens with
  | case1 => exact .ok _
  | case2 token rest hsplit ih => exact ih
  | case3 token rest parts hsplit hcut => exact .error rfl
  | case4 token rest parts hsplit hcut hformat => exact .ok _
  | case5 token rest parts hsplit hcut hformat ih => exact ih

theorem onlyFlaws_checked (token : List Char) (parts : StringParts) :
    OnlyFaults (Fault.IsFlawOf token) parts.checked := by
  unfold StringParts.checked
  split_ifs
  · exact .error (.inr (.inl rfl))
  · exact .error (.inl ⟨_, rfl⟩)
  · exact .ok _

theorem onlyFlaws_stringValue (token : List Char) :
    OnlyFaults (Fault.IsFlawOf token) (stringValue token) := by
  unfold stringValue
  split
  · next hsplit => exact .error (.inr (.inr ⟨hsplit, rfl⟩))
  · next parts _ =>
      refine (onlyFlaws_checked token parts).bind fun _ => ?_
      split_ifs
      · exact .ok _
      · exact (onlyRefusals_decodeFrom 0 _).mono fun _ hf => .inl hf

theorem onlyFlaws_lowerString (token : List Char) :
    OnlyFaults (Fault.IsFlawOf token) (lowerString token) :=
  (onlyFlaws_stringValue token).bind fun _ => .ok _

end Literal

theorem Script.onlyRefusals_templateSegment (raw : Bool) (text : List Char) :
    OnlyFaults Fault.IsRefusal (Script.templateSegment raw text) := by
  cases raw with
  | true => exact .ok _
  | false => exact (Literal.onlyRefusals_decodeFrom 0 _).bind fun _ => .ok _

end ScriptCompiler
