import Mathlib.Data.List.Forall2
import ScriptCompiler.Lowering.Statement

/-!
# Margins

The margin of a line is the spaces that it begins with. Texts that differ in the margins behind
their line feeds only are the same text laid out elsewhere: no template that puts texts together
tells them apart.
-/

namespace ScriptCompiler.Script

variable (text function : String)

/-- Texts that differ in margins only: where one has `n` spaces behind a line feed, the other has
`n'`. -/
inductive Relaid (M : Nat → Nat → Prop) : String → String → Prop
  | same (text : String) : Relaid M text text
  | margin {n n' : Nat} (h : M n n') : Relaid M ("\n" ++ Buffer.spaces n) ("\n" ++ Buffer.spaces n')
  | append {a a' b b' : String} (ha : Relaid M a a') (hb : Relaid M b b') :
      Relaid M (a ++ b) (a' ++ b')

namespace Relaid

variable {M : Nat → Nat → Prop} {a a' b b' c c' : String} {as as' bs bs' : List String}

theorem eq_or_mem_lineFeed (h : Relaid M a a') : a = a' ∨ '\n' ∈ a.toList ∧ '\n' ∈ a'.toList := by
  induction h with
  | same text => exact .inl rfl
  | margin h => exact .inr (by simp)
  | append _ _ iha ihb =>
    rcases iha with rfl | ⟨hleft, hleft'⟩
    · rcases ihb with rfl | ⟨hright, hright'⟩
      · exact .inl rfl
      · exact .inr (by simp [hright, hright'])
    · exact .inr (by simp [hleft, hleft'])

theorem isNumeral_of_mem_lineFeed {text : String} (h : '\n' ∈ text.toList) :
    isNumeral text = false := by
  have hfeed : isNumeralChar '\n' = false := by decide
  have hall : ∀ cs : List Char, '\n' ∈ cs → cs.all isNumeralChar = false := by
    intro cs hcs
    exact List.all_eq_false.mpr ⟨'\n', hcs, by simp [hfeed]⟩
  unfold isNumeral
  split
  · rename_i rest hrest
    rw [hrest] at h
    rcases List.mem_cons.mp h with heq | hmem
    · exact absurd heq (by decide)
    · exact hall rest hmem
  · rw [hall _ h, Bool.false_and]

theorem isNumeral_eq (h : Relaid M a a') : isNumeral a = isNumeral a' := by
  rcases h.eq_or_mem_lineFeed with rfl | ⟨hfeed, hfeed'⟩
  · rfl
  · rw [isNumeral_of_mem_lineFeed hfeed, isNumeral_of_mem_lineFeed hfeed']

/-! ### Templates -/

theorem before (h : Relaid M a a') (text : String) :
    Relaid M (a ++ text) (a' ++ text) := h.append (.same text)

theorem behind (h : Relaid M a a') : Relaid M (text ++ a) (text ++ a') := (same text).append h

theorem between (left : String) (h : Relaid M a a') (right : String) :
    Relaid M (left ++ a ++ right) (left ++ a' ++ right) := (behind left h).before right

theorem parens (h : Relaid M a a') : Relaid M (parens a) (parens a') := between _ h _

theorem braces (h : Relaid M a a') : Relaid M (braces a) (braces a') := between _ h _

theorem brackets (h : Relaid M a a') : Relaid M (brackets a) (brackets a') := between _ h _

theorem intercalate (h : Relaid M a a') (hs : List.Forall₂ (Relaid M) bs bs') :
    Relaid M (a.intercalate bs) (a'.intercalate bs') := by
  induction hs with
  | nil => exact .same ""
  | cons hb hrest ih =>
    cases hrest with
    | nil => simpa using hb
    | cons _ _ =>
      rw [String.intercalate_cons_cons, String.intercalate_cons_cons]
      exact (hb.append h).append ih

theorem commas (hs : List.Forall₂ (Relaid M) bs bs') :
    Relaid M (commas bs) (commas bs') := intercalate (.same _) hs

theorem join (hs : List.Forall₂ (Relaid M) bs bs') :
    Relaid M (String.join bs) (String.join bs') := by
  induction hs with
  | nil => exact .same _
  | cons hb _ ih =>
    rw [String.join_cons, String.join_cons]
    exact hb.append ih

theorem grouped (kind : NodeKind) (h : Relaid M a a') :
    Relaid M (grouped kind a) (grouped kind a') := by
  unfold Script.grouped
  by_cases hopen : isOpen kind = true
  · rw [if_pos hopen, if_pos hopen]
    exact h.parens
  · rw [if_neg hopen, if_neg hopen]
    exact h

theorem receiver (kind : NodeKind) (h : Relaid M a a') :
    Relaid M (receiver kind a) (receiver kind a') := by
  have hgrouped := h.grouped kind
  unfold Script.receiver
  dsimp only
  rw [hgrouped.isNumeral_eq]
  by_cases hnumeral : isNumeral (Script.grouped kind a') = true
  · rw [if_pos hnumeral, if_pos hnumeral]
    exact hgrouped.parens
  · rw [if_neg hnumeral, if_neg hnumeral]
    exact hgrouped

theorem getD {o o' : Option String} (h : Option.Rel (Relaid M) o o') (text : String) :
    Relaid M (o.getD text) (o'.getD text) := by
  cases h with
  | none => exact .same text
  | some h => exact h

theorem sliceArguments {lower lower' upper upper' step step' : Option String}
    (hlower : Option.Rel (Relaid M) lower lower')
    (hupper : Option.Rel (Relaid M) upper upper') (hstep : Option.Rel (Relaid M) step step') :
    Relaid M (sliceArguments lower upper step) (sliceArguments lower' upper' step') := by
  have hfull :
      ∀ {t t'}, Relaid M t t' →
      Relaid M (lower.getD "null" ++ ", " ++ upper.getD "null" ++ ", " ++ t)
      (lower'.getD "null" ++ ", " ++ upper'.getD "null" ++ ", " ++ t') := by
    intro t t' ht
    exact ((((getD hlower "null").before ", ").append (getD hupper "null")).before ", ").append ht
  cases hstep with
  | some hstep =>
    cases hlower <;> cases hupper <;> exact hfull hstep
  | none =>
    cases hlower with
    | none =>
      cases hupper with
      | none => exact .same _
      | some hupper => exact hupper
    | some hlower =>
      cases hupper with
      | none => exact hlower.before _
      | some hupper => exact (hlower.before ", ").append hupper

theorem slice (ha : Relaid M a a') (hb : Relaid M b b') : Relaid M (slice a b) (slice a' b') :=
  (((ha.before _).before _).before _ |>.append hb).before _

theorem call (h : Relaid M a a') (hs : List.Forall₂ (Relaid M) as as')
    (hks : List.Forall₂ (Relaid M) bs bs') : Relaid M (call a as bs) (call a' as' bs') := by
  cases hks with
  | nil => exact h.append (commas hs).parens
  | cons hk hks =>
    have hkeywords := (commas (.cons hk hks)).braces
    exact ((((h.before _).append (commas hs).brackets).before _).append hkeywords).before _

/-- A special call is special for its function and the number of its arguments, whatever their texts
are. -/
theorem specialCall? (hs : List.Forall₂ (Relaid M) as as') :
    Option.Rel (Relaid M) (specialCall? function as) (specialCall? function as') := by
  by_cases hlen : function = "len"
  · subst hlen
    cases hs with
    | nil => exact .none
    | cons hvalue hs =>
      cases hs with
      | nil => exact .some (hvalue.before _)
      | cons _ _ => exact .none
  by_cases hrange : function = "range"
  · subst hrange
    cases hs with
    | nil => exact .none
    | cons hfirst hs =>
      cases hs with
      | nil => exact .some (between _ hfirst _)
      | cons hsecond hs =>
        cases hs with
        | nil =>
          have hlength :=
            ((behind "Array.from(\x7blength: Math.max(0, " hsecond).before " - ").append hfirst
          exact .some (((hlength.before ")\x7d, (_, i) => ").append hfirst).before _)
        | cons hthird hs =>
          cases hs with
          | nil =>
            have hlength :=
              ((behind "Array.from(\x7blength: Math.max(0, Math.ceil((" hsecond).before
                " - ").append
              hfirst
            have hsteps := (hlength.before ") / ").append hthird
            have hstart := (hsteps.before "))\x7d, (_, i) => ").append hfirst
            exact .some (((hstart.before " + i * ").append hthird).before _)
          | cons _ _ => exact .none
  · have hnone : ∀ arguments, Script.specialCall? function arguments = none := by
      intro arguments
      unfold Script.specialCall?
      split <;> simp_all
    rw [hnone, hnone]
    exact .none

theorem specialArguments (kind : Option NodeKind) (hs : List.Forall₂ (Relaid M) as as') :
    List.Forall₂ (Relaid M) (Lowering.specialArguments function kind as)
      (Lowering.specialArguments function kind as') := by
  by_cases hlen : function = "len"
  · subst hlen
    cases kind with
    | none => exact hs
    | some kind =>
      cases hs with
      | nil => exact .nil
      | cons hfirst hs => exact .cons (hfirst.receiver kind) hs
  · have hsame : ∀ arguments, Lowering.specialArguments function kind arguments = arguments := by
      intro arguments
      unfold Lowering.specialArguments
      split <;> simp_all
    rwa [hsame, hsame]

theorem specialCall {arguments arguments' : Lowering.ArgumentTexts} (function : String)
    (kind : Option NodeKind)
    (hs : List.Forall₂ (Relaid M) arguments.positional arguments'.positional)
    (hks : List.Forall₂ (Relaid M) arguments.keywords arguments'.keywords) :
    Relaid M (Lowering.specialCall function kind arguments)
    (Lowering.specialCall function kind arguments') := by
  obtain ⟨positional, keywords⟩ := arguments
  obtain ⟨positional', keywords'⟩ := arguments'
  unfold Lowering.specialCall
  cases hks with
  | nil =>
    have hspecial := specialArguments function kind hs
    have hplain := call (.same (Names.spell function)) hspecial .nil
    have hcall := specialCall? function hspecial
    simp only [List.isEmpty_nil, if_true]
    generalize Script.specialCall? function (Lowering.specialArguments function kind positional) =
      found at hcall
    generalize Script.specialCall? function (Lowering.specialArguments function kind positional') =
      found' at hcall
    cases hcall with
    | none => exact hplain
    | some h => exact h
  | cons hk hks => exact call (.same _) hs (.cons hk hks)

theorem format (kind : NodeKind) (ha : Relaid M a a') (hb : Relaid M b b') :
    Relaid M (format kind a b) (format kind a' b') :=
  behind _ ((ha.before _).append hb).parens

theorem binary (op : BinaryOp) (leftKind : NodeKind) (ha : Relaid M a a') (rightKind : NodeKind)
    (hb : Relaid M b b') :
    Relaid M (binary op leftKind a rightKind b) (binary op leftKind a' rightKind b') := by
  unfold Script.binary
  cases op.symbol? with
  | some symbol => exact ((((ha.before _).before _).before _).append hb).parens
  | none =>
    dsimp only
    split
    · exact behind _ ((ha.before _).append hb).parens
    · exact behind _ (((ha.grouped _).before _).append (hb.grouped _)).parens

theorem comparison (op : CompareOp) (ha : Relaid M a a') (rightKind : NodeKind)
    (hb : Relaid M b b') :
    Relaid M (comparison op a rightKind b) (comparison op a' rightKind b') := by
  unfold Script.comparison
  cases op.symbol? with
  | some symbol => exact (((ha.before _).before _).before _).append hb
  | none =>
    have htest := ((hb.receiver rightKind).before ".includes").append ha.parens
    dsimp only
    split
    · exact htest
    · exact behind _ htest.parens

theorem generator (hs : List.Forall₂ (Relaid M) as as') (ha : Relaid M a a') :
    Relaid M (generator as a) (generator as' a') := by
  have hclosers : (as.map fun _ => "\x7d ") = as'.map fun _ => "\x7d " := by
    simp [List.map_const', hs.length_eq]
  unfold Script.generator
  rw [hclosers]
  exact (((((behind _ (join hs)).before _).append ha).before _).before _).before _

theorem collected (form : ComprehensionForm) (h : Relaid M a a') :
    Relaid M (collected form a) (collected form a') := by
  cases form with
  | list | generator => exact (behind _ h).brackets
  | set => exact between _ h _

theorem collection (form : SequenceForm) (hs : List.Forall₂ (Relaid M) as as') :
    Relaid M (collection form as) (collection form as') := by
  cases form with
  | set => exact between _ (commas hs) _
  | _ => exact (commas hs).brackets

theorem propertyKey (isLiteral : Bool) (h : Relaid M a a') :
    Relaid M (propertyKey isLiteral a) (propertyKey isLiteral a') := by
  cases isLiteral with
  | true => exact h
  | false => exact h.brackets

theorem template (h : Relaid M a a') : Relaid M (template a) (template a') := between _ h _

theorem defaultLine (name : String) (h : Relaid M a a') :
    Relaid M (Lowering.defaultLine name a) (Lowering.defaultLine name a') := between _ h _

end Relaid

/-- Parameters with the same names whose defaults differ in margins only. -/
structure Formal.Relaid (M : Nat → Nat → Prop) (p p' : Formal) : Prop where
  name : p.name = p'.name
  default : Option.Rel (Script.Relaid M) p.default p'.default

section Formals

variable {M : Nat → Nat → Prop} {formals formals' : List Formal}

theorem Formal.Relaid.map_name (h : List.Forall₂ (Formal.Relaid M) formals formals') :
    formals.map (·.name) = formals'.map (·.name) := by
  induction h with
  | nil => rfl
  | cons hp _ ih => rw [List.map_cons, List.map_cons, hp.name, ih]

end Formals

end ScriptCompiler.Script

namespace ScriptCompiler

/-- Fragments of one shape whose texts differ in margins only. -/
inductive Fragment.Relaid (M : Nat → Nat → Prop) : Fragment → Fragment → Prop
  | plain {a a' : String} (h : Script.Relaid M a a') : Fragment.Relaid M (.plain a) (.plain a')
  | chain {op : BoolOp} {as as' : List String} (h : List.Forall₂ (Script.Relaid M) as as') :
    Fragment.Relaid M (.chain op as) (.chain op as')

namespace Fragment.Relaid

variable {M : Nat → Nat → Prop} {x x' : Fragment}

theorem text (h : Fragment.Relaid M x x') : Script.Relaid M x.text x'.text := by
  cases h with
  | plain h => exact h
  | chain h => exact .between _ (.intercalate (.same _) h) _

theorem operands (h : Fragment.Relaid M x x') (op : BoolOp) :
    List.Forall₂ (Script.Relaid M) (x.operands op) (x'.operands op) := by
  have htext := h.text
  cases h with
  | plain h => exact .cons h .nil
  | @chain op' _ _ h =>
    simp only [Fragment.operands]
    by_cases hop : op' = op
    · rw [if_pos hop, if_pos hop]
      exact h
    · rw [if_neg hop, if_neg hop]
      exact .cons htext .nil

end Fragment.Relaid

end ScriptCompiler
