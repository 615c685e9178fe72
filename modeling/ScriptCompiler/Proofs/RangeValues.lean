import Mathlib.Algebra.Order.Floor.Semiring
import Mathlib.Data.Rat.Floor
import ScriptCompiler.Proofs.NumberValue
import ScriptCompiler.Proofs.Ranges

/-!
# Values of ranges

What the listing of a range evaluates to, next to the numbers that the range counts through. With
two or three arguments they are the same, whatever the signs. With one argument a negative bound is
an error in the script, where the range is empty (`negative_stop_has_no_value`).
-/

namespace ScriptCompiler

/-! ## Counting -/

/-- The numbers from `start` on in steps of `step`, while they have not reached `stop`. -/
def countFrom (start stop step : Int) : List Int :=
  if 0 < step ∧ start < stop ∨ step < 0 ∧ stop < start then
    start :: countFrom (start + step) stop step
  else []
termination_by (if 0 < step then stop - start else start - stop).toNat
decreasing_by split <;> omega

/-- A range as it is given by one, two or three arguments. -/
def rangeOf? : List Int → Option (List Int)
  | [stop] => some (countFrom 0 stop 1)
  | [start, stop] => some (countFrom start stop 1)
  | [start, stop, step] => some (countFrom start stop step)
  | _ => none

/-- How many steps it takes from `start` to reach `stop`. -/
def stepCount (start stop step : Int) : Nat := ⌈((stop - start : Int) : ℚ) / (step : ℚ)⌉₊

/-- The numbers before `stop` have a positive share of the way ahead of them. -/
theorem quotient_pos_iff {start stop step : Int} :
    0 < ((stop - start : Int) : ℚ) / (step : ℚ) ↔ 0 < step ∧ start < stop ∨ step < 0 ∧
    stop < start := by
  rw [div_pos_iff, Int.cast_pos, Int.cast_pos, Int.cast_lt_zero, Int.cast_lt_zero]
  omega

theorem stepCount_add {start stop step : Int}
    (h : 0 < step ∧ start < stop ∨ step < 0 ∧ stop < start) :
    stepCount start stop step = stepCount (start + step) stop step + 1 := by
  have hstep : (step : ℚ) ≠ 0 := Int.cast_ne_zero.2 (by omega)
  have hquotient : ((stop - (start + step) : Int) : ℚ) / step =
      ((stop - start : Int) : ℚ) / step - 1 := by
    rw [eq_sub_iff_add_eq, ← div_self hstep, ← add_div, ← Int.cast_add]
    congr 2
    omega
  have hpos := quotient_pos_iff.2 h
  have hceil := Int.ceil_pos.2 hpos
  rw [stepCount, stepCount, hquotient, ← Int.ceil_toNat, ← Int.ceil_toNat, Int.ceil_sub_one]
  omega

theorem stepCount_eq_zero {start stop step : Int}
    (h : ¬ (0 < step ∧ start < stop ∨ step < 0 ∧ stop < start)) :
    stepCount start stop step = 0 := by
  rw [← quotient_pos_iff, not_lt] at h
  exact Nat.ceil_eq_zero.2 h

/-- Counting gives as many numbers as there are steps, at equal distances. -/
theorem countFrom_eq_map (start stop step : Int) :
    countFrom start stop step = (List.range (stepCount start stop step)).map fun k : Nat =>
    start + k * step := by
  fun_induction countFrom start stop step with
  | case1 start h ih =>
    rw [stepCount_add h, List.range_succ_eq_map, List.map_cons, List.map_map, ih]
    congr 1
    · simp
    · refine List.map_congr_left fun k _ => ?_
      simp only [Function.comp, Nat.succ_eq_add_one, Nat.cast_add, Nat.cast_one]
      ring
  | case2 start h =>
    rw [stepCount_eq_zero h]
    rfl

namespace Script

/-! ## Evaluation -/

/-- The numbers that names stand for. -/
abbrev Numbers := String → Option ℚ

/-- The number that an expression evaluates to, in exact arithmetic. `other` says what expressions
without arithmetic of their own evaluate to. -/
def Tree.value? (other : Numbers → Tree → Option ℚ) (names : Numbers) : Tree → Option ℚ
  | .word w => names w
  | .number d => numberValue? d.toList
  | .unary "-" t => (t.value? other names).map (- ·)
  | .binary "+" l r => do return (← l.value? other names) + (← r.value? other names)
  | .binary "-" l r => do return (← l.value? other names) - (← r.value? other names)
  | .binary "*" l r => do return (← l.value? other names) * (← r.value? other names)
  | .binary "/" l r => do
    let x ← l.value? other names
    let y ← r.value? other names
    if y = 0 then none else some (x / y)
  | .call (.member (.word "Math") "max") [l, r] => do
    return max (← l.value? other names) (← r.value? other names)
  | .call (.member (.word "Math") "ceil") [t] => (t.value? other names).map fun x => (⌈x⌉ : ℚ)
  | t => other names t

/-- The names inside a function that counts: its second parameter is the count, its first one is not
used. -/
def Numbers.counting (names : Numbers) (k : Nat) : Numbers :=
  fun name => if name = "i" then some k else if name = "_" then none else names name

/-- The list that a listing evaluates to. No array has a negative or broken length; `Array.from`
drops what is broken of a length. -/
def Listing.value? (other : Numbers → Tree → Option ℚ) (names : Numbers) :
    Listing Tree → Option (List ℚ)
  | .keys count => do
    let n ← count.value? other names
    if 0 ≤ n ∧ n.isInt then some ((List.range n.num.toNat).map fun k : Nat => (k : ℚ)) else none
  | .counted length element => do
    let n ← length.value? other names
    (List.range ⌊n⌋₊).mapM fun k => element.value? other (names.counting k)

/-- An expression that evaluates to an integer, and to the same one inside a function that
counts. -/
def Evaluates (other : Numbers → Tree → Option ℚ) (names : Numbers) (t : Tree) (n : Int) : Prop :=
  t.value? other names = some (n : ℚ) ∧ ∀ k, t.value? other (names.counting k) = some (n : ℚ)

/-- The only argument is a negative bound. -/
def isNegativeStop : List Int → Bool
  | [stop] => stop < 0
  | _ => false

section Values

variable {other : Numbers → Tree → Option ℚ} {names : Numbers} {start stop step : Tree}
  {a b c : Int}

theorem value?_keys (h : Evaluates other names stop b) :
    (Listing.keys stop).value? other names =
      if b < 0 then none else some ((countFrom 0 b 1).map fun n : Int => (n : ℚ)) := by
  rw [Listing.value?, h.1]
  have hint : (b : ℚ).isInt = true := by simp [Rat.isInt]
  by_cases hb : b < 0
  · simp [hb]
  · have hcount : stepCount 0 b 1 = b.toNat := by
      rw [stepCount, Int.sub_zero, Int.cast_one, div_one, ← Int.ceil_toNat, Int.ceil_intCast]
    rw [countFrom_eq_map, hcount]
    simp [hb, hint, Int.not_lt.1 hb]

theorem numberValue?_zero : numberValue? "0".toList = some 0 := by decide +kernel

/-- The length of a listing with three arguments is the number of steps. -/
theorem value?_length (hstart : Evaluates other names start a)
    (hstop : Evaluates other names stop b)
    (hstep : Evaluates other names step c) (hne : c ≠ 0) :
    (mathCall "max" [.number "0",
    mathCall "ceil" [.binary "/" (.binary "-" stop start) step]]).value? other names =
      some (stepCount a b c : ℚ) := by
  have hceil : max 0 ((⌈((b : ℚ) - a) / c⌉ : Int) : ℚ) = (stepCount a b c : ℚ) := by
    rw [stepCount, ← Int.ceil_toNat, Int.cast_sub, ← Int.cast_natCast, Int.toNat_eq_max,
      Int.cast_max, Int.cast_zero,
      max_comm]
  have hne' : (c : ℚ) ≠ 0 := Int.cast_ne_zero.2 hne
  rw [mathCall, mathCall, Tree.value?, Tree.value?, Tree.value?, Tree.value?, Tree.value?,
    numberValue?_zero, hstart.1,
    hstop.1, hstep.1]
  simp only [bind, Option.bind_some, pure, if_neg hne', Option.map_some, hceil]

theorem value?_element (hstart : Evaluates other names start a)
    (hstep : Evaluates other names step c) (k : Nat) :
    (Tree.binary "+" start (.binary "*" (.word "i") step)).value? other (names.counting k) =
      some ((a + k * c : Int) : ℚ) := by
  have hcount : names.counting k "i" = some (k : ℚ) := rfl
  rw [Tree.value?, Tree.value?, Tree.value?, hcount, hstart.2, hstep.2]
  simp

theorem value?_counted {length element : Tree}
    (hlength : length.value? other names = some (stepCount a b c : ℚ))
    (helement : ∀ k : Nat, element.value? other (names.counting k) = some ((a + k * c : Int) : ℚ)) :
    (Listing.counted length element).value? other names =
    some ((countFrom a b c).map fun n : Int => (n : ℚ)) := by
  rw [Listing.value?, hlength, countFrom_eq_map]
  simp only [bind, Option.bind_some, Nat.floor_natCast, helement]
  exact (List.mapM_pure).trans (congrArg some (List.map_map).symm)

/-- A distance needs as many steps of one. -/
theorem value?_difference (hstart : Evaluates other names start a)
    (hstop : Evaluates other names stop b) :
    (mathCall "max" [.number "0", .binary "-" stop start]).value? other names =
    some (stepCount a b 1 : ℚ) := by
  have hmax : max 0 ((b : ℚ) - a) = (stepCount a b 1 : ℚ) := by
    rw [stepCount, Int.cast_one, div_one, ← Int.ceil_toNat, Int.ceil_intCast, ← Int.cast_natCast,
      Int.toNat_eq_max,
      Int.cast_max, Int.cast_zero, max_comm, Int.cast_sub]
  rw [mathCall, Tree.value?, Tree.value?, Tree.value?, numberValue?_zero, hstart.1, hstop.1]
  exact congrArg some hmax

theorem value?_sum (hstart : Evaluates other names start a) (k : Nat) :
    (Tree.binary "+" start (.word "i")).value? other (names.counting k) =
    some ((a + k * 1 : Int) : ℚ) := by
  have hcount : names.counting k "i" = some (k : ℚ) := rfl
  rw [Tree.value?, Tree.value?, hcount, hstart.2]
  simp

/-- The listing of a range evaluates to the numbers of the range, unless the only argument is a
negative bound. -/
theorem value?_rangeTrees {ts : List Tree} {values : List Int} {r : Listing Tree}
    (h : List.Forall₂ (Evaluates other names) ts values)
    (hstep : ∀ start stop, values ≠ [start, stop, 0])
    (hr : rangeTrees? ts = some r) : r.value? other names = if isNegativeStop values then none else
      (rangeOf? values).map fun ns => ns.map fun n : Int => (n : ℚ) := by
  rcases h with _ | ⟨hstart, _ | ⟨hstop, _ | ⟨hby, _ | _⟩⟩⟩ <;> cases hr
  · rw [value?_keys hstart]
    simp [isNegativeStop, rangeOf?]
  · exact value?_counted (value?_difference hstart hstop) (value?_sum hstart)
  · have hlength := value?_length hstart hstop hby fun hzero => hstep _ _ (by rw [hzero])
    exact value?_counted hlength (value?_element hstart hby)

end Values

end Script

open Script
open Lowering (RangeCall)

theorem Script.Listing.Parses.unique {l : Listing String} {r r' : Listing Tree} (h : l.Parses r)
    (h' : l.Parses r') : r' = r := by
  cases l <;> cases r <;> cases r' <;> try contradiction
  · exact congrArg _ (Script.Parses.unique h' h)
  · rw [Script.Parses.unique h'.1 h.1, Script.Parses.unique h'.2 h.2]

theorem exists_rangeTrees (ts : List Tree) (h : 1 ≤ ts.length ∧ ts.length ≤ 3) :
    ∃ r, rangeTrees? ts = some r := by
  match ts, h with
  | [_], _ | [_, _], _ | [_, _, _], _ => exact ⟨_, rfl⟩
  | _ :: _ :: _ :: _ :: _, h => simp at h; omega

/-- A call of `range` with integers for arguments is written as a text that is read in one way, and
that evaluates to the numbers of the range, whatever the signs of its bounds and its step; only if
the sole argument is negative, where the range is empty, evaluation fails. -/
theorem range_counts_unless_negative_stop (other : Numbers → Tree → Option ℚ) (names : Numbers)
    {s : LoweringState}
    {pos : Position} {es : List Expr} {values : List Int} (h : RangeCall s pos es)
    (hlength : 1 ≤ es.length ∧ es.length ≤ 3) (hclosed : es.length = 1 ∨
    ∀ e ∈ es, e.isOrdering = false)
    (hvalues : List.Forall₂ (fun e n => Evaluates other names (e.tree s.scopes) n) es values)
    (hstep : ∀ start stop, values ≠ [start, stop, 0]) :
    ∃ (l : Listing String) (r : Listing Tree),
      (Lowering.text (.call (.name pos "range") (es.map .positional))).run s = .ok l.text s ∧
      (∀ r', l.Parses r' ↔ r' = r) ∧
      r.value? other names = if isNegativeStop values then none else
        (rangeOf? values).map fun ns => ns.map fun n : Int => (n : ℚ) := by
  obtain ⟨r, hr⟩ := exists_rangeTrees (es.map (·.tree s.scopes)) (by rwa [List.length_map])
  obtain ⟨l, hrun, hparses⟩ := h.exists_listing hr
  have hread := hparses.2 hclosed
  have htrees : List.Forall₂ (Evaluates other names) (es.map (·.tree s.scopes)) values :=
    List.forall₂_map_left_iff.2 hvalues
  refine ⟨l, r, hrun, fun r' => ⟨fun h' => hread.unique h', ?_⟩, value?_rangeTrees htrees hstep hr⟩
  rintro rfl
  exact hread

/-- The name `n` stands for one. -/
def oneForN : Numbers := fun name => if name = "n" then some 1 else none

example : isNegativeStop [-1] = true := by decide +kernel

theorem range_counts_countdown :
    ∃ pos es, RangeCall (.start (.ofBinding none) 4) pos es ∧ (∀ e ∈ es, e.isOrdering = false) ∧
      List.Forall₂ (fun e n => Evaluates (fun _ _ => none) oneForN (e.tree .empty) n)
      es [10, 1, -3] ∧ ∃ (l : Listing String) (r : Listing Tree),
        (Lowering.text (.call (.name pos "range") (es.map .positional))).run
        (.start (.ofBinding none) 4) =
          .ok l.text (.start (.ofBinding none) 4) ∧
        (∀ r', l.Parses r' ↔ r' = r) ∧ r.value? (fun _ _ => none) oneForN = some [10, 7, 4] := by
  obtain ⟨pos, p₁, p₂, p₃, p₄, hcall⟩ := exists_countdown
  have hclosed :
      ∀ e ∈ [Expr.number p₁ false "10", .name p₂ "n", .unary p₃ .minus (.number p₄ false "3")],
      e.isOrdering = false := by simp [Expr.isOrdering]
  have hvalues :
      List.Forall₂ (fun e n => Evaluates (fun _ _ => none) oneForN (Expr.tree .empty e) n)
      [Expr.number p₁ false "10", .name p₂ "n", .unary p₃ .minus (.number p₄ false "3")] [10,
      1, -3] := by
    have hten : numberValue? (Literal.numeral "10").toList = some 10 := by decide +kernel
    have hthree : numberValue? (Literal.numeral "3").toList = some 3 := by decide +kernel
    have hminus (names : Numbers) :
        (Tree.unary "-" (.number (Literal.numeral "3"))).value? (fun _ _ => none) names =
        some (-3) := by rw [Tree.value?, Tree.value?, hthree]; rfl
    exact .cons ⟨hten, fun _ => hten⟩
      (.cons ⟨rfl, fun _ => rfl⟩ (.cons ⟨hminus _, fun _ => hminus _⟩ .nil))
  obtain ⟨l, r, hrun, hparses, hvalue⟩ :=
    range_counts_unless_negative_stop (fun _ _ => none) oneForN hcall ⟨by simp, by simp⟩
    (.inr hclosed) hvalues (by simp)
  refine ⟨pos, _, hcall, hclosed, hvalues, l, r, hrun, hparses, hvalue.trans ?_⟩
  rw [if_neg (by decide), rangeOf?, countFrom_eq_map]
  have hcount : stepCount 10 1 (-3) = 3 := by decide +kernel
  rw [hcount]
  decide +kernel

/-- The range up to minus one is empty, but the text that it is written as has no value: there is no
array of such a length. -/
theorem negative_stop_has_no_value :
    (SourceUnit.mk "range(-1)\n" none .module).compile {} = .ok "[...Array(-(1)).keys()];\n" ∧
      Parses "-(1)" (.unary "-" (.number "1")) ∧
      (Listing.keys (.unary "-" (.number "1"))).value? (fun _ _ => none) (fun _ => none) = none ∧
      rangeOf? [-1] = some [] := by
  have hone : numberValue? "1".toList = some 1 := by decide +kernel
  have hdigits : Numeral ['1'] := .decimal (by decide) (by simp)
  have hwrites : Writes true ("-" ++ parens "1") 13 (.unary "-" (.number "1")) :=
    (Writes.number hdigits).unary (by decide)
  refine ⟨by decide +kernel, (hwrites.parses_iff _).2 rfl, ?_, ?_⟩
  · rw [Listing.value?, Tree.value?, Tree.value?, hone]
    rfl
  · rw [rangeOf?, countFrom_eq_map, stepCount_eq_zero (by decide)]
    rfl

end ScriptCompiler
