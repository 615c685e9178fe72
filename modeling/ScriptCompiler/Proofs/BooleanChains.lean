import ScriptCompiler.Proofs.ExpressionContents

/-!
# Chains of boolean operators

Operands that are joined by one boolean operator are written side by side in one group, however the
operations are nested. What an operation does with its operands does not depend on the nesting:
values are computed from left to right, up to the first one that decides.
-/

namespace ScriptCompiler

namespace BoolOp

variable {m : Type → Type} [Monad m] {V : Type} (truthy : V → Bool) (op : BoolOp)

/-- Whether a value is the result of an operation, so that the operands behind it are not
evaluated. -/
def decides (v : V) : Bool :=
  match op with
  | .and => !truthy v
  | .or => truthy v

/-- One operation. -/
def join (first second : m V) : m V := do
  let v ← first
  if op.decides truthy v then return v else second

/-- A chain of operands, evaluated from left to right up to the first one that decides. -/
def joinAll : m V → List (m V) → m V
  | first, [] => first
  | first, next :: rest => op.join truthy first (joinAll next rest)

/-- The value of a chain is tested once more if the chain is the left operand of another one, to the
same effect. -/
theorem joinAll_append [LawfulMonad m] (first next : m V) (rest more : List (m V)) :
    op.joinAll truthy first (rest ++ next :: more) =
      op.join truthy (op.joinAll truthy first rest) (op.joinAll truthy next more) := by
  induction rest generalizing first with
  | nil => rfl
  | cons x rest ih =>
    simp only [List.cons_append, joinAll, ih, join, bind_assoc]
    congr 1
    funext v
    cases hdecides : op.decides truthy v <;> simp [hdecides]

end BoolOp

namespace Expr

/-- The operands of the largest tree of one operator at the top of an expression, from left to
right. -/
def operands (op : BoolOp) : Expr → List Expr
  | .boolean op' left right =>
    if op' = op then left.operands op ++ right.operands op else [.boolean op' left right]
  | e => [e]

variable {m : Type → Type} [Monad m] {V : Type} (truthy : V → Bool) (value : Expr → m V)

/-- The value of a tree of boolean operators over other expressions. -/
def evaluate : Expr → m V
  | .boolean op left right => op.join truthy left.evaluate right.evaluate
  | e => value e

variable {op : BoolOp} {e x : Expr}

theorem ne_boolean_of_mem_operands (h : x ∈ e.operands op) (left right : Expr) :
    x ≠ .boolean op left right := by
  fun_induction operands op e with
  | case1 l r ihl ihr =>
    rcases List.mem_append.mp h with h | h
    · exact ihl h
    · exact ihr h
  | case2 op' l r hne =>
    obtain rfl := List.mem_singleton.mp h
    exact fun heq => hne (Expr.boolean.inj heq).1
  | case3 e hboolean =>
    obtain rfl := List.mem_singleton.mp h
    exact hboolean op left right

theorem exists_operands [LawfulMonad m] (op : BoolOp) (e : Expr) :
    ∃ first rest, e.operands op = first :: rest ∧ e.evaluate truthy value =
      op.joinAll truthy (first.evaluate truthy value) (rest.map (·.evaluate truthy value)) := by
  fun_induction operands op e with
  | case1 l r ihl ihr =>
    obtain ⟨first, rest, hl, hleft⟩ := ihl
    obtain ⟨next, more, hr, hright⟩ := ihr
    refine ⟨first, rest ++ next :: more, by rw [hl, hr, List.cons_append], ?_⟩
    rw [evaluate, hleft, hright, List.map_append, List.map_cons, BoolOp.joinAll_append]
  | case2 op' l r hne => exact ⟨_, [], rfl, rfl⟩
  | case3 e hboolean => exact ⟨e, [], rfl, rfl⟩

end Expr

namespace Lowering

variable {e : Expr} {f : Fragment} {s t : LoweringState}

/-- Only boolean operations become chains. -/
theorem operands_of_fragment (hboolean : ∀ op left right, e ≠ .boolean op left right)
    (hrun : (fragment e).run s = .ok f t) (op : BoolOp) : f.operands op = [f.text] := by
  by_cases hsplat : ∀ pos operand, e ≠ .splat pos operand
  · have hshows : Shows ⟨s.buffer.width, t.binder.names⟩ s.place (fragment e) _ _ _ :=
      shows_fragment s.place e
    obtain ⟨_, -, hprints⟩ := hshows.ok rfl rfl hrun
    obtain ⟨spans, hdraft⟩ := Expr.exists_plain_draft s.place hboolean hsplat
    have hfragment := (hprints fun hname => hname).2
    rw [hdraft] at hfragment
    cases hfragment
    rfl
  · push Not at hsplat
    obtain ⟨pos, operand, rfl⟩ := hsplat
    rw [fragment] at hrun
    cases hrun

theorem run_bind_congr {α β : Type} {m m' : Lowering α} {f f' : α → Lowering β}
    (h : m.run s = m'.run s)
    (hf : ∀ a t, (f a).run t = (f' a).run t) : (m >>= f).run s = (m' >>= f').run s := by
  rw [run_bind, run_bind, h]
  cases m'.run s with
  | ok a t => exact hf a t
  | error d t => rfl

/-- The operands that an expression brings into a chain are lowered one after the other. -/
theorem run_operands (op : BoolOp) (e : Expr) (s : LoweringState) :
    (Fragment.operands op <$> fragment e).run s = ((e.operands op).mapM text).run s := by
  fun_induction Expr.operands op e generalizing s with
  | case1 left right ihleft ihright =>
    have hchain : Fragment.operands op <$> fragment (.boolean op left right) =
        Fragment.operands op <$> fragment left >>= fun xs =>
          Fragment.operands op <$> fragment right >>= fun ys => pure (xs ++ ys) := by
      rw [fragment]
      simp [Fragment.operands]
    rw [hchain, List.mapM_append]
    exact run_bind_congr (ihleft s) fun xs t => run_bind_congr (ihright t) fun ys u => rfl
  | case2 op' left right hne =>
    rw [List.mapM_cons, List.mapM_nil, text, fragment]
    simp [Fragment.operands, hne]
  | case3 e hboolean =>
    rw [List.mapM_cons, List.mapM_nil, text, bind_assoc, map_eq_pure_bind, run_bind, run_bind]
    cases hrun : (fragment e).run s with
    | error d t => rfl
    | ok f t =>
      dsimp only
      rw [operands_of_fragment hboolean hrun]
      rfl

end Lowering

/-- A tree of boolean operators is written as one chain. Its operands are those of the largest tree
of its operator, in their order: none of them is an operation of the operator. Evaluating the chain
from left to right gives the same value as evaluating the tree, and has the same effects, whatever
the values and the effects of the operands are and whichever values count as true. -/
theorem boolean_chain_keeps_meaning (op : BoolOp) (left right : Expr) :
    (∀ x ∈ (Expr.boolean op left right).operands op, ∀ l r, x ≠ .boolean op l r) ∧
    (∀ s, (Lowering.fragment (.boolean op left right)).run s =
      (Fragment.chain op <$> ((Expr.boolean op left right).operands op).mapM Lowering.text).run s) ∧
    ∀ {m : Type → Type} [Monad m] [LawfulMonad m] {V : Type} (truthy : V → Bool)
    (value : Expr → m V),
      ∃ first rest, (Expr.boolean op left right).operands op = first :: rest ∧
        (Expr.boolean op left right).evaluate truthy value =
          op.joinAll truthy (first.evaluate truthy value) (rest.map (·.evaluate truthy value)) := by
  refine ⟨fun x hx => Expr.ne_boolean_of_mem_operands hx, fun s => ?_,
    fun truthy value => Expr.exists_operands truthy value op _⟩
  have hchain : Lowering.fragment (.boolean op left right) =
      Fragment.chain op <$>
      (Fragment.operands op <$> Lowering.fragment (.boolean op left right)) := by
    rw [Lowering.fragment]
    simp [Fragment.operands]
  rw [hchain, map_eq_pure_bind, map_eq_pure_bind]
  exact Lowering.run_bind_congr (Lowering.run_operands op _ s) fun texts t => rfl

example : (Fragment.chain .and ["a", "b", "c"]).text = "(a && b && c)" := by decide +kernel

end ScriptCompiler
