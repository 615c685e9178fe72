import ScriptCompiler.Lowering.Expression
import ScriptCompiler.Proofs.ExpressionReading
import ScriptCompiler.Proofs.Numeral
import ScriptCompiler.Proofs.Run
import ScriptCompiler.Proofs.ScriptExpression
import Mathlib.Data.List.Forall2

/-!
# Precedence

The text of an expression, read with the precedence of script operators, is the tree of the
expression. Operations are enclosed where they are made or where they are used, so that no operator
takes an operand that belongs to another one.
-/

namespace ScriptCompiler

variable {key s : String} {texts : List String} {trees : List Script.Tree}
  {c b a : Script.Tree} {e : Expr}
  {scopes : Scopes} {binder : Binder}

namespace Script

open Lexer (Lexed)

/-- A text that is written as an expression of a level. If `point` is set, a point may follow it. -/
def Writes (point : Bool) (text : String) (n : Nat) (t : Tree) : Prop :=
  ∃ ts, Lexed point text.toList ts ∧ Derives n ts t

namespace Writes

variable {p q : Bool} {text left right : String} {n m : Nat} {t l r : Tree}

theorem mono (h : Writes p text n t) (hle : m ≤ n) : Writes p text m t := by
  obtain ⟨ts, hlexed, hderives⟩ := h
  exact ⟨ts, hlexed, hderives.mono hle⟩

theorem loosen (h : Writes p text n t) : Writes false text n t := by
  obtain ⟨ts, hlexed, hderives⟩ := h
  exact ⟨ts, hlexed.loosen, hderives⟩

/-- The text is read as the expression and as no other one. -/
theorem parses_iff (h : Writes p text n t) (t' : Tree) : Parses text t' ↔ t' = t := by
  have hparses : Parses text t := by
    obtain ⟨ts, hlexed, hderives⟩ := h
    obtain ⟨lexemes, hlexemes, rfl⟩ := hlexed.lexes_all.exists_lexemes
    exact ⟨lexemes, hlexemes, hderives.mono (Nat.zero_le n)⟩
  constructor
  · intro h'
    exact h'.unique hparses
  · rintro rfl
    exact hparses

theorem word {w : String} (hw : Identifier.IsWord w) (hid : isIdentifier w = true) :
    Writes true w 15 (.word w) :=
  ⟨_, .word hw, .word hid⟩

theorem number {cs : List Char} (h : Numeral cs) :
    Writes false (String.ofList cs) 15 (.number (String.ofList cs)) :=
  ⟨_, by simpa using h.lexed, .number⟩

theorem parens (h : Writes p text n t) : Writes true (Script.parens text) 15 t := by
  obtain ⟨ts, hlexed, hderives⟩ := h
  refine ⟨_, ?_, .group (hderives.mono (Nat.zero_le n))⟩
  simpa [Script.parens] using hlexed.parens

theorem member (h : Writes true text 14 t) (hkey : Identifier.IsWord key) :
    Writes true (text ++ "." ++ key) 14 (.member t key) := by
  obtain ⟨ts, hlexed, hderives⟩ := h
  refine ⟨_, ?_, hderives.member⟩
  simpa using hlexed.member hkey

theorem index (h : Writes p text 14 t) {i : Tree} (hkey : Writes q key n i) :
    Writes true (text ++ brackets key) 14 (.index t i) := by
  obtain ⟨ts, hlexed, hderives⟩ := h
  obtain ⟨us, hlexed', hderives'⟩ := hkey
  refine ⟨_, ?_, hderives.index (hderives'.mono (Nat.zero_le n))⟩
  simpa [brackets] using hlexed.index hlexed'

theorem exists_pieces (h : List.Forall₂ (fun text t => Writes false text 1 t) texts trees) :
    ∃ (pieces : List (List Char × List Token)) (arguments : List (List Token × Tree)),
      (∀ piece ∈ pieces, Lexed false piece.1 piece.2) ∧ (∀ a ∈ arguments, Derives 1 a.1 a.2) ∧
      pieces.map (·.1) = texts.map String.toList ∧ pieces.map (·.2) = arguments.map (·.1) ∧
      arguments.map (·.2) = trees := by
  induction h with
  | nil => exact ⟨[], [], by simp, by simp, rfl, rfl, rfl⟩
  | @cons text t texts trees hfirst _ ih =>
    obtain ⟨ts, hlexed, hderives⟩ := hfirst
    obtain ⟨pieces, arguments, hpieces, harguments, htexts, htokens, htrees⟩ := ih
    refine ⟨(text.toList, ts) :: pieces, (ts, t) :: arguments, ?_, ?_, ?_, ?_, ?_⟩
    · exact List.forall_mem_cons.2 ⟨hlexed, hpieces⟩
    · exact List.forall_mem_cons.2 ⟨hderives, harguments⟩
    · simp [htexts]
    · simp [htokens]
    · simp [htrees]

theorem call (h : Writes p text 14 t)
    (harguments : List.Forall₂ (fun text t => Writes false text 1 t) texts trees) :
    Writes true (text ++ Script.parens (commas texts)) 14 (.call t trees) := by
  obtain ⟨ts, hlexed, hderives⟩ := h
  obtain ⟨pieces, arguments, hpieces, hderived, htexts, htokens, rfl⟩ := exists_pieces harguments
  have hcall := hlexed.call hpieces
  rw [htexts, htokens] at hcall
  refine ⟨_, ?_, hderives.call hderived⟩
  simpa [Script.parens, commas, String.toList_intercalate] using hcall

theorem unary (h : Writes p text n t) (hs : s ∈ ["!", "~", "+", "-"]) :
    Writes true (s ++ Script.parens text) 13 (.unary s t) := by
  obtain ⟨ts, hlexed, hderives⟩ := h
  have hgroup : Derives 13 _ t := (Derives.group (hderives.mono (Nat.zero_le n))).mono (by decide)
  have hunary : (Token.symbol s).isUnary = true := by simpa [Token.isUnary] using hs
  refine ⟨_, ?_, .unary hunary hgroup⟩
  simpa [Script.parens] using hlexed.unary hs

theorem binary (hl : Writes p left n l) (hr : Writes q right (n + 1) r)
    (hs : s ∈ Lexer.spacedSymbols)
    (hstrength : (Token.symbol s).strength? = some n) :
    Writes q (left ++ " " ++ s ++ " " ++ right) n (.binary s l r) := by
  obtain ⟨ts, hlexed, hderives⟩ := hl
  obtain ⟨us, hlexed', hderives'⟩ := hr
  refine ⟨_, ?_, .binary hstrength hderives hderives'⟩
  simpa using hlexed.spaced hlexed' hs

theorem conditional {condition body alternative : String} (hc : Writes p condition 2 c)
    (hb : Writes q body 1 b) (ha : Writes q alternative 1 a) :
    Writes q (condition ++ " ? " ++ body ++ " : " ++ alternative) 1 (.conditional c b a) := by
  obtain ⟨ts, hlexed, hderives⟩ := hc
  obtain ⟨us, hlexed', hderives'⟩ := hb
  obtain ⟨vs, hlexed'', hderives''⟩ := ha
  refine ⟨_, ?_, .conditional hderives hderives' hderives''⟩
  have hquestion : "?" ∈ Lexer.spacedSymbols := by decide
  have hcolon : ":" ∈ Lexer.spacedSymbols := by decide
  simpa using (hlexed.spaced hlexed' hquestion).spaced hlexed'' hcolon

end Writes

end Script

open Script

/-! ## Elementary expressions and their trees -/

/-- Whether a name stands for itself: the context gives it no value, it has no spelling of its own,
and scripts do not reserve it. -/
def Expr.isAtom (scopes : Scopes) (binder : Binder) (id : String) : Bool :=
  (scopes.isBound id || (binder.lookup id).isNone) && (Names.respelled? id).isNone &&
    isIdentifier id

/-- Whether an expression is a name whose calls are special. -/
def Expr.isSpecial : Expr → Bool
  | .name _ id => hasSpecialCall id
  | _ => false

mutual

/-- Whether an expression consists of names that stand for themselves, integers, operators,
parentheses, members, single subscripts and calls with positional arguments only. -/
def Expr.isElementary (scopes : Scopes) (binder : Binder) : Expr → Bool
  | .name _ id => Expr.isAtom scopes binder id
  | .number _ isFloat token => !isFloat && Literal.isInteger token.toList
  | .member object _ => object.isElementary scopes binder
  | .subscript value [.item index] => value.isElementary scopes binder &&
      index.isElementary scopes binder
  | .call function arguments =>
    !function.isSpecial && function.isElementary scopes binder &&
      argumentsElementary scopes binder arguments
  | .paren _ e | .unary _ _ e => e.isElementary scopes binder
  | .binary op left right => op ≠ .matMul && left.isElementary scopes binder &&
      right.isElementary scopes binder
  | .boolean _ left right => left.isElementary scopes binder && right.isElementary scopes binder
  | .comparison _ left right =>
    left.kind ≠ .comparisonOperator && left.isElementary scopes binder &&
      right.isElementary scopes binder
  | .conditional body condition alternative =>
    body.isElementary scopes binder && condition.isElementary scopes binder &&
      alternative.isElementary scopes binder
  | _ => false

def argumentsElementary (scopes : Scopes) (binder : Binder) : List Argument → Bool
  | [] => true
  | .positional e :: rest => e.isElementary scopes binder && argumentsElementary scopes binder rest
  | _ => false

end

/-- A member of the object with mathematical functions, called. -/
def mathCall (function : String) (arguments : List Tree) :
    Tree := .call (.member (.word "Math") function) arguments

/-- A name that no scope binds may be provided by the helper object. -/
def Expr.nameTree (scopes : Scopes) (id : String) : Tree :=
  if !scopes.isBound id && Names.isProvided id then .member (.word Names.helper) id else .word id

def BinaryOp.tree : BinaryOp → Tree → Tree → Tree
  | .power, left, right => mathCall "pow" [left, right]
  | .floorDiv, left, right => mathCall "floor" [.binary "/" left right]
  | op, left, right => .binary op.text left right

def UnaryOp.tree : UnaryOp → Tree → Tree
  | .invert, operand => .unary "~" operand
  | .not, operand => .unary "!" operand
  | .plus, operand => .unary "+" operand
  | .minus, operand => .unary "-" operand

def BoolOp.tree : BoolOp → Tree → Tree → Tree
  | .and, left, right => .binary "&&" left right
  | .or, left, right => .binary "||" left right

def CompareOp.tree : CompareOp → Tree → Tree → Tree
  | .eq, left, right => .binary "==" left right
  | .ne, left, right => .binary "!=" left right
  | .lt, left, right => .binary "<" left right
  | .le, left, right => .binary "<=" left right
  | .gt, left, right => .binary ">" left right
  | .ge, left, right => .binary ">=" left right
  | .isSame, left, right => .binary "===" left right
  | .isNotSame, left, right => .binary "!==" left right
  | .isIn, left, right => .call (.member right "includes") [left]
  | .isNotIn, left, right => .unary "!" (.call (.member right "includes") [left])

def Literal.numeral (token : String) : String :=
  match Literal.lowerNumber token.toList with
  | .ok digits => String.ofList digits
  | .error _ => ""

mutual

/-- The tree of an elementary expression in a script: node by node that of the expression, without
its parentheses. -/
def Expr.tree (scopes : Scopes) : Expr → Tree
  | .name _ id => Expr.nameTree scopes id
  | .number _ _ token => .number (Literal.numeral token)
  | .member object key => .member (object.tree scopes) key
  | .subscript value [.item index] => .index (value.tree scopes) (index.tree scopes)
  | .call function arguments => .call (function.tree scopes) (argumentTrees scopes arguments)
  | .paren _ e => e.tree scopes
  | .unary _ op e => op.tree (e.tree scopes)
  | .binary op left right => op.tree (left.tree scopes) (right.tree scopes)
  | .boolean op left right => op.tree (left.tree scopes) (right.tree scopes)
  | .comparison op left right => op.tree (left.tree scopes) (right.tree scopes)
  | .conditional body condition alternative =>
    .conditional (condition.tree scopes) (body.tree scopes) (alternative.tree scopes)
  | _ => .word ""

def argumentTrees (scopes : Scopes) : List Argument → List Tree
  | [] => []
  | .positional e :: rest => e.tree scopes :: argumentTrees scopes rest
  | .keyword _ _ _ :: _ | .keywordSplat _ :: _ => []

end

/-! ## Texts of operations -/

/-- The level of the text of an elementary expression. Only comparisons and operators in front are
left open. -/
def Expr.textLevel : Expr → Nat
  | .comparison _ _ _ => 7
  | .unary _ _ _ => 13
  | _ => 14

theorem Expr.textLevel_of_closed (h : isOpen e.kind = false) : e.textLevel = 14 := by
  cases e with
  | comparison op left right => cases h
  | unary pos op operand => cases op <;> cases h
  | _ => rfl

theorem Expr.textLevel_of_tight (h : 15 < e.strength) : 13 ≤ e.textLevel := by
  cases e with
  | comparison op left right => simp [Expr.strength] at h
  | _ => simp [Expr.textLevel]

theorem Expr.textLevel_of_kind (h : e.kind ≠ .comparisonOperator) : 13 ≤ e.textLevel := by
  cases e with
  | comparison op left right => exact absurd rfl h
  | _ => simp [Expr.textLevel]

theorem Expr.textLevel_of_unit (h : e.strength = 24) : 14 ≤ e.textLevel := by
  cases e with
  | comparison op left right => cases h
  | unary pos op operand => cases op <;> cases h
  | _ => simp [Expr.textLevel]

/-- The level of a boolean operator in scripts. -/
def BoolOp.level : BoolOp → Nat
  | .or => 2
  | .and => 3

theorem BoolOp.level_le (op : BoolOp) : op.level ≤ 3 := by cases op <;> decide

theorem Expr.le_textLevel (e : Expr) : 7 ≤ e.textLevel := by
  cases e <;> simp [Expr.textLevel]

theorem Expr.textLevel_le (e : Expr) : e.textLevel ≤ 14 := by
  cases e <;> simp [Expr.textLevel]

/-- The fragment of an expression is written as a tree, alone and as an operand of boolean
operators. -/
structure Fragment.Writes (f : Fragment) (e : Expr) (t : Tree) : Prop where
  text : Script.Writes false f.text e.textLevel t
  /-- A point may follow the text, unless the text is open or a number. -/
  point : isOpen e.kind = false → isNumeral f.text = false → Script.Writes true f.text 14 t
  operands : ∀ op, f.operands op ≠ [] ∧
    Script.Writes false ((" " ++ op.symbol ++ " ").intercalate (f.operands op)) op.level t
  single : ∀ op : BoolOp, op.strength < e.strength → f.operands op = [f.text]

namespace Fragment.Writes

variable {f g k : Fragment} {e left right : Expr} {t l r : Tree} {text : String}

theorem plain (htext : Script.Writes false text e.textLevel t)
    (hpoint : isOpen e.kind = false → isNumeral text = false → Script.Writes true text 14 t) :
    (Fragment.plain text).Writes e t where
  text := htext
  point := hpoint
  operands := fun op => by
    have hle : op.level ≤ e.textLevel := by
      have := op.level_le
      have := e.le_textLevel
      omega
    simpa [Fragment.operands] using htext.mono hle
  single := fun _ _ => rfl

/-- A text that a point may follow. -/
theorem ofPoint (h : Script.Writes true text 14 t) : (Fragment.plain text).Writes e t :=
  plain (h.loosen.mono e.textLevel_le) fun _ _ => h

theorem grouped (h : f.Writes e t) : Script.Writes false (grouped e.kind f.text) 14 t := by
  unfold Script.grouped
  split_ifs with hopen
  · exact h.text.parens.loosen.mono (by decide)
  · rw [Bool.not_eq_true] at hopen
    exact Expr.textLevel_of_closed hopen ▸ h.text

theorem grouped_point (h : f.Writes e t) (hnot : isNumeral (Script.grouped e.kind f.text) = false) :
    Script.Writes true (Script.grouped e.kind f.text) 14 t := by
  unfold Script.grouped at hnot ⊢
  split_ifs at hnot ⊢ with hopen
  · exact h.text.parens.mono (by decide)
  · exact h.point (by simpa using hopen) hnot

theorem receiver (h : f.Writes e t) : Script.Writes true (receiver e.kind f.text) 14 t := by
  unfold Script.receiver
  extract_lets text
  split_ifs with hnumeral
  · exact h.grouped.parens.mono (by decide)
  · exact h.grouped_point (by simpa using hnumeral)

/-- Operands that bind tightly, with an operator between them. -/
theorem operation (hl : f.Writes left l) (hr : g.Writes right r) (hleft : 13 ≤ left.textLevel)
    (hright : 13 ≤ right.textLevel) {n : Nat} (hs : s ∈ Lexer.spacedSymbols)
    (hstrength : (Token.symbol s).strength? = some n) :
    Script.Writes false (f.text ++ " " ++ s ++ " " ++ g.text) n (.binary s l r) := by
  have hn := (Token.strength?_cases hstrength).2.2
  exact .binary (hl.text.mono (by omega)) (hr.text.mono (by omega)) hs hstrength

theorem mathCall {function : String} (hfunction : Identifier.IsWord function)
    (h : List.Forall₂ (fun text t => Script.Writes false text 1 t) texts trees) :
    Script.Writes true ("Math" ++ "." ++ function ++ parens (commas texts)) 14
    (mathCall function trees) := by
  have hmath : Identifier.IsWord "Math" := rfl
  have hword : Script.Writes true "Math" 14 (.word "Math") :=
    (Script.Writes.word hmath (by decide)).mono (by decide)
  exact (hword.member hfunction).call h

theorem binary (hl : f.Writes left l) (hr : g.Writes right r) (hleft : 15 < left.strength)
    (hright : 15 < right.strength) {op : BinaryOp} (hop : op ≠ .matMul) :
    Script.Writes true (Script.binary op left.kind f.text right.kind g.text) 14 (op.tree l r) := by
  have hleft := Expr.textLevel_of_tight hleft
  have hright := Expr.textLevel_of_tight hright
  cases op with
  | matMul => exact absurd rfl hop
  | power =>
    have hl := hl.text.mono (Nat.le_trans (by decide : 1 ≤ 13) hleft)
    have hr := hr.text.mono (Nat.le_trans (by decide : 1 ≤ 13) hright)
    have hpow : Identifier.IsWord "pow" := rfl
    have hcall := mathCall hpow (.cons hl (.cons hr .nil))
    simpa [Script.binary, BinaryOp.symbol?, BinaryOp.tree, commas] using hcall
  | floorDiv =>
    have hdivision : Script.Writes false (Script.grouped left.kind f.text ++ " " ++ "/" ++ " " ++
        Script.grouped right.kind g.text) 11 (.binary "/" l r) :=
      .binary (hl.grouped.mono (by decide)) (hr.grouped.mono (by decide)) (by decide) rfl
    have hfloor : Identifier.IsWord "floor" := rfl
    have hcall := mathCall hfloor (.cons (hdivision.mono (by decide)) .nil)
    simpa [Script.binary, BinaryOp.symbol?, BinaryOp.tree, commas, String.append_assoc] using hcall
  | _ => exact (hl.operation hr hleft hright (by decide) rfl).parens.mono (by decide)

theorem includes (hl : f.Writes left l) (hr : g.Writes right r) :
    Script.Writes true (Script.receiver right.kind g.text ++ ".includes" ++ parens f.text) 14
      (.call (.member r "includes") [l]) := by
  have hmember : Script.Writes true (Script.receiver right.kind g.text ++ ".includes") 14
      (.member r "includes") := by
    have hword : Identifier.IsWord "includes" := rfl
    have hmember := hr.receiver.member hword
    rwa [String.append_assoc] at hmember
  have hcall :=
    hmember.call (.cons (hl.text.mono (Nat.le_trans (by decide : 1 ≤ 7) left.le_textLevel)) .nil)
  simpa [commas] using hcall

theorem comparison (hl : f.Writes left l) (hr : g.Writes right r)
    (hleft : left.kind ≠ .comparisonOperator)
    (hright : 15 < right.strength) (op : CompareOp) :
    Script.Writes false (Script.comparison op f.text right.kind g.text) 7 (op.tree l r) := by
  have hleft := Expr.textLevel_of_kind hleft
  have hright := Expr.textLevel_of_tight hright
  have hincludes := hl.includes hr
  cases op with
  | isIn => exact hincludes.loosen.mono (by decide)
  | isNotIn => exact (hincludes.unary (by decide)).loosen.mono (by decide)
  | _ => exact (hl.operation hr hleft hright (by decide) rfl).mono (by decide)

theorem unary (h : f.Writes e t) (op : UnaryOp) :
    Script.Writes true (op.symbol ++ parens f.text) 13 (op.tree t) := by
  cases op <;> exact h.text.unary (by decide)

theorem conditional {body condition alternative : Expr} (hc : f.Writes condition c)
    (hb : g.Writes body b) (ha : k.Writes alternative a) :
    Script.Writes true (parens (f.text ++ " ? " ++ g.text ++ " : " ++ k.text)) 14
    (.conditional c b a) := by
  have hloose {e : Expr} : 2 ≤ e.textLevel := Nat.le_trans (by decide) e.le_textLevel
  have htext :=
    Script.Writes.conditional (hc.text.mono hloose) (hb.text.mono (Nat.le_of_succ_le hloose))
    (ha.text.mono (Nat.le_of_succ_le hloose))
  exact htext.parens.mono (by decide)

theorem boolean (hl : f.Writes left l) (hr : g.Writes right r) {op : BoolOp}
    (hright : op.strength < right.strength) :
    (Fragment.chain op (f.operands op ++ g.operands op)).Writes (.boolean op left right)
    (op.tree l r) := by
  obtain ⟨hne, hleft⟩ := hl.operands op
  have hsymbol : op.symbol ∈ Lexer.spacedSymbols := by cases op <;> decide
  have hstrength : (Token.symbol op.symbol).strength? = some op.level := by cases op <;> rfl
  have htree : op.tree l r = .binary op.symbol l r := by cases op <;> rfl
  have hinner :
      Script.Writes false
      ((" " ++ op.symbol ++ " ").intercalate (f.operands op ++ g.operands op)) op.level
      (op.tree l r) := by
    have hg : Script.Writes false g.text (op.level + 1) r := by
      refine hr.text.mono ?_
      have := op.level_le
      have := right.le_textLevel
      omega
    have hchain := hleft.binary hg hsymbol hstrength
    rw [hr.single op hright, String.intercalate_append_of_ne_nil hne (List.cons_ne_nil _ _), htree]
    simpa [String.append_assoc] using hchain
  have htext : Script.Writes true (Fragment.chain op (f.operands op ++ g.operands op)).text 14
      (op.tree l r) :=
    hinner.parens.mono (by decide)
  refine ⟨htext.loosen, fun _ _ => htext, fun op' => ?_, fun op' hlt => if_neg ?_⟩
  · by_cases heq : op = op'
    · subst heq
      have hoperands : (Fragment.chain op (f.operands op ++ g.operands op)).operands op =
          f.operands op ++ g.operands op := if_pos rfl
      rw [hoperands]
      exact ⟨by simp [hne], hinner⟩
    · have hoperands : (Fragment.chain op (f.operands op ++ g.operands op)).operands op' =
          [(Fragment.chain op (f.operands op ++ g.operands op)).text] := if_neg heq
      rw [hoperands]
      exact ⟨List.cons_ne_nil _ _, htext.loosen.mono (Nat.le_trans op'.level_le (by decide))⟩
  · rintro rfl
    exact absurd hlt (Nat.lt_irrefl _)

end Fragment.Writes

/-! ## Lowering -/

theorem Expr.contextHit?_of_isElementary :
    ∀ {e : Expr}, e.isElementary scopes binder = true → e.contextHit? scopes binder = .ok none
  | .name pos id, h => by
    simp only [Expr.isElementary, Expr.isAtom, Bool.and_eq_true, Bool.or_eq_true,
      Option.isNone_iff_eq_none] at h
    rw [Expr.contextHit?]
    split_ifs with hbound
    · rfl
    · rw [h.1.1.resolve_left hbound]
      rfl
  | .member object key, h => by
    rw [Expr.isElementary] at h
    rw [Expr.contextHit?, Expr.contextHit?_of_isElementary h]
    rfl
  | .number .., _ | .constant .., _ | .string .., _ | .joined .., _ | .subscript .., _ | .call .., _
  | .paren .., _
  | .binary .., _ | .unary .., _ | .boolean .., _ | .comparison .., _ | .conditional .., _
  | .lambda .., _
  | .await .., _ | .sequence .., _ | .dictionary .., _ | .comprehension .., _
  | .dictComprehension .., _
  | .splat .., _ | .foreign .., _ => rfl

theorem Expr.isPlainString_of_isElementary (h : e.isElementary scopes binder = true) :
    e.isPlainString = false := by
  cases e with
  | string token | joined first rest => simp [Expr.isElementary] at h
  | _ => rfl

namespace Lowering

variable {α β : Type} {s t : LoweringState}

theorem run_contextText? (h : e.isElementary s.scopes s.binder = true) :
    (contextText? e).run s = .ok none s := by
  rw [contextText?, run_get_bind, Expr.contextHit?_of_isElementary h]
  rfl

theorem run_isConstructorMark (h : e.isElementary s.scopes s.binder = true) :
    (isConstructorMark e).run s = .ok false s := by
  cases e with
  | name pos id =>
    have hnew : (id == "new") = false := by
      refine beq_eq_false_iff_ne.2 ?_
      rintro rfl
      simp [Expr.isElementary, Expr.isAtom, isIdentifier, reservedWords] at h
    rw [isConstructorMark, hnew]
    rfl
  | _ => rfl

theorem run_specialFunction? (h : e.isSpecial = false) :
    (specialFunction? e).run s = .ok none s := by
  cases e with
  | name pos id =>
    rw [Expr.isSpecial] at h
    rw [specialFunction?, h]
    rfl
  | _ => rfl

theorem fragment_name {pos : Position} {id : String}
    (h : (Expr.name pos id).isElementary s.scopes s.binder = true)
    (hword : Identifier.IsWord id) :
    ∃ f, (fragment (.name pos id)).run s = .ok f s ∧ f.Writes (.name pos id)
    (Expr.nameTree s.scopes id) := by
  have hcontext := run_contextText? h
  simp only [Expr.isElementary, Expr.isAtom, Bool.and_eq_true, Option.isNone_iff_eq_none] at h
  obtain ⟨⟨-, hspelled⟩, hid⟩ := h
  have hvariable : Names.variableName id = id := by simp [Names.variableName, hspelled]
  have hatom : Script.Writes true id 14 (.word id) :=
    (Script.Writes.word hword hid).mono (by decide)
  rw [fragment, run_get_bind, Expr.nameTree]
  by_cases hbound : s.scopes.isBound id = true
  · simp only [hbound, if_true, Bool.not_true, Bool.false_and, Bool.false_eq_true,
      if_false, hvariable]
    exact ⟨_, rfl, .ofPoint hatom⟩
  · simp only [hbound, Bool.false_eq_true, if_false, Bool.not_false, Bool.true_and]
    rw [run_bind_of_ok hcontext]
    refine ⟨_, rfl, .ofPoint ?_⟩
    rw [Names.spell, hvariable]
    split_ifs with hprovided
    · have hhelper : Identifier.IsWord Names.helper := rfl
      have hword' : Script.Writes true Names.helper 14 (.word Names.helper) :=
        (Script.Writes.word hhelper (by decide)).mono (by decide)
      exact hword'.member hword
    · exact hatom

mutual

/-- An elementary expression as the grammar forms it is lowered to its tree, and the state stays as
it is. -/
theorem exists_fragment : ∀ {e : Expr}, e.isElementary s.scopes s.binder = true → e.Layered →
    ∃ f, (fragment e).run s = .ok f s ∧ f.Writes e (e.tree s.scopes)
  | .name pos id, h, hlayered => by
    rw [Expr.Layered] at hlayered
    rw [Expr.tree]
    exact fragment_name h hlayered
  | .number pos isFloat token, h, _ => by
    simp only [Expr.isElementary, Bool.and_eq_true] at h
    obtain ⟨digits, hdigits, hnumeral⟩ := Literal.exists_lowerNumber h.2
    have htext := (Script.Writes.number hnumeral).mono (by decide : 14 ≤ 15)
    rw [fragment, hdigits, Expr.tree, Literal.numeral, hdigits]
    refine ⟨_, rfl, .plain htext fun _ hnot => ?_⟩
    rw [hnumeral.isNumeral] at hnot
    cases hnot
  | .member object key, h, hlayered => by
    have hcontext := run_contextText? h
    rw [Expr.isElementary] at h
    rw [Expr.Layered] at hlayered
    obtain ⟨f, hrun, hwrites⟩ := exists_fragment h hlayered.2
    rw [fragment, run_bind_of_ok (run_isConstructorMark h)]
    simp only [Bool.false_eq_true, if_false]
    rw [run_bind_of_ok hcontext]
    dsimp only
    rw [run_bind_of_ok hrun, Expr.tree]
    exact ⟨_, rfl, .ofPoint (hwrites.receiver.member hlayered.1)⟩
  | .subscript value [.item index], h, hlayered => by
    simp only [Expr.isElementary, Bool.and_eq_true] at h
    simp only [Expr.Layered, indicesLayered, Index.Layered] at hlayered
    obtain ⟨f, hrun, hwrites⟩ := exists_fragment h.1 hlayered.1
    obtain ⟨g, hrun', hwrites'⟩ := exists_fragment h.2 hlayered.2.1
    rw [fragment, run_bind_of_ok hrun, run_bind_of_ok hrun', Expr.tree]
    exact ⟨_, rfl, .ofPoint (hwrites.receiver.index hwrites'.text)⟩
  | .call function arguments, h, hlayered => by
    simp only [Expr.isElementary, Bool.and_eq_true, Bool.not_eq_true'] at h
    rw [Expr.Layered] at hlayered
    obtain ⟨⟨hspecial, hfunction⟩, harguments⟩ := h
    obtain ⟨f, hrun, hwrites⟩ := exists_fragment hfunction hlayered.2.1
    obtain ⟨texts, hrun', hwrites'⟩ := exists_argumentTexts harguments hlayered.2.2
    have hcallee : 14 ≤ function.textLevel := Expr.textLevel_of_unit hlayered.1
    rw [fragment, run_bind_of_ok (run_specialFunction? hspecial)]
    dsimp only
    rw [run_bind_of_ok hrun, run_bind_of_ok hrun', Expr.tree]
    exact ⟨_, rfl, .ofPoint ((hwrites.text.mono hcallee).call hwrites')⟩
  | .paren pos e, h, hlayered => by
    rw [Expr.isElementary] at h
    rw [Expr.Layered] at hlayered
    obtain ⟨f, hrun, hwrites⟩ := exists_fragment h hlayered
    rw [fragment, run_bind_of_ok hrun, Expr.tree]
    exact ⟨_, rfl, .plain hwrites.grouped fun _ hnot => hwrites.grouped_point hnot⟩
  | .unary pos op e, h, hlayered => by
    rw [Expr.isElementary] at h
    rw [Expr.Layered] at hlayered
    obtain ⟨f, hrun, hwrites⟩ := exists_fragment h hlayered
    rw [fragment, run_bind_of_ok hrun, Expr.tree]
    refine ⟨_, rfl, .plain (hwrites.unary op).loosen fun hclosed => ?_⟩
    cases op <;> cases hclosed
  | .binary op left right, h, hlayered => by
    simp only [Expr.isElementary, Bool.and_eq_true, decide_eq_true_eq] at h
    rw [Expr.Layered] at hlayered
    obtain ⟨⟨hop, hleft⟩, hright⟩ := h
    obtain ⟨f, hrun, hwrites⟩ := exists_fragment hleft hlayered.1.2
    obtain ⟨g, hrun', hwrites'⟩ := exists_fragment hright hlayered.2.2
    rw [fragment, if_neg hop]
    dsimp only
    rw [run_bind_of_ok hrun, run_bind_of_ok hrun', Expr.tree,
      Expr.isPlainString_of_isElementary hleft]
    simp only [Bool.and_false, Bool.false_eq_true, if_false]
    exact ⟨_, rfl, .ofPoint (hwrites.binary hwrites' hlayered.1.1 hlayered.2.1 hop)⟩
  | .boolean op left right, h, hlayered => by
    simp only [Expr.isElementary, Bool.and_eq_true] at h
    rw [Expr.Layered] at hlayered
    obtain ⟨f, hrun, hwrites⟩ := exists_fragment h.1 hlayered.1
    obtain ⟨g, hrun', hwrites'⟩ := exists_fragment h.2 hlayered.2.2
    rw [fragment, run_bind_of_ok hrun, run_bind_of_ok hrun', Expr.tree]
    exact ⟨_, rfl, hwrites.boolean hwrites' hlayered.2.1⟩
  | .comparison op left right, h, hlayered => by
    simp only [Expr.isElementary, Bool.and_eq_true, decide_eq_true_eq] at h
    rw [Expr.Layered] at hlayered
    obtain ⟨⟨hkind, hleft⟩, hright⟩ := h
    obtain ⟨f, hrun, hwrites⟩ := exists_fragment hleft hlayered.1
    obtain ⟨g, hrun', hwrites'⟩ := exists_fragment hright hlayered.2.2
    rw [fragment, if_neg hkind]
    dsimp only
    rw [run_bind_of_ok hrun, run_bind_of_ok hrun', Expr.tree]
    refine ⟨_, rfl, .plain (hwrites.comparison hwrites' hkind hlayered.2.1 op) fun hclosed => ?_⟩
    cases hclosed
  | .conditional body condition alternative, h, hlayered => by
    simp only [Expr.isElementary, Bool.and_eq_true] at h
    rw [Expr.Layered] at hlayered
    obtain ⟨⟨hbody, hcondition⟩, halternative⟩ := h
    obtain ⟨f, hrun, hwrites⟩ := exists_fragment hcondition hlayered.2.1
    obtain ⟨g, hrun', hwrites'⟩ := exists_fragment hbody hlayered.1
    obtain ⟨k, hrun'', hwrites''⟩ := exists_fragment halternative hlayered.2.2
    rw [fragment, run_bind_of_ok hrun, run_bind_of_ok hrun', run_bind_of_ok hrun'']
    exact ⟨_, rfl, .ofPoint (hwrites.conditional hwrites' hwrites'')⟩
  | .constant .., h, _ | .string .., h, _ | .joined .., h, _ | .lambda .., h, _ | .await .., h, _
  | .sequence .., h, _
  | .dictionary .., h, _ | .comprehension .., h, _ | .dictComprehension .., h, _ | .splat .., h, _
  | .foreign .., h, _ | .subscript _ [], h, _ | .subscript _ [.slice ..], h, _
  | .subscript _ (_ :: _ :: _), h, _ => by
    simp [Expr.isElementary] at h

theorem exists_argumentTexts :
    ∀ {arguments : List Argument}, argumentsElementary s.scopes s.binder arguments = true →
    argumentsLayered arguments → ∃ texts, (argumentTexts arguments).run s = .ok ⟨texts, []⟩ s ∧
      List.Forall₂ (fun text t => Script.Writes false text 1 t) texts
      (argumentTrees s.scopes arguments)
  | [], _, _ => ⟨[], by rw [argumentTexts]; rfl, by rw [argumentTrees]; exact .nil⟩
  | .positional e :: rest, h, hlayered => by
    simp only [argumentsElementary, Bool.and_eq_true] at h
    obtain ⟨f, hrun, hwrites⟩ := exists_fragment h.1 hlayered.1
    obtain ⟨texts, hrun', hwrites'⟩ := exists_argumentTexts h.2 hlayered.2
    rw [argumentTexts, run_bind_of_ok hrun, run_bind_of_ok hrun']
    have hle : 1 ≤ e.textLevel := Nat.le_trans (by decide) e.le_textLevel
    exact ⟨_, rfl, .cons (hwrites.text.mono hle) hwrites'⟩
  | .keyword .. :: _, h, _ | .keywordSplat .. :: _, h, _ => by simp [argumentsElementary] at h

end

end Lowering

/-- Expressions that the grammar reads, wherever it does so. -/
inductive Grammar.Produces : Expr → Prop
  | expression {depth extent follow p p' e} :
      ((Grammar.rules depth).expression extent follow).run p = some (e, p') →
      Produces e
  | operand {depth above follow p p' e} : ((Grammar.rules depth).operand above follow).run p =
      some (e, p') → Produces e
  | primary {depth follow p p' e} : ((Grammar.rules depth).primary follow).run p =
      some (e, p') → Produces e

theorem Grammar.Produces.layered (h : Grammar.Produces e) : e.Layered := by
  cases h with
  | @expression depth extent follow p p' _ hrun =>
    exact ((Grammar.forms_rules depth).expression extent follow p.holds_passage hrun).2.1.layered
  | @operand depth above follow p p' _ hrun =>
    exact ((Grammar.forms_rules depth).operand above follow p.holds_passage hrun).2.1.layered
  | @primary depth follow p p' _ hrun =>
    exact ((Grammar.forms_rules depth).primary follow p.holds_passage hrun).2.1.layered

/-- The text of an elementary expression is read as the tree of the expression, and as nothing
else. -/
theorem Lowering.text_parses_iff_eq_tree {e : Expr} {s : LoweringState}
    (hproduced : Grammar.Produces e)
    (helementary : e.isElementary s.scopes s.binder = true) :
    ∃ text, (Lowering.text e).run s = .ok text s ∧ ∀ t, Script.Parses text t ↔
    t = e.tree s.scopes := by
  obtain ⟨f, hrun, hwrites⟩ := exists_fragment helementary hproduced.layered
  refine ⟨f.text, ?_, hwrites.text.parses_iff⟩
  rw [Lowering.text, run_bind_of_ok hrun]
  rfl

/-- An expression with operators of many levels, before it is read. -/
def mixedOperators : ParserState where
  rest := "-a ** 2 // b.c < 1 .real if not d or e[x] in (f)(y, 0x1F) else (g is not h)(max) % (i and j and k)\n".toList
  pos := .first
  indents := [0]
  inFormat := false

theorem text_parses_mixedOperators :
    ∃ e p, ((Grammar.rules 40).expression {} { newline := true }).run mixedOperators = some (e, p) ∧
      e.isElementary .empty (.ofBinding none) = true ∧
      ∃ text, (Lowering.text e).run (.start (.ofBinding none) 4) =
      .ok text (.start (.ofBinding none) 4) ∧
        ∀ t, Script.Parses text t ↔ t = e.tree .empty := by
  have hread : (((Grammar.rules 40).expression {} { newline := true }).run mixedOperators).any
      (·.1.isElementary .empty (.ofBinding none)) = true := by decide +kernel
  obtain ⟨⟨e, p⟩, hrun, helementary⟩ := (Option.any_eq_true _ _).1 hread
  exact ⟨e, p, hrun, helementary, Lowering.text_parses_iff_eq_tree (.expression hrun) helementary⟩

end ScriptCompiler
