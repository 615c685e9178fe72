import ScriptCompiler.Proofs.Precedence
import ScriptCompiler.Proofs.Shadowing

/-!
# Ranges

A call of `range` is written as an array whose length and elements are computed from the texts of
the arguments. With one argument these are the keys of an array of that length; with more, a
function gives the elements. This module says how such a text is read and which arguments keep their
meaning in it.
-/

namespace ScriptCompiler

namespace Script

/-! ## Listings -/

/-- The ways to write a list of numbers: the keys of an array, or a length with a function for the
elements. -/
inductive Listing (α : Type) where
  | keys (count : α)
  | counted (length element : α)

namespace Listing

def text : Listing String → String
  | keys count => "[...Array(" ++ count ++ ").keys()]"
  | counted length element => "Array.from(\x7blength: " ++ length ++ "\x7d, (_, i) => " ++
      element ++ ")"

@[simp] theorem text_keys (count : String) :
    (keys count).text = "[...Array(" ++ count ++ ").keys()]" := rfl

@[simp] theorem text_counted (length element : String) :
    (counted length element).text = "Array.from(\x7blength: " ++ length ++ "\x7d, (_, i) => " ++
    element ++ ")" := rfl

/-- The expressions in a listing are read as these. -/
def Parses : Listing String → Listing Tree → Prop
  | keys count, keys t => Script.Parses count t
  | counted length element, counted t u => Script.Parses length t ∧ Script.Parses element u
  | _, _ => False

end Listing

/-- An operator between two operands. -/
def spaced (left op right : String) : String := left ++ " " ++ op ++ " " ++ right

def mathText (function : String) (arguments : List String) : String :=
  "Math" ++ "." ++ function ++ parens (commas arguments)

/-- The listing that the texts of the arguments are put into. -/
def rangeTexts? : List String → Option (Listing String)
  | [stop] => some (.keys stop)
  | [start, stop] =>
    some (.counted (mathText "max" ["0", spaced stop "-" start]) (spaced start "+" "i"))
  | [start, stop, step] =>
    some (.counted
      (mathText "max" ["0", mathText "ceil" [spaced (parens (spaced stop "-" start)) "/" step]])
      (spaced start "+" (spaced "i" "*" step)))
  | _ => none

/-- The listing of a range, with the expressions of its arguments as operands. -/
def rangeTrees? : List Tree → Option (Listing Tree)
  | [stop] => some (.keys stop)
  | [start, stop] =>
    some (.counted (mathCall "max" [.number "0", .binary "-" stop start])
      (.binary "+" start (.word "i")))
  | [start, stop, step] =>
    some (.counted
      (mathCall "max" [.number "0", mathCall "ceil" [.binary "/" (.binary "-" stop start) step]])
      (.binary "+" start (.binary "*" (.word "i") step)))
  | _ => none

theorem specialCall?_range (texts : List String) :
    specialCall? "range" texts = (rangeTexts? texts).map (·.text) := by
  match texts with
  | [] | [_] | _ :: _ :: _ :: _ :: _ => simp [specialCall?, rangeTexts?]
  | [_, _] | [_, _, _] =>
    simp [specialCall?, rangeTexts?, mathText, spaced, parens, commas, ← String.toList_inj]

/-! ## Operands -/

/-- A text that is an operand of arithmetic operators, or an open comparison of two such texts. -/
inductive Operand : String → Tree → Bool → Prop
  | tight {text t} : Writes false text 13 t → Operand text t false
  | loose {s n left right l r} : s ∈ Lexer.spacedSymbols → (Token.symbol s).strength? = some n →
      7 ≤ n → n ≤ 8 →
      Writes false left 13 l → Writes false right 13 r →
      Operand (spaced left s right) (.binary s l r) true

/-- A text that is read as a comparison. -/
inductive Compares (text : String) : Prop
  | intro {s n l r} : (Token.symbol s).strength? = some n → 7 ≤ n → n ≤ 8 →
      Writes false text n (.binary s l r) →
      Compares text

namespace Operand

variable {x y : String} {t u : Tree} {b c : Bool}

theorem writes (h : Operand x t b) : Writes false x 7 t := by
  cases h with
  | tight h => exact h.mono (by decide)
  | loose hs hn hle hle' hl hr =>
    exact (Writes.binary (hl.mono (by omega)) (hr.mono (by omega)) hs hn).mono hle

theorem counter : Operand "i" (.word "i") false := by
  have hword : Identifier.IsWord "i" := rfl
  exact .tight ((Writes.word hword (by decide)).loosen.mono (by decide))

section Operation

variable {s : String} {n : Nat}

/-- An open comparison next to an arithmetic operator takes the operation for one of its
operands. -/
theorem compares (hx : Operand x t b) (hy : Operand y u c) (h : (b || c) = true)
    (hs : s ∈ Lexer.spacedSymbols)
    (hn : (Token.symbol s).strength? = some n) (hlevel : 8 < n ∧ n < 12) :
    Compares (spaced x s y) := by
  have hmiddle {x y : String} {t u : Tree} (hx : Writes false x 13 t) (hy : Writes false y 13 u) :
      Writes false (spaced x s y) n (.binary s t u) :=
    .binary (hx.mono (by omega)) (hy.mono (by omega)) hs hn
  cases hx with
  | tight hx =>
    cases hy with
    | tight hy => cases h
    | loose hs' hn' hle hle' hl hr =>
      have hright := ((hmiddle hx hl).mono (by omega)).binary (hr.mono (by omega)) hs' hn'
      exact .intro hn' hle hle' (by simpa only [spaced, String.append_assoc] using hright)
  | @loose _ n' _ _ _ _ hs' hn' hle hle' hl hr =>
    cases hy with
    | tight hy =>
      have hleft := (hl.mono (by omega)).binary ((hmiddle hr hy).mono (by omega)) hs' hn'
      exact .intro hn' hle hle' (by simpa only [spaced, String.append_assoc] using hleft)
    | @loose _ n'' _ _ _ _ hs'' hn'' hle₂ hle₂' hl' hr' =>
      -- The comparison that binds less tightly takes the other one for an operand; of two alike,
      -- the second one does.
      by_cases hlevels : n'' ≤ n'
      · have hleft := (hl.mono (by omega)).binary ((hmiddle hr hl').mono (by omega)) hs' hn'
        have hboth := (hleft.mono hlevels).binary (hr'.mono (by omega)) hs'' hn''
        exact .intro hn'' hle₂ hle₂' (by simpa only [spaced, String.append_assoc] using hboth)
      · have hright := ((hmiddle hr hl').mono (by omega)).binary (hr'.mono (by omega)) hs'' hn''
        have hboth := (hl.mono (by omega)).binary (hright.mono (by omega)) hs' hn'
        exact .intro hn' hle hle' (by simpa only [spaced, String.append_assoc] using hboth)

/-- Texts with an arithmetic operator between them are its operands exactly if none of them is an
open comparison. -/
theorem exists_operation (hx : Operand x t b) (hy : Operand y u c) (hs : s ∈ Lexer.spacedSymbols)
    (hn : (Token.symbol s).strength? = some n) (hlevel : 8 < n ∧ n < 12) :
    ∃ t', Writes false (spaced x s y) 7 t' ∧ ∀ l r, .binary s l r = t' ↔ (l = t ∧ r = u) ∧
    b = false ∧ c = false := by
  cases hloose : b || c with
  | true =>
    obtain ⟨hn', hle, hle', hwrites⟩ := hx.compares hy hloose hs hn hlevel
    refine ⟨_, hwrites.mono hle, fun l r => iff_of_false (fun heq => ?_) (by grind)⟩
    obtain ⟨rfl, -⟩ := Tree.binary.inj heq
    have := Option.some.inj (hn.symm.trans hn')
    omega
  | false =>
    obtain ⟨rfl, rfl⟩ : b = false ∧ c = false := by simpa using hloose
    cases hx with
    | tight hx =>
      cases hy with
      | tight hy =>
        exact ⟨_, (Writes.binary (hx.mono (by omega)) (hy.mono (by omega)) hs hn).mono
          (by omega), by simp⟩

end Operation

variable {z : String} {start stop step : Tree} {a : Bool}

theorem max (h : Writes false x 7 t) :
    Writes false (mathText "max" ["0", x]) 7 (mathCall "max" [.number "0", t]) := by
  have hword : Identifier.IsWord "max" := rfl
  have hzero : Writes false "0" 1 (.number "0") := (Writes.number .zero).mono (by decide)
  exact (Fragment.Writes.mathCall hword (.cons hzero (.cons (h.mono (by decide)) .nil))).loosen.mono
    (by decide)

theorem ceil (h : Writes false x 7 t) :
    Writes false (mathText "ceil" [x]) 7 (mathCall "ceil" [t]) := by
  have hword : Identifier.IsWord "ceil" := rfl
  exact (Fragment.Writes.mathCall hword (.cons (h.mono (by decide)) .nil)).loosen.mono (by decide)

theorem parses_difference (hx : Operand x start a) (hy : Operand y stop b) :
    Parses (mathText "max" ["0", spaced y "-" x])
    (mathCall "max" [.number "0", .binary "-" stop start]) ↔
      a = false ∧ b = false := by
  obtain ⟨t, ht, htree⟩ := hy.exists_operation hx (s := "-") (by decide) rfl (by decide)
  rw [(max ht).parses_iff]
  simp only [mathCall, Tree.call.injEq, List.cons.injEq, true_and, and_true, htree]
  tauto

theorem parses_quotient (hx : Operand x start a) (hy : Operand y stop b) (hz : Operand z step c) :
    Parses (mathText "max" ["0", mathText "ceil" [spaced (parens (spaced y "-" x)) "/" z]])
        (mathCall "max" [.number "0", mathCall "ceil" [.binary "/" (.binary "-" stop start) step]])
        ↔
      a = false ∧ b = false ∧ c = false := by
  obtain ⟨t, ht, htree⟩ := hy.exists_operation hx (s := "-") (by decide) rfl (by decide)
  have hgroup : Operand (parens (spaced y "-" x)) t false :=
    .tight (ht.parens.loosen.mono (by decide))
  obtain ⟨u, hu, hutree⟩ := hgroup.exists_operation hz (s := "/") (by decide) rfl (by decide)
  rw [(max (ceil hu)).parses_iff]
  simp only [mathCall, Tree.call.injEq, List.cons.injEq, true_and, and_true, htree, hutree]
  tauto

theorem parses_sum (hx : Operand x start false) :
    Parses (spaced x "+" "i") (.binary "+" start (.word "i")) := by
  obtain ⟨t, ht, htree⟩ := hx.exists_operation .counter (s := "+") (by decide) rfl (by decide)
  rw [ht.parses_iff, htree]
  exact ⟨⟨rfl, rfl⟩, rfl, rfl⟩

theorem parses_progression (hx : Operand x start false) (hz : Operand z step false) :
    Parses (spaced x "+" (spaced "i" "*" z))
    (.binary "+" start (.binary "*" (.word "i") step)) := by
  have hword : Identifier.IsWord "i" := rfl
  have hcounter : Writes false "i" 11 (.word "i") :=
    (Writes.word hword (by decide)).loosen.mono (by decide)
  cases hx with
  | tight hx =>
    cases hz with
    | tight hz =>
      have hproduct := hcounter.binary (s := "*") (hz.mono (by decide)) (by decide) rfl
      have hsum := (hx.mono (by decide : 10 ≤ 13)).binary (s := "+") hproduct (by decide) rfl
      exact (hsum.parses_iff _).2 rfl

end Operand

end Script

open Script

/-- Whether an expression is written as an open comparison. -/
def Expr.isOrdering : Expr → Bool
  | .comparison op _ _ => op.symbol?.isSome
  | _ => false

variable {r : Listing Tree}

/-- The arguments of a range are read as operands exactly if there is only one, or none is an open
comparison. -/
theorem parses_rangeTrees_iff {scopes : Scopes} {texts : List String} {es : List Expr}
    {l : Listing String}
    (h : List.Forall₂ (fun text e => Script.Operand text (e.tree scopes) e.isOrdering) texts es)
    (hl : rangeTexts? texts = some l) (hr : rangeTrees? (es.map (·.tree scopes)) = some r) :
    l.Parses r ↔ es.length = 1 ∨ ∀ e ∈ es, e.isOrdering = false := by
  rcases h with _ | ⟨hstart, _ | ⟨hstop, _ | ⟨hstep, _ | _⟩⟩⟩ <;> cases hl <;> cases hr
  · exact iff_of_true ((hstart.writes.parses_iff _).2 rfl) (.inl rfl)
  · rw [Listing.Parses, hstart.parses_difference hstop,
      and_iff_left_of_imp (fun h => (h.1 ▸ hstart).parses_sum)]
    simp
  · rw [Listing.Parses, hstart.parses_quotient hstop hstep,
      and_iff_left_of_imp (fun h => (h.1 ▸ hstart).parses_progression (h.2.2 ▸ hstep))]
    simp

theorem CompareOp.tree_of_symbol? {op : CompareOp} {s : String} (h : op.symbol? = some s)
    (l r : Tree) : op.tree l r = .binary s l r ∧ s ∈ Lexer.spacedSymbols ∧
      ∃ n, (Token.symbol s).strength? = some n ∧ 7 ≤ n ∧ n ≤ 8 := by
  cases op <;> cases h <;> exact ⟨rfl, by decide, _, rfl, by decide, by decide⟩

theorem Script.Operand.comparison {f g : Fragment} {left right : Expr} {l r : Tree}
    (hl : f.Writes left l)
    (hr : g.Writes right r) (hleft : 13 ≤ left.textLevel) (hright : 13 ≤ right.textLevel)
    (op : CompareOp) :
    Script.Operand (Script.comparison op f.text right.kind g.text)
    (op.tree l r) op.symbol?.isSome := by
  unfold Script.comparison
  have hincludes := hl.includes hr
  cases hsymbol : op.symbol? with
  | some s =>
    obtain ⟨htree, hs, n, hn, hle, hle'⟩ := CompareOp.tree_of_symbol? hsymbol l r
    rw [htree]
    exact .loose hs hn hle hle' (hl.text.mono hleft) (hr.text.mono hright)
  | none =>
    cases op with
    | isIn => exact .tight (hincludes.loosen.mono (by decide))
    | isNotIn => exact .tight (hincludes.unary (by decide)).loosen
    | _ => cases hsymbol

namespace Lowering

variable {s : LoweringState} {es : List Expr}

theorem exists_operand {e : Expr} (h : e.isElementary s.scopes s.binder = true)
    (hlayered : e.Layered) :
    ∃ f, (fragment e).run s = .ok f s ∧ Script.Operand f.text (e.tree s.scopes) e.isOrdering := by
  cases e with
  | comparison op left right =>
    simp only [Expr.isElementary, Bool.and_eq_true, decide_eq_true_eq] at h
    obtain ⟨⟨hkind, hleft⟩, hright⟩ := h
    obtain ⟨f, hrun, hwrites⟩ := exists_fragment hleft hlayered.1
    obtain ⟨g, hrun', hwrites'⟩ := exists_fragment hright hlayered.2.2
    rw [fragment, if_neg hkind]
    rw [run_bind_of_ok hrun, run_bind_of_ok hrun']
    have hlevel := Expr.textLevel_of_tight hlayered.2.1
    exact ⟨_, rfl, .comparison hwrites hwrites' (Expr.textLevel_of_kind hkind) hlevel op⟩
  | _ =>
    obtain ⟨f, hrun, hwrites⟩ := exists_fragment h hlayered
    exact ⟨f, hrun, .tight (hwrites.text.mono (by simp [Expr.textLevel]))⟩

theorem exists_operands (h : ∀ e ∈ es, e.isElementary s.scopes s.binder = true)
    (hlayered : argumentsLayered (es.map .positional)) :
    ∃ texts, (argumentTexts (es.map .positional)).run s = .ok ⟨texts, []⟩ s ∧
      List.Forall₂ (fun text e => Script.Operand text (e.tree s.scopes) e.isOrdering) texts es := by
  induction es with
  | nil => exact ⟨[], by rw [List.map_nil, argumentTexts]; rfl, .nil⟩
  | cons e rest ih =>
    rw [List.forall_mem_cons] at h
    obtain ⟨f, hrun, hoperand⟩ := exists_operand h.1 hlayered.1
    obtain ⟨texts, hrun', hoperands⟩ := ih h.2 hlayered.2
    rw [List.map_cons, argumentTexts, run_bind_of_ok hrun, run_bind_of_ok hrun']
    exact ⟨_, rfl, .cons hoperand hoperands⟩

theorem run_specialFunction?_range {pos : Position} (h : (isFree "range").run s = .ok true s) :
    (specialFunction? (.name pos "range")).run s = .ok (some "range") s := by
  rw [specialFunction?, run_bind_of_ok h]
  rfl

/-- A call of `range` with elementary arguments, where the name is neither in scope nor in the
context. -/
structure RangeCall (s : LoweringState) (pos : Position) (es : List Expr) : Prop where
  produced : Grammar.Produces (.call (.name pos "range") (es.map .positional))
  free : (isFree "range").run s = .ok true s
  elementary : ∀ e ∈ es, e.isElementary s.scopes s.binder = true

/-- The call is written as a listing, whose arguments are read as operands exactly if there is only
one, or none is an open comparison. -/
theorem RangeCall.exists_listing {pos : Position} (h : RangeCall s pos es)
    (hr : rangeTrees? (es.map (·.tree s.scopes)) = some r) :
    ∃ l : Listing String,
      (Lowering.text (.call (.name pos "range") (es.map .positional))).run s = .ok l.text s ∧
      (l.Parses r ↔ es.length = 1 ∨ ∀ e ∈ es, e.isOrdering = false) := by
  have hlayered := h.produced.layered
  obtain ⟨texts, hrun, hoperands⟩ := exists_operands h.elementary hlayered.2.2
  obtain ⟨l, hl⟩ : ∃ l, rangeTexts? texts = some l := by
    rcases hoperands with _ | ⟨_, _ | ⟨_, _ | ⟨_, _ | _⟩⟩⟩ <;>
      first | cases hr; done | exact ⟨_, rfl⟩
  refine ⟨l, ?_, parses_rangeTrees_iff hoperands hl hr⟩
  have harguments (kind : Option NodeKind) : specialArguments "range" kind texts = texts := by
    rw [specialArguments]
    simp
  have hcall (kind : Option NodeKind) : specialCall "range" kind ⟨texts, []⟩ = l.text := by
    simp [specialCall, harguments, specialCall?_range, hl]
  have hfragment : (fragment (.call (.name pos "range") (es.map .positional))).run s =
      .ok (.plain l.text) s := by
    rw [fragment, run_bind_of_ok (run_specialFunction?_range h.free)]
    rw [run_bind_of_ok hrun, hcall]
    rfl
  rw [Lowering.text, run_bind_of_ok hfragment]
  rfl

/-- The expressions are written one after the other, with these texts. -/
inductive InTurn : LoweringState → List Expr → List String → LoweringState → Prop
  | nil {s : LoweringState} : InTurn s [] [] s
  | cons {s t u : LoweringState} {e : Expr} {es : List Expr} {text : String} {texts : List String}
      (hfirst : (Lowering.text e).run s = .ok text t) (hrest : InTurn t es texts u) :
      InTurn s (e :: es) (text :: texts) u

variable {t : LoweringState}

theorem InTurn.of_argumentTexts {texts : ArgumentTexts}
    (h : (argumentTexts (es.map .positional)).run s = .ok texts t) :
    texts.keywords = [] ∧ InTurn s es texts.positional t := by
  induction es generalizing s texts with
  | nil =>
    rw [List.map_nil, argumentTexts] at h
    cases h
    exact ⟨rfl, .nil⟩
  | cons e rest ih =>
    rw [List.map_cons, argumentTexts] at h
    obtain ⟨f, u, hfirst, h⟩ := exists_of_bind_eq_ok h
    obtain ⟨texts', u', hrest, h⟩ := exists_of_bind_eq_ok h
    cases h
    obtain ⟨hkeywords, hinTurn⟩ := ih hrest
    refine ⟨hkeywords, .cons ?_ hinTurn⟩
    rw [Lowering.text, run_bind_of_ok hfirst]
    rfl

/-- Whatever the arguments of a range are, their texts stand in the listing as they are. -/
theorem exists_of_text_range {pos : Position} {text : String}
    (hfree : (isFree "range").run s = .ok true s)
    (h : (Lowering.text (.call (.name pos "range") (es.map .positional))).run s = .ok text t) :
    ∃ texts, InTurn s es texts t ∧ ∀ l, rangeTexts? texts = some l → text = l.text := by
  rw [Lowering.text] at h
  obtain ⟨f, u, hfragment, h⟩ := exists_of_bind_eq_ok h
  cases h
  rw [fragment, run_bind_of_ok (run_specialFunction?_range hfree)] at hfragment
  obtain ⟨⟨texts, keywords⟩, u, hrun, hfragment⟩ := exists_of_bind_eq_ok hfragment
  cases hfragment
  obtain ⟨hkeywords, hinTurn⟩ := InTurn.of_argumentTexts hrun
  refine ⟨texts, hinTurn, fun l hl => ?_⟩
  cases hkeywords
  simp [Fragment.text, specialCall, specialArguments, specialCall?_range, hl]

/-- A function is written as an arrow without parentheses around it. -/
theorem exists_of_text_lambda {pos : Position} {parameters : List Parameter} {body : Expr}
    {text : String}
    (h : (Lowering.text (.lambda pos parameters body)).run s = .ok text t) :
    ∃ margin formals value tail, text =
      "\n" ++ margin ++ parens (arrowSignature formals) ++ " => " ++ braces ("return " ++ value) ++
      "\n" ++ tail := by
  rw [Lowering.text] at h
  obtain ⟨f, u, hfragment, h⟩ := exists_of_bind_eq_ok h
  cases h
  rw [fragment] at hfragment
  obtain ⟨formals, _, -, hfragment⟩ := exists_of_bind_eq_ok hfragment
  obtain ⟨value, _, -, hfragment⟩ := exists_of_bind_eq_ok hfragment
  obtain ⟨arrowText, _, harrow, hfragment⟩ := exists_of_bind_eq_ok hfragment
  cases hfragment
  rw [arrow, run_get_bind] at harrow
  cases harrow
  exact ⟨_, _, _, _, rfl⟩

end Lowering

open Lowering (RangeCall InTurn)
open Spans (Inside)

/-! ## Capture -/

/-- The function that counts for a range, with each argument that is written in it. -/
def rangeCounters (p : Place) : ArgumentValues → List (Enclosing × Expr)
  | ⟨[start, _], []⟩ => [(.counter (start.draft p).spans [.text " + i"], start)]
  | ⟨[start, _, step], []⟩ =>
    let counter := Enclosing.counter (start.draft p).spans (.text " + i * " :: (step.draft p).spans)
    [(counter, start), (counter, step)]
  | _ => []

theorem Enclosing.names_counter (p : Place) (start : Expr) {tail : Spans}
    (htail : introduced tail = []) :
    (Enclosing.counter (start.draft p).spans tail).names = ["_", "i"] := by
  simp [names, counter, FunctionForm.ownNames, declarations_eq_filter, htail, Introduction.text,
    BindingForm.respells]

/-- Every argument of a range that is written in the function that counts is also written outside of
it, and its names are captured in the function as `MovedInto` says: if they are parameters of the
function. -/
def SourceText.ResolvesBounds (t : SourceText) (binding : Option Binding) (ed : Edition) : Prop :=
  ∀ c ∈ t.parts binding, ∀ function arguments, c.phrase = .expression (.call function arguments) →
    function.specialFunction? c.place.binding c.place.scopes = some "range" → ∀ outer ∈ c.copies,
      ∀ x ∈ rangeCounters c.place (argumentValues arguments), x.1.names = ["_", "i"] ∧
        Inside outer (x.2.draft c.place).spans (t.spans binding) ∧
        Spans.MovedInto ed x.1 outer (x.2.draft c.place).spans (t.spans binding)

theorem SourceText.resolvesBounds {t : SourceText} {binding : Option Binding} {ed : Edition}
    (h : t.PrintedIn binding ed) : t.ResolvesBounds binding ed := by
  intro c hc function arguments hphrase hspecial outer houter x hx
  have hcall : Inside outer c.spans (t.spans binding) := SourceText.standsIn_parts hc outer houter
  have hspans : c.spans = ((Expr.call function arguments).draft c.place).spans := by
    rw [Part.spans, hphrase, Phrase.spans]
  have hparts : x.1.names = ["_", "i"] ∧ Part.mk (.expression x.2) c.place [[], [x.1]] ∈
      specialParts c.place "range" (argumentValues arguments) := by
    revert hx
    generalize argumentValues arguments = values
    unfold rangeCounters
    split
    · simp only [List.mem_singleton]
      rintro rfl
      exact ⟨Enclosing.names_counter _ _ (by simp), by simp [specialParts]⟩
    · simp only [List.mem_pair]
      rintro (rfl | rfl)
      · exact ⟨Enclosing.names_counter _ _ (by simp), by simp [specialParts]⟩
      · exact ⟨Enclosing.names_counter _ _ (by simp), by simp [specialParts]⟩
    · simp
  have hcomponent : Part.mk (.expression x.2) c.place [[], [x.1]] ∈
      (Expr.call function arguments).components c.place := by
    rw [Expr.components, hspecial]
    exact hparts.2
  have hstands := (Expr.call function arguments).standsIn_component c.place _ hcomponent
  rw [← hspans] at hstands
  refine ⟨hparts.1, (hstands [] List.mem_cons_self).within hcall, Inside.movedInto ?_ h.printed⟩
  exact (hstands [x.1] (by simp)).trans hcall

/-- In every text of a unit or a bundle, an argument of a range keeps its meaning in the function
that counts exactly if it is free of the names `_` and `i`. Elementary arguments, if there are
several, are operands of the arithmetic exactly if none of them is an open comparison. Arguments of
all other kinds stand in the arithmetic as they are written on their own, so a function is there an
arrow without parentheses, which is no operand either. -/
theorem range_operands_iff (options : Options) :
    ((∀ (unit : SourceUnit) (output : String), unit.compile options = .ok output →
      unit.TextsHave options output SourceText.ResolvesBounds) ∧
    ∀ (bundle : Bundle) (output : String), bundle.compile options = .ok output →
      bundle.TextsHave options output SourceText.ResolvesBounds) ∧
    (∀ (s : LoweringState) (pos : Position) (es : List Expr) (r : Listing Tree),
    RangeCall s pos es →
      rangeTrees? (es.map (·.tree s.scopes)) = some r →
      ∃ l : Listing String,
        (Lowering.text (.call (.name pos "range") (es.map .positional))).run s = .ok l.text s ∧
        (l.Parses r ↔ es.length = 1 ∨ ∀ e ∈ es, e.isOrdering = false)) ∧
    (∀ (s t : LoweringState) (pos : Position) (es : List Expr) (text : String),
      (Lowering.isFree "range").run s = .ok true s →
      (Lowering.text (.call (.name pos "range") (es.map .positional))).run s = .ok text t →
      ∃ texts, InTurn s es texts t ∧ ∀ l, rangeTexts? texts = some l → text = l.text) ∧
    ∀ (s t : LoweringState) (pos : Position) (parameters : List Parameter) (body : Expr)
    (text : String),
      (Lowering.text (.lambda pos parameters body)).run s = .ok text t →
      ∃ margin formals value tail, text = "\n" ++ margin ++
      parens (arrowSignature formals) ++ " => " ++
        braces ("return " ++ value) ++ "\n" ++ tail := by
  refine ⟨textsHave (fun _ _ _ hprinted _ => SourceText.resolvesBounds hprinted) options,
    ?_, ?_, ?_⟩
  · exact fun s pos es r h hr => h.exists_listing hr
  · exact fun s t pos es text => Lowering.exists_of_text_range
  · exact fun s t pos parameters body text => Lowering.exists_of_text_lambda

/-- A call with a count down, before it is read. -/
def countdown : ParserState where
  rest := "range(10, n, -3)\n".toList
  pos := .first
  indents := [0]
  inFormat := false

/-- That call, wherever its parts stand. -/
def isCountdown : Expr → Bool
  | .call (.name _ "range") [.positional (.number _ false "10"), .positional (.name _ "n"),
      .positional (.unary _ .minus (.number _ false "3"))] => true
  | _ => false

example : isCountdown (.name .first "n") = false := by decide +kernel

theorem exists_countdown : ∃ pos p₁ p₂ p₃ p₄, RangeCall (.start (.ofBinding none) 4) pos
    [.number p₁ false "10", .name p₂ "n", .unary p₃ .minus (.number p₄ false "3")] := by
  have hread : (((Grammar.rules 40).expression {} { newline := true }).run countdown).any
      (fun r => isCountdown r.1) = true := by decide +kernel
  obtain ⟨⟨e, p⟩, hrun, hshape⟩ := (Option.any_eq_true _ _).1 hread
  dsimp only at hshape
  unfold isCountdown at hshape
  split at hshape
  · refine ⟨_, _, _, _, _, .expression hrun, rfl, ?_⟩
    simp only [List.forall_mem_cons]
    exact ⟨rfl, rfl, rfl, List.forall_mem_nil _⟩
  · cases hshape

def boundSource : String := "class A:\n    def f(self, i):\n        return range(i, 5)\n"

def boundOutput : String :=
  "class A \x7b\n\x7d\nA.prototype.f = function(i) \x7b\n" ++
    "    return Array.from(\x7blength: Math.max(0, 5 - i)\x7d, (_, i) => i + i);\n\x7d;\n" ++
    "A.f = function() \x7b\n" ++
    "    return A.prototype.f.apply(arguments[0], Array.prototype.slice.call(arguments, 1));\n\x7d;\n"

def boundUnit : SourceUnit := ⟨boundSource, none, .module⟩

def boundBundle : Bundle := ⟨[(.element boundSource none none none, none)], none⟩

theorem range_operands_countdown :
    (boundUnit.compile {} = .ok boundOutput ∧
    boundUnit.TextsHave {} boundOutput SourceText.ResolvesBounds) ∧
    (boundBundle.compile {} = .ok boundOutput ∧
    boundBundle.TextsHave {} boundOutput SourceText.ResolvesBounds) ∧
    ∃ pos es r, RangeCall (.start (.ofBinding none) 4) pos es ∧
    rangeTrees? (es.map (·.tree .empty)) = some r ∧
      ∃ l : Listing String, (Lowering.text (.call (.name pos "range") (es.map .positional))).run
        (.start (.ofBinding none) 4) = .ok l.text (.start (.ofBinding none) 4) ∧ l.Parses r := by
  have hunit : boundUnit.compile {} = .ok boundOutput := by decide +kernel
  have hbundle : boundBundle.compile {} = .ok boundOutput := by decide +kernel
  refine ⟨⟨hunit, (range_operands_iff {}).1.1 boundUnit _ hunit⟩,
    ⟨hbundle, (range_operands_iff {}).1.2 boundBundle _ hbundle⟩, ?_⟩
  obtain ⟨pos, p₁, p₂, p₃, p₄, hcall⟩ := exists_countdown
  obtain ⟨l, hrun, hparses⟩ := (range_operands_iff {}).2.1 _ _ _ _ hcall rfl
  exact ⟨pos, _, _, hcall, rfl, l, hrun, hparses.2 (.inr (by simp [Expr.isOrdering]))⟩

/-- The start of the range is the count inside the function. -/
theorem range_start_captured :
    (SourceUnit.mk "range(i, 5)\n" none .module).compile {} =
      .ok "Array.from(\x7blength: Math.max(0, 5 - i)\x7d, (_, i) => i + i);\n" := by
  decide +kernel

example : (rangeTexts? ["i", "5"]).isSome = true := by decide +kernel

end ScriptCompiler
