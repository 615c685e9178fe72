import ScriptCompiler.Proofs.Strings
import ScriptCompiler.Syntax.Program
import Mathlib.Data.List.TakeWhile
import Mathlib.Tactic.SplitIfs

/-!
# What the grammar reads

A rule of the grammar goes on in the text that it is given, and its position is that of what is left
to read. `Yields` says so together with a property of the result, and has a rule for each way in
which parsers are put together. The rules for gaps and tokens follow.

A position that a rule takes before it reads something is the place of a character: at the end of a
text a rule that reads fails. `Demands` singles such rules out.
-/

namespace ScriptCompiler

variable {cs : List Char} {w op : String}

/-- A text that begins at a position. -/
structure Passage where
  start : Position
  chars : List Char

/-- What is left to read. -/
def ParserState.passage (s : ParserState) : Passage := ⟨s.pos, s.rest⟩

namespace Passage

def Holds (text : Passage) (s : ParserState) : Prop :=
  ∃ read, text.chars = read ++ s.rest ∧ s.pos = text.start.afterAll read

/-- The place of a character of a passage. -/
def Marks (text : Passage) (p : Position) : Prop :=
  ∃ read c more, text.chars = read ++ c :: more ∧ p = text.start.afterAll read

namespace Holds

variable {text : Passage} {s s' : ParserState}

theorem suffix (h : text.Holds s) : s.rest <:+ text.chars := by
  obtain ⟨read, hchars, -⟩ := h
  exact ⟨read, hchars.symm⟩

theorem marks (h : text.Holds s) (hrest : s.rest ≠ []) : text.Marks s.pos := by
  obtain ⟨read, hchars, hpos⟩ := h
  obtain ⟨c, more, hcons⟩ := List.exists_cons_of_ne_nil hrest
  exact ⟨read, c, more, hcons ▸ hchars, hpos⟩

/-- Layout does not matter to a passage. -/
theorem congr (h : text.Holds s) (hrest : s'.rest = s.rest) (hpos : s'.pos = s.pos) :
    text.Holds s' := by
  obtain ⟨read, hchars, hstart⟩ := h
  exact ⟨read, hrest ▸ hchars, hpos.trans hstart⟩

theorem trans (h : text.Holds s) (h' : s.passage.Holds s') : text.Holds s' := by
  obtain ⟨read, hchars, hpos⟩ := h
  obtain ⟨read', hchars', hpos'⟩ := h'
  refine ⟨read ++ read', ?_, ?_⟩
  · rw [hchars, List.append_assoc, ← hchars']
    rfl
  · rw [hpos', ParserState.passage, hpos, Position.afterAll, Position.afterAll, Position.afterAll,
      List.foldl_append]

theorem step {c : Char} {more : List Char} (h : text.Holds s) (hrest : s.rest = c :: more) :
    text.Holds { s with rest := more, pos := s.pos.after c } :=
  h.trans ⟨[c], hrest, rfl⟩

end Holds

end Passage

theorem ParserState.holds_passage (s : ParserState) : s.passage.Holds s := ⟨[], rfl, rfl⟩

end ScriptCompiler

namespace ScriptCompiler.Parser

variable {α β : Type} {text : Passage} {p q : Parser α} {P Q : α → Prop} {s : ParserState}

/-- A parser that reads in a passage goes on in that passage, and its result has the property. -/
def Yields (text : Passage) (p : Parser α) (P : α → Prop) : Prop :=
  ∀ ⦃s s' : ParserState⦄ ⦃a : α⦄, text.Holds s → p.run s = some (a, s') → text.Holds s' ∧ P a

/-- Parsers that go on in a passage, whatever they give. -/
class Reads (text : Passage) (p : Parser α) : Prop where
  holds : ∀ ⦃s s' : ParserState⦄ ⦃a : α⦄, text.Holds s → p.run s = some (a, s') → text.Holds s'

/-- The result of a step that may be the last one. -/
abbrev YieldsStep (text : Passage) (p : Parser (Option α)) (P : α → Prop) : Prop :=
  Yields text p fun next => ∀ a ∈ next, P a

theorem Reads.yields (h : Reads text p) : Yields text p fun _ => True :=
  fun _ _ _ hs hrun => ⟨h.holds hs hrun, trivial⟩

namespace Yields

protected theorem pure {a : α} (h : P a) : Yields text (pure a) P := by
  intro s s' a' hs hrun
  cases hrun
  exact ⟨hs, h⟩

protected theorem failure : Yields text (failure : Parser α) P := by
  intro s s' a hs hrun
  cases hrun

protected theorem bind {f : α → Parser β} {Q : β → Prop} (hp : Yields text p P)
    (hf : ∀ a, P a → Yields text (f a) Q) : Yields text (p >>= f) Q := by
  intro s s' b hs hrun
  obtain ⟨⟨a, t⟩, hfirst, hrest⟩ := Option.bind_eq_some_iff.mp hrun
  obtain ⟨ht, ha⟩ := hp hs hfirst
  exact hf a ha ht hrest

theorem mono (hp : Yields text p P) (h : ∀ a, P a → Q a) : Yields text p Q := by
  intro s s' a hs hrun
  obtain ⟨hs', ha⟩ := hp hs hrun
  exact ⟨hs', h a ha⟩

theorem reads (hp : Yields text p P) : Reads text p := ⟨fun _ _ _ hs hrun => (hp hs hrun).1⟩

theorem seq {f : α → Parser β} {Q : β → Prop} [hp : Reads text p] (hf : ∀ a, Yields text (f a) Q) :
    Yields text (p >>= f) Q :=
  hp.yields.bind fun a _ => hf a

protected theorem orElse (hp : Yields text p P) (hq : Yields text q P) :
  Yields text (p <|> q) P := by
  intro s s' a hs hrun
  have hrun : (p.run s <|> q.run s) = some (a, s') := hrun
  cases hfirst : p.run s with
  | none =>
    rw [hfirst] at hrun
    exact hq hs hrun
  | some out =>
    rw [hfirst] at hrun
    cases hrun
    exact hp hs hfirst

protected theorem map {f : α → β} {Q : β → Prop} (hp : Yields text p P) (hf : ∀ a, P a → Q (f a)) :
    Yields text (f <$> p) Q := by
  exact hp.bind fun a ha => .pure (hf a ha)

theorem next {a : α} (h : P a) : YieldsStep text (pure (some a)) P :=
  .pure (by rintro _ ⟨⟩; exact h)

theorem last : YieldsStep text (pure none) P := .pure nofun

end Yields

theorem yields_get : Yields text (get : Parser ParserState) text.Holds := by
  intro s s' a hs hrun
  cases hrun
  exact ⟨hs, hs⟩

theorem yields_rest :
    Yields text rest (· <:+ text.chars) := yields_get.bind fun _ h => .pure h.suffix

namespace Reads

variable {f : α → Parser β}

instance : Reads text (get : Parser ParserState) := yields_get.reads

instance : Reads text rest := yields_rest.reads

instance (a : α) :
    Reads text (pure a : Parser α) := (Yields.pure trivial : Yields text _ fun _ => True).reads

protected theorem failure : Reads text (failure : Parser α) :=
  (Yields.failure : Yields text _ fun _ => True).reads

instance : Reads text (failure : Parser α) := .failure

protected theorem bind (hp : Yields text p P) (hf : ∀ a, P a → Reads text (f a)) :
  Reads text (p >>= f) :=
  (hp.bind fun a ha => (hf a ha).yields).reads

theorem seq [hp : Reads text p] (hf : ∀ a, Reads text (f a)) :
    Reads text (p >>= f) := .bind hp.yields fun a _ => hf a

instance [Reads text p] [hf : ∀ a, Reads text (f a)] : Reads text (p >>= f) := seq hf

instance [hp : Reads text p] [hq : Reads text q] {c : Prop} [Decidable c] :
    Reads text (if c then p else q) := by
  split_ifs
  · exact hp
  · exact hq

instance [hp : Reads text p] [hq : Reads text q] :
    Reads text (p <|> q) := (hp.yields.orElse hq.yields).reads

instance {g : α → β} [hp : Reads text p] :
    Reads text (g <$> p) := (hp.yields.map fun _ _ => trivial : Yields _ _ fun _ => True).reads

protected theorem set (h : text.Holds s) : Reads text (set s : Parser PUnit) := by
  constructor
  intro t t' a ht hrun
  cases hrun
  exact h

instance : Reads text position := inferInstanceAs (Reads text (get >>= _))

instance (count : Nat) : Reads text (advance count) := by
  induction count with
  | zero => exact inferInstanceAs (Reads text (pure ()))
  | succ count ih =>
    refine .bind yields_get fun s hs => ?_
    cases hrest : s.rest with
    | nil => exact .failure
    | cons c more =>
      have := Reads.set (hs.step hrest)
      exact .seq fun _ => ih

end Reads

/-! ## Places -/

/-- What a parser comes to at one reading point. -/
def YieldsAt (text : Passage) (s : ParserState) (p : Parser α) (P : α → Prop) : Prop :=
  ∀ ⦃s' : ParserState⦄ ⦃a : α⦄, p.run s = some (a, s') → text.Holds s' ∧ P a

/-- A parser that fails at the end of a text. -/
def Demands (p : Parser α) : Prop := ∀ ⦃s : ParserState⦄, s.rest = [] → p.run s = none

namespace Demands

theorem bind {f : α → Parser β} (hp : Demands p) : Demands (p >>= f) := by
  intro s hs
  rw [StateT.run_bind, hp hs]
  rfl

theorem seq {f : α → Parser β} [hp : ∀ text, Reads text p] (hf : ∀ a, Demands (f a)) :
    Demands (p >>= f) := by
  intro s hs
  rw [StateT.run_bind]
  cases hrun : p.run s with
  | none => rfl
  | some out =>
    -- Nothing but the empty text is left after it.
    have hsuffix := ((hp _).holds s.holds_passage hrun).suffix
    exact hf out.1 (List.suffix_nil.mp (hs ▸ hsuffix))

end Demands

theorem demands_advance {count : Nat} (h : count ≠ 0) : Demands (advance count) := by
  rintro ⟨cs, pos, indents, inFormat⟩ hs
  obtain rfl : cs = [] := hs
  obtain ⟨n, rfl⟩ := Nat.exists_eq_succ_of_ne_zero h
  rfl

namespace YieldsAt

theorem rest {f : List Char → Parser α} (h : YieldsAt text s (f s.rest) P) :
    YieldsAt text s (rest >>= f) P := h

theorem position {f : Position → Parser α} (h : YieldsAt text s (f s.pos) P) :
    YieldsAt text s (position >>= f) P := h

theorem get {f : ParserState → Parser α} (h : YieldsAt text s (f s) P) :
    YieldsAt text s (get >>= f) P := h

theorem demanding (hp : Demands p) (h : s.rest ≠ [] → YieldsAt text s p P) :
    YieldsAt text s p P := by
  intro s' a hrun
  refine h (fun hend => ?_) hrun
  rw [hp hend] at hrun
  cases hrun

end YieldsAt

theorem Yields.ofPoints (h : ∀ s, text.Holds s → YieldsAt text s p P) : Yields text p P :=
  fun s _ _ hs hrun => h s hs hrun

theorem Yields.atPoint (h : Yields text p P) (hs : text.Holds s) :
    YieldsAt text s p P := fun _ _ hrun => h hs hrun

/-- The place where a rule starts that reads something. -/
theorem Yields.atPlace {f : Position → Parser α}
    (hf : ∀ pos, text.Marks pos → Yields text (f pos) P)
    (hend : ∀ pos, Demands (f pos)) : Yields text (position >>= f) P :=
  .ofPoints fun s hs => .position <| .demanding (hend s.pos) fun hrest =>
    (hf s.pos (hs.marks hrest)).atPoint hs

/-! ## Repetition -/

theorem Yields.iterateWithin {step : α → Parser (Option α)}
    (hstep : ∀ a, P a → YieldsStep text (step a) P)
    (fuel : Nat) {a : α} (ha : P a) : Yields text (iterateWithin step fuel a) P := by
  induction fuel generalizing a with
  | zero => exact .failure
  | succ fuel ih =>
    refine (hstep a ha).bind fun next hnext => ?_
    cases next with
    | none => exact .pure ha
    | some b => exact ih (hnext b rfl)

protected theorem Yields.iterate {step : α → Parser (Option α)} {a : α} (ha : P a)
    (hstep : ∀ a, P a → YieldsStep text (step a) P) : Yields text (iterate step a) P :=
  yields_rest.bind fun _ _ => .iterateWithin hstep _ ha

protected theorem Reads.iterate {step : α → Parser (Option α)} {a : α}
  (hstep : ∀ a, Reads text (step a)) :
    Reads text (iterate step a) :=
  (Yields.iterate (P := fun _ => True) trivial fun a _ => (hstep a).yields.mono fun _ _ _ _ =>
  trivial).reads

instance {step : α → Parser (Option α)} {a : α} [hstep : ∀ a, Reads text (step a)] :
    Reads text (iterate step a) :=
  .iterate hstep

/-! ## Gaps -/

theorem reads_gapWithin (e : Expect) (fuel : Nat) : Reads text (gapWithin e fuel) := by
  induction fuel with
  | zero => exact .failure
  | succ fuel ih =>
    refine .bind yields_get fun s hs => ?_
    have hset : ∀ indents, Reads text (set { s with indents } : Parser PUnit) :=
      fun _ => .set (hs.congr rfl rfl)
    dsimp only
    split <;> infer_instance

instance (e : Expect) : Reads text (gap e) := .seq fun _ => reads_gapWithin e _

instance (e : Expect) : Reads text (toToken e) := by
  refine .seq fun g => ?_
  cases g <;> dsimp only <;> infer_instance

end ScriptCompiler.Parser

namespace ScriptCompiler

/-- A word of the source language. -/
def Identifier.IsWord (w : String) : Prop := Identifier.split? w.toList = some (w.toList, [])

theorem Token.isWord_of_word? (h : Token.word? cs = some w) : Identifier.IsWord w := by
  cases cs with
  | nil => cases h
  | cons c more =>
    by_cases hstart : Identifier.isStart c
    · simp only [Token.word?, Identifier.split?, hstart, if_true, Option.map_some,
        Option.some.injEq] at h
      subst h
      have hall : ∀ d ∈ more.takeWhile Identifier.isContinue, Identifier.isContinue d = true :=
        fun d hd => List.mem_takeWhile_imp hd
      simp [Identifier.IsWord, Identifier.split?, hstart, List.takeWhile_eq_self_iff.mpr hall,
        List.dropWhile_eq_nil_iff.mpr hall]
    · simp [Token.word?, Identifier.split?, hstart] at h

theorem Token.ne_nil_of_word? (h : Token.word? cs = some w) : cs ≠ [] := by
  rintro rfl
  cases h

theorem Token.ne_nil_of_keyword?
    (h : (if Token.startsString cs then none else Token.word? cs) = some w) : cs ≠ [] := by
  split at h
  · cases h
  · exact ne_nil_of_word? h

theorem Token.ne_nil_of_number? {found : Bool × Nat} (h : Token.number? cs = some found) :
    cs ≠ [] := by
  rintro rfl
  cases h

/-- No operator stands at the end of a text. -/
theorem Token.ne_nil_of_operator (h : Token.operator cs = op) (hop : op ≠ "") : cs ≠ [] := by
  rintro rfl
  exact hop h.symm

end ScriptCompiler

namespace ScriptCompiler.Grammar

open ScriptCompiler.Parser

variable {text : Passage}

/-! ## Tokens -/

instance (f : Follow) (quote : Bool) : Reads text (ahead f quote) := by
  refine .seq fun g => ?_
  cases g with
  | newline => exact inferInstanceAs (Reads text (pure _))
  | token =>
    refine .seq fun cs => ?_
    cases Token.word? cs <;> exact inferInstanceAs (Reads text (pure _))
  | indent | dedent => exact .failure

instance (f : Follow) (op : String) :
    Reads text (aheadIs f op) := inferInstanceAs (Reads text (ahead f _ >>= _))

instance (op : String) : Reads text (skip op) := inferInstanceAs (Reads text (advance _))

instance (f : Follow) (op : String) : Reads text (expectOperator f op) :=
  inferInstanceAs (Reads text (aheadIs f op >>= _))

instance (f : Follow) (w : String) :
    Reads text (expectWord f w) := inferInstanceAs (Reads text (ahead f _ >>= _))

instance (close : Bool) : Reads text (toOperand close) := inferInstanceAs (Reads text (toToken _))

/-- A word and the place where it stands. -/
theorem yields_placedWord :
    Yields text anyWord fun found => text.Marks found.1 ∧ Identifier.IsWord found.2 := by
  refine .ofPoints fun s hs => .position <| .rest ?_
  cases hword : Token.word? s.rest with
  | none => exact Yields.failure.atPoint hs
  | some w =>
    have hplace : text.Marks s.pos := hs.marks (Token.ne_nil_of_word? hword)
    exact (Yields.seq fun _ => .pure ⟨hplace, Token.isWord_of_word? hword⟩).atPoint hs

theorem yields_anyWord : Yields text anyWord fun found => Identifier.IsWord found.2 :=
  yields_placedWord.mono fun _ h => h.2

theorem yields_wordPlace : Yields text anyWord fun found => text.Marks found.1 :=
  yields_placedWord.mono fun _ h => h.1

instance : Reads text anyWord := yields_anyWord.reads

theorem demands_skip (h : op.length ≠ 0) : Demands (skip op) := demands_advance h

/-- No word stands at the end of a text. -/
theorem demands_expectWord (f : Follow) (w : String) : Demands (expectWord f w) := by
  unfold expectWord ahead
  simp only [bind_assoc]
  refine .seq fun g => ?_
  cases g with
  | newline | indent | dedent => exact fun _ _ => rfl
  | token =>
    rintro ⟨cs, pos, indents, inFormat⟩ hs
    obtain rfl : cs = [] := hs
    rfl

end ScriptCompiler.Grammar
