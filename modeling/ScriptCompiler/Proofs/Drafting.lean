import ScriptCompiler.Proofs.Draft
import ScriptCompiler.Proofs.Effect

/-!
# Lowering follows a draft

A lowering action is described by the references that it meets, by where it leads and by what its
result and its lines are in the edition with the names that the session ends with. The binder may
still grow while the action runs, so the description of a text is only promised for editions whose
table has all names that the binder has after the action. Rules for the ways in which actions are
put together carry such descriptions from parts to wholes.
-/

namespace ScriptCompiler

def LoweringState.place (s : LoweringState) : Place :=
  ⟨s.binder.binding, s.scopes, s.buffer.depth, s.dictNesting, s.className, s.temporaries⟩

def Binder.NamedBy (b : Binder) (names : List (Nat × String)) : Prop :=
  ∀ {identity : Nat} {name : String}, b.names.lookup identity = some name →
    names.lookup identity = some name

theorem Binder.NamedBy.earlier {b earlier : Binder} {names : List (Nat × String)}
    (h : b.NamedBy names)
    (hextends : b.Extends earlier) : earlier.NamedBy names :=
  fun hname => h (hextends.names hname)

def linesText (lines : List String) : String := String.join (lines.map (· ++ "\n"))

@[simp] theorem linesText_nil : linesText [] = "" := rfl

@[simp] theorem linesText_append (lines more : List String) :
    linesText (lines ++ more) = linesText lines ++ linesText more := by
  simp [linesText]

@[simp] theorem linesText_singleton (line : String) : linesText [line] = line ++ "\n" := by
  simp [linesText]

/-- A change that leaves the lines and the binder alone. -/
structure Change.IsQuiet (c : Change) : Prop where
  lines : ∀ s, (c.apply s).buffer.lines = s.buffer.lines
  width : ∀ s, (c.apply s).buffer.width = s.buffer.width
  binder : ∀ s b, c.apply { s with binder := b } = { c.apply s with binder := b }

theorem Change.IsQuiet.binder_apply {c : Change} (h : c.IsQuiet) (s : LoweringState) :
    (c.apply s).binder = s.binder := by
  have hsame : c.apply s = { c.apply s with binder := s.binder } := h.binder s s.binder
  rw [hsame]

namespace Lowering

variable {α β : Type} {ed : Edition} {p q r : Place} {refs more : List Reference} {P : α →
  List String → Prop}
  {Q : β → List String → Prop}

/-- A successful run leads to a place by adding lines, and schedules the callables of its
references. With all names chosen beforehand it would have given the same result, so the texts of a
session depend on the names at its end only. -/
structure Run (m : Lowering α) (refs : List Reference) (s : LoweringState) (a : α)
    (t : LoweringState) (q : Place)
    (lines : List String) : Prop where
  place : t.place = q
  width : t.buffer.width = s.buffer.width
  lines : t.buffer.lines.toList = s.buffer.lines.toList ++ lines.map some
  scheduled : s.binder.scheduleAll refs = .ok t.binder
  settled : ∀ b : Binder, b.Settles t.binder → m.run { s with binder := b } =
    .ok a { t with binder := b }

theorem Run.names {m : Lowering α} {s t : LoweringState} {a : α} {lines : List String}
    (h : Run m refs s a t q lines) : t.binder.Extends s.binder :=
  Binder.extends_of_scheduleAll h.scheduled

/-- From place `p` the action meets the given references. If it succeeds, it leads to place `q` with
a result and lines as described, in the edition. -/
def Drafts (ed : Edition) (p : Place) (m : Lowering α) (refs : List Reference) (q : Place)
    (P : α → List String → Prop) : Prop :=
  ∀ s : LoweringState, s.place = p → s.buffer.width = ed.width →
    match m.run s with
    | .ok a t => ∃ lines, Run m refs s a t q lines ∧ (t.binder.NamedBy ed.names → P a lines)
    | .error d _ => s.binder.Blames refs d

namespace Drafts

theorem ok {m : Lowering α} (h : Drafts ed p m refs q P) {s t : LoweringState} {a : α}
    (hs : s.place = p)
    (hwidth : s.buffer.width = ed.width) (hrun : m.run s = .ok a t) :
    ∃ lines, Run m refs s a t q lines ∧ (t.binder.NamedBy ed.names → P a lines) := by
  have hresult := h s hs hwidth
  rwa [hrun] at hresult

theorem blames {m : Lowering α} (h : Drafts ed p m refs q P) {s t : LoweringState} {d : Diagnostic}
    (hs : s.place = p)
    (hwidth : s.buffer.width = ed.width) (hrun : m.run s = .error d t) :
    s.binder.Blames refs d := by
  have hresult := h s hs hwidth
  rwa [hrun] at hresult

theorem pure {a : α} (h : P a []) : Drafts ed p (pure a) [] p P := by
  rintro s rfl _
  exact ⟨[], ⟨rfl, rfl, by simp, rfl, fun _ _ => rfl⟩, fun _ => h⟩

theorem fail {d : Diagnostic} (h : d.kind ≠ .cyclicContext) :
    Drafts ed p (fail d : Lowering α) refs q P :=
  fun _ _ _ hkind => absurd hkind h

theorem refuse (construct : String) (pos : Position) :
    Drafts ed p (refuse construct pos : Lowering α) refs q P :=
  fail (by simp [Diagnostic.unsupported])

/-- The second action may use what is known of the first one's result. What the first one promises
for its names holds when the second one is done, since names are kept. -/
theorem bind_of {m : Lowering α} {f : α → Lowering β} {R : α → Prop} (hm : Drafts ed p m refs q P)
    (hR : ∀ s a t, s.place = p → m.run s = .ok a t → R a)
    (hf : ∀ a, R a → Drafts ed q (f a) more r fun b later => ∀ lines, P a lines →
    Q b (lines ++ later)) : Drafts ed p (m >>= f) (refs ++ more) r Q := by
  intro s hs hwidth
  rw [run_bind]
  cases hfirst : m.run s with
  | error d t =>
    intro hkind
    obtain ⟨r, hr, hblame⟩ := hm.blames hs hwidth hfirst hkind
    exact ⟨r, List.mem_append_left _ hr, hblame⟩
  | ok a t =>
    obtain ⟨lines, hrun, hP⟩ := hm.ok hs hwidth hfirst
    have hrest := hf a (hR s a t hs hfirst)
    have hwidth' := hrun.width.trans hwidth
    dsimp only
    cases hsecond : (f a).run t with
    | error d u =>
      intro hkind
      obtain ⟨r, hr, hprogress, hblame⟩ := hrest.blames hrun.place hwidth' hsecond hkind
      -- References do not begin or end an extraction.
      rw [Binder.scheduleAll_inProgress hrun.scheduled] at hprogress
      exact ⟨r, List.mem_append_right _ hr, hprogress, hblame⟩
    | ok b u =>
      obtain ⟨later, hrun', hQ⟩ := hrest.ok hrun.place hwidth' hsecond
      refine ⟨lines ++ later, ⟨hrun'.place, hrun'.width.trans hrun.width, ?_, ?_, ?_⟩,
        fun hnamed => ?_⟩
      · rw [hrun'.lines, hrun.lines, List.map_append, List.append_assoc]
      · exact (Binder.scheduleAll_append hrun.scheduled more).trans hrun'.scheduled
      · -- Names that settle the whole run settle its first part too.
        intro binder hsettles
        rw [run_bind, hrun.settled binder (hsettles.earlier hrun'.names)]
        exact hrun'.settled binder hsettles
      · exact hQ hnamed lines (hP (hnamed.earlier hrun'.names))

theorem bind {m : Lowering α} {f : α → Lowering β} (hm : Drafts ed p m refs q P)
    (hf : ∀ a, Drafts ed q (f a) more r fun b later => ∀ lines, P a lines → Q b (lines ++ later)) :
    Drafts ed p (m >>= f) (refs ++ more) r Q :=
  hm.bind_of (fun _ _ _ _ _ => trivial) fun a _ => hf a

theorem weaken {m : Lowering α} {P' : α → List String → Prop} (hm : Drafts ed p m refs q P)
    (h : ∀ a lines, P a lines → P' a lines) : Drafts ed p m refs q P' := by
  intro s hs hwidth
  cases hrun : m.run s with
  | error d t => exact hm.blames hs hwidth hrun
  | ok a t =>
    obtain ⟨lines, hrun, hP⟩ := hm.ok hs hwidth hrun
    exact ⟨lines, hrun, fun hnamed => h a lines (hP hnamed)⟩

theorem cast {m : Lowering α} (h : Drafts ed p m refs q P) (hrefs : refs = more) :
    Drafts ed p m more q P := hrefs ▸ h

theorem reading {f : LoweringState → Lowering α}
    (hf : ∀ s b, b.binding = s.binder.binding → f { s with binder := b } = f s)
    (h : ∀ s, s.place = p → s.buffer.width = ed.width → Drafts ed p (f s) refs q P) :
    Drafts ed p (get >>= f) refs q P := by
  intro s hs hwidth
  rw [run_get_bind]
  cases hresult : (f s).run s with
  | error d t => exact (h s hs hwidth).blames hs hwidth hresult
  | ok a t =>
    obtain ⟨lines, hrun, hP⟩ := (h s hs hwidth).ok hs hwidth hresult
    refine ⟨lines, { hrun with settled := fun b hsettles => ?_ }, hP⟩
    rw [run_get_bind, hf s b (hsettles.earlier hrun.names).binding]
    exact hrun.settled b hsettles

/-- An action whose outcome is known at its place. -/
theorem known {m : Lowering α} {f : α → Lowering β} {a : α}
    (hm : ∀ s, s.place = p → m.run s = .ok a s)
    (h : Drafts ed p (f a) refs q Q) : Drafts ed p (m >>= f) refs q Q := by
  intro s hs hwidth
  have hsame : ∀ {s}, s.place = p → (m >>= f).run s = (f a).run s :=
    fun hs => by rw [run_bind, hm _ hs]
  rw [hsame hs]
  cases hresult : (f a).run s with
  | error d t => exact h.blames hs hwidth hresult
  | ok b t =>
    obtain ⟨lines, hrun, hQ⟩ := h.ok hs hwidth hresult
    refine ⟨lines, { hrun with settled := fun binder hsettles => ?_ }, hQ⟩
    have hplace : ({ s with binder := binder } : LoweringState).place = p := by
      rw [← hs]
      simp [LoweringState.place, (hsettles.earlier hrun.names).binding]
    rw [hsame hplace]
    exact hrun.settled binder hsettles

/-- A construct may be refused before the rest of an action. -/
theorem afterRefusal {c : Prop} [Decidable c] {construct : String} {pos : Position}
    {rest : PUnit → Lowering α} (h : Drafts ed p (rest ⟨⟩) refs q P) :
    Drafts ed p (if c then Lowering.refuse construct pos >>= rest else rest ⟨⟩) refs q P := by
  split_ifs
  · exact refuse construct pos
  · exact h

theorem of_run {m m' : Lowering α} (h : Drafts ed p m refs q P)
    (hsame : ∀ s, m'.run s = m.run s ∨ ∃ d t t', m.run s = .error d t ∧ m'.run s = .error d t') :
    Drafts ed p m' refs q P := by
  have hok : ∀ {s a t}, m.run s = .ok a t → m'.run s = .ok a t := by
    intro s a t hrun
    rcases hsame s with heq | ⟨d, u, u', hfail, -⟩
    · exact heq.trans hrun
    · rw [hrun] at hfail
      cases hfail
  intro s hs hwidth
  cases hrun : m.run s with
  | ok a t =>
    obtain ⟨lines, hrun', hP⟩ := h.ok hs hwidth hrun
    rw [hok hrun]
    exact ⟨lines, { hrun' with settled := fun b hsettles => hok (hrun'.settled b hsettles) }, hP⟩
  | error d t =>
    have hblames := h.blames hs hwidth hrun
    rcases hsame s with heq | ⟨d', u, u', hfail, hfail'⟩
    · rw [heq, hrun]
      exact hblames
    · rw [hrun] at hfail
      cases hfail
      rw [hfail']
      exact hblames

theorem perform {c : Change} {P : Unit → List String → Prop} (hc : c.IsQuiet)
    (hplace : ∀ s, s.place = p → (c.apply s).place = q) (h : P () []) :
    Drafts ed p (perform c) [] q P := by
  intro s hs _
  refine ⟨[], ⟨hplace s hs, hc.width s, ?_, ?_, fun b _ => ?_⟩, fun _ => h⟩
  · simp [hc.lines s]
  · rw [hc.binder_apply]
    rfl
  · exact congrArg (EStateM.Result.ok _) (hc.binder s b)

/-- A change after an action, whatever becomes of it. -/
theorem ensuring {m : Lowering α} {c : Change} (hc : c.IsQuiet)
    (hplace : ∀ s, s.place = q → (c.apply s).place = r)
    (hm : Drafts ed p m refs q P) : Drafts ed p (ensuring [c] m) refs r P := by
  intro s hs hwidth
  rw [run_ensuring]
  cases hresult : m.run s with
  | error d t => exact hm.blames hs hwidth hresult
  | ok a t =>
    obtain ⟨lines, hrun, hP⟩ := hm.ok hs hwidth hresult
    have hbinder : (Change.applyAll [c] t).binder = t.binder := hc.binder_apply t
    refine ⟨lines, ⟨hplace t hrun.place, (hc.width t).trans hrun.width, ?_, ?_, ?_⟩, ?_⟩
    · exact (congrArg Array.toList (hc.lines t)).trans hrun.lines
    · rw [hbinder]
      exact hrun.scheduled
    · intro b hsettles
      rw [hbinder] at hsettles
      rw [run_ensuring, hrun.settled b hsettles]
      exact congrArg (EStateM.Result.ok a) (hc.binder t b)
    · rw [hbinder]
      exact hP

/-- An action between two changes. -/
theorem between {m : Lowering α} {c c' : Change} {q' : Place} (hc : c.IsQuiet) (hc' : c'.IsQuiet)
    (henter : ∀ s, s.place = p → (c.apply s).place = q)
    (hleave : ∀ s, s.place = q' → (c'.apply s).place = r)
    (hm : Drafts ed q m refs q' P) :
    Drafts ed p (Lowering.perform c >>= fun _ => Lowering.ensuring [c'] m) refs r P := by
  have hfirst : Drafts ed p (Lowering.perform c) [] q fun _ lines => lines = [] :=
    .perform hc henter rfl
  refine hfirst.bind fun _ => (hm.ensuring hc' hleave).weaken fun a later hP lines hlines => ?_
  rw [hlines]
  exact hP

theorem inFrame {m : Lowering α} (q : Place) (hpop : q.scopes.pop = p.scopes)
    (hm : Drafts ed (p.inFrame []) m refs q P) :
    Drafts ed p (inFrame m) refs { q with scopes := p.scopes } P := by
  refine .between ⟨fun _ => rfl, fun _ => rfl, fun _ _ => rfl⟩
    ⟨fun _ => rfl, fun _ => rfl, fun _ _ => rfl⟩
    ?_ ?_ hm
  · rintro s rfl
    rfl
  · rintro s rfl
    rw [← hpop]
    rfl

theorem nested {m : Lowering α}
    (hm : Drafts ed { p with nesting := p.nesting + 1 } m refs
    { p with nesting := p.nesting + 1 } P) : Drafts ed p (nested m) refs p P := by
  refine .between ⟨fun _ => rfl, fun _ => rfl, fun _ _ => rfl⟩
    ⟨fun _ => rfl, fun _ => rfl, fun _ _ => rfl⟩ ?_ ?_ hm
  · rintro s rfl
    rfl
  · intro s hs
    have hleft :
        (Change.leaveDict.apply s).place = { s.place with nesting := s.place.nesting - 1 } := rfl
    rw [hleft, hs]
    rfl

theorem inClass {m : Lowering Unit} {P : Unit → List String → Prop} {className : Option String}
    (hm : Drafts ed { p with className := className } m refs q P) :
    Drafts ed p (inClass className m) refs { q with className := p.className } P := by
  refine .reading (fun _ _ _ => rfl) fun s hs _ => ?_
  refine .between ⟨fun _ => rfl, fun _ => rfl, fun _ _ => rfl⟩
    ⟨fun _ => rfl, fun _ => rfl, fun _ _ => rfl⟩ ?_ ?_ hm
  · rintro s rfl
    rfl
  · rintro t rfl
    rw [← hs]
    rfl

end Drafts

/-! ## Actions that write nothing -/

/-- The action gives a result as described and writes nothing. -/
abbrev Shows (ed : Edition) (p : Place) (m : Lowering α) (refs : List Reference) (q : Place)
    (P : α → Prop) : Prop :=
  Drafts ed p m refs q fun a lines => lines = [] ∧ P a

namespace Shows

variable {P : α → Prop} {Q : β → Prop}

theorem pure {a : α} (h : P a) : Shows ed p (pure a) [] p P := Drafts.pure ⟨rfl, h⟩

theorem before {m : Lowering α} {f : α → Lowering β} {Q : β → List String → Prop}
    (hm : Shows ed p m refs q P)
    (hf : ∀ a, Drafts ed q (f a) more r fun b lines => P a → Q b lines) :
    Drafts ed p (m >>= f) (refs ++ more) r Q := by
  refine Drafts.bind hm fun a => (hf a).weaken ?_
  rintro b later hQ _ ⟨rfl, hP⟩
  exact hQ hP

theorem bind {m : Lowering α} {f : α → Lowering β} (hm : Shows ed p m refs q P)
    (hf : ∀ a, Shows ed q (f a) more r fun b => P a → Q b) :
    Shows ed p (m >>= f) (refs ++ more) r Q :=
  hm.before fun a => (hf a).weaken fun _ _ hQ hP => ⟨hQ.1, hQ.2 hP⟩

theorem returning {m : Lowering α} {f : α → β} (hm : Shows ed p m refs q P)
    (h : ∀ a, P a → Q (f a)) : Shows ed p (m >>= fun a => Pure.pure (f a)) refs q Q :=
  Drafts.cast (hm.bind fun a => pure (h a)) (List.append_nil refs)

theorem last {m : Lowering α} {f : α → Lowering β} (hm : Shows ed p m refs q P)
    (hf : ∀ a, Shows ed q (f a) [] r fun b => P a → Q b) : Shows ed p (m >>= f) refs r Q :=
  Drafts.cast (hm.bind hf) (List.append_nil refs)

theorem after {m : Lowering α} {f : α → Lowering β} (hm : Shows ed p m [] q P)
    (hf : ∀ a, Shows ed q (f a) refs r Q) : Shows ed p (m >>= f) refs r Q :=
  hm.bind fun a => Drafts.weaken (hf a) fun _ _ hQ => ⟨hQ.1, fun _ => hQ.2⟩

theorem weaken {m : Lowering α} {P' : α → Prop} (hm : Shows ed p m refs q P) (h : ∀ a, P a → P' a) :
    Shows ed p m refs q P' :=
  Drafts.weaken hm fun a _ hP => ⟨hP.1, h a hP.2⟩

end Shows

/-! ## Actions that write lines -/

/-- What the action lowers is accepted by `B`, and if `A` holds, the lines that it writes have the
text of the spans. -/
abbrev Emits (ed : Edition) (A : Prop) (p : Place) (m : Lowering Unit) (refs : List Reference)
    (q : Place)
    (spans : Spans) (B : Prop) : Prop :=
  Drafts ed p m refs q fun _ lines => B ∧ (A → spans.Prints ed (linesText lines))

namespace Emits

variable {A B C : Prop} {m m' : Lowering Unit} {xs ys : Spans}

theorem nothing :
    Emits ed A p (Pure.pure ()) [] p [] True :=
    Drafts.pure ⟨trivial, fun _ => by simp [Spans.Prints]⟩

theorem cast (h : Emits ed A p m refs q xs B) (hrefs : refs = more) (hq : q = r) (hxs : xs = ys) :
    Emits ed A p m more r ys B := hrefs ▸ hq ▸ hxs ▸ h

/-- Of what is accepted only a part may matter. -/
theorem accepting (h : Emits ed A p m refs q xs B) (hC : B → C) : Emits ed A p m refs q xs C :=
  h.weaken fun _ _ hlines => ⟨hC hlines.1, hlines.2⟩

theorem andThen (h : Emits ed A p m refs q xs B) (h' : Emits ed A q m' more r ys C) :
    Emits ed A p (m >>= fun _ => m') (refs ++ more) r (xs ++ ys) (B ∧ C) := by
  refine Drafts.bind h fun _ => h'.weaken ?_
  intro _ later hlater lines hlines
  refine ⟨⟨hlines.1, hlater.1⟩, fun hA => ?_⟩
  rw [linesText_append]
  exact (hlines.2 hA).append (hlater.2 hA)

/-- An action after one that meets no references. -/
theorem first (h : Emits ed A p m [] q xs True) (h' : Emits ed A q m' more r ys C) :
    Emits ed A p (m >>= fun _ => m') more r (xs ++ ys) C := (h.andThen h').accepting And.right

/-- An action that writes nothing, before another one. -/
theorem afterShows {P : α → Prop} {m : Lowering α} {f : α → Lowering Unit}
    (hm : Shows ed p m refs q P)
    (hf : ∀ a, Emits ed (A ∧ P a) q (f a) more r xs B) :
    Emits ed A p (m >>= f) (refs ++ more) r xs B :=
  hm.before fun a => (hf a).weaken fun _ _ h hP => ⟨h.1, fun hA => h.2 ⟨hA, hP⟩⟩

theorem write {text : String} (h : A → xs.Prints ed text) :
    Emits ed A p (write text) [] p (Spans.line p.depth xs) True := by
  rintro s rfl hwidth
  refine ⟨[s.buffer.indentation ++ text],
    ⟨rfl, rfl, by simp [Change.apply, Buffer.write], rfl, fun _ _ => rfl⟩, ?_⟩
  refine fun _ => ⟨trivial, fun hA => ?_⟩
  have hline := Spans.prints_line s.buffer.depth (h hA)
  rw [← hwidth] at hline
  exact hline

theorem last (h : Emits ed A p m refs q xs B) (h' : Emits ed A q m' [] r ys True) :
    Emits ed A p (m >>= fun _ => m') refs r (xs ++ ys) B :=
  ((h.andThen h').cast (List.append_nil refs) rfl rfl).accepting And.left

theorem indented (h : Emits ed A p.deeper m refs q.deeper xs B) :
    Emits ed A p (indented m) refs q xs B := by
  have henter : Shows ed p (Lowering.perform .indent) [] p.deeper fun _ => True := by
    refine .perform ⟨fun _ => rfl, fun _ => rfl, fun _ _ => rfl⟩ ?_ ⟨rfl, trivial⟩
    rintro s rfl
    rfl
  have hleave : Emits ed A q.deeper (Lowering.perform .dedent) [] q [] True := by
    refine .perform ⟨fun _ => rfl, fun _ => rfl, fun _ _ => rfl⟩ ?_
      ⟨trivial, fun _ => by simp [Spans.Prints]⟩
    intro s hs
    have hleft : (Change.dedent.apply s).place = { s.place with depth := s.place.depth - 1 } := rfl
    rw [hleft, hs]
    rfl
  refine henter.before fun _ => ((h.last hleave).cast rfl rfl (List.append_nil xs)).weaken ?_
  exact fun _ _ h _ => h

/-- The closer stands at the depth from before. -/
theorem enclosed {closer : String} (h : Emits ed A p.deeper m refs q.deeper xs B) :
    Emits ed A p (enclosed closer m) refs q (xs ++ Spans.textLine q.depth closer) B := by
  have hwritten : Emits ed A q (Lowering.write closer) [] q (Spans.textLine q.depth closer) True :=
    write fun _ => by simp [Spans.Prints]
  refine ((indented h).last hwritten).of_run fun s => ?_
  rw [enclosed_run, run_bind, indented_run]
  cases m.run { s with buffer := s.buffer.indent } with
  | ok a t => exact .inl rfl
  | error d t => exact .inr ⟨d, t, _, rfl, rfl⟩

theorem reserving {text : String} (htext : A → xs.Prints ed text) (h : Emits ed A p m refs q ys B) :
    Emits ed A p (reserving text m) refs q (Spans.line p.depth xs ++ ys) B := by
  rintro s rfl hwidth
  rw [reserving_run]
  cases hinner : m.run { s with buffer := s.buffer.reserve.2 } with
  | error d u => exact h.blames (s := { s with buffer := s.buffer.reserve.2 }) rfl hwidth hinner
  | ok a u =>
    obtain ⟨lines, hrun, hlines⟩ :=
      h.ok (s := { s with buffer := s.buffer.reserve.2 }) rfl hwidth hinner
    have hbuffer : u.buffer.width = s.buffer.width := hrun.width
    refine ⟨(s.buffer.indentation ++ text) :: lines,
      ⟨hrun.place, hrun.width, ?_, hrun.scheduled, ?_⟩, ?_⟩
    · have hinnerLines : u.buffer.lines.toList = s.buffer.lines.toList ++ none ::
        lines.map some := by
        simpa [Buffer.reserve] using hrun.lines
      simp [Buffer.patch, Buffer.reserve, hinnerLines, Buffer.indentation,
        Buffer.indentationAt, hbuffer]
    · intro b hsettles
      rw [reserving_run, hrun.settled b hsettles]
    · refine fun hnamed => ⟨(hlines hnamed).1, fun hA => ?_⟩
      have hline := Spans.prints_line s.buffer.depth (htext hA)
      rw [← hwidth] at hline
      rw [← List.singleton_append, linesText_append]
      exact hline.append ((hlines hnamed).2 hA)

end Emits

end Lowering

end ScriptCompiler
