import ScriptCompiler.Proofs.Calls
import ScriptCompiler.Proofs.Parts
import ScriptCompiler.Proofs.Spots

/-!
# Contents of drafts

What a draft is put together from: copies of other drafts, each inside the functions that are around
it, the functions that are called outside of the copies, and the spots that its landmarks come from.
Where drafts are put together, so are their contents. From the contents of a draft it follows that
its copies stand in it, how often functions are called in it, and what its landmarks are.
-/

namespace ScriptCompiler

open Spans (Inside)

/-- A copy of a draft, with the functions around it from the innermost one on. -/
structure Copy where
  around : List Enclosing
  spans : Spans

def Copy.within (f : Enclosing) (c : Copy) : Copy := ⟨c.around ++ [f], c.spans⟩

structure Contents where
  copies : List Copy
  called : List Mention
  spots : List Spot

namespace Contents

def empty : Contents := ⟨[], [], []⟩

def ofSpots (spots : List Spot) : Contents := ⟨[], [], spots⟩

instance : Append Contents :=
  ⟨fun c d => ⟨c.copies ++ d.copies, c.called ++ d.called, c.spots ++ d.spots⟩⟩

def flatten (cs : List Contents) :
    Contents := ⟨cs.flatMap (·.copies), cs.flatMap (·.called), cs.flatMap (·.spots)⟩

/-- The number of calls of certain functions. -/
def callCount (q : Mention → Bool) (c : Contents) : Nat :=
  c.called.countP q + (c.copies.map fun copy => copy.spans.callCount q).sum

variable (c d : Contents)

@[simp] theorem mk_append (copies copies' : List Copy) (called called' : List Mention)
    (spots spots' : List Spot) : Contents.mk copies called spots ++ ⟨copies', called', spots'⟩ =
      ⟨copies ++ copies', called ++ called', spots ++ spots'⟩ := rfl

@[simp] theorem append_empty : c ++ empty = c := by
  obtain ⟨copies, called, spots⟩ := c
  simp [empty]

@[simp] theorem empty_append : empty ++ c = c := rfl

@[simp] theorem flatten_nil : flatten [] = empty := rfl

@[simp] theorem flatten_cons (cs : List Contents) : flatten (c :: cs) = c ++ flatten cs := rfl

theorem callCount_append (q : Mention → Bool) :
    (c ++ d).callCount q = c.callCount q + d.callCount q := by
  show (c.called ++ d.called).countP q +
    ((c.copies ++ d.copies).map fun copy => copy.spans.callCount q).sum = _
  rw [List.countP_append, List.map_append, List.sum_append, callCount, callCount]
  omega

end Contents

def copiesOf (cs : List Part) : List Copy := cs.flatMap fun c => c.copies.map (⟨·, c.spans⟩)

section Copies

variable (p : Place)

@[simp] theorem copiesOf_nil : copiesOf [] = [] := rfl

@[simp] theorem copiesOf_append (cs ds : List Part) :
    copiesOf (cs ++ ds) = copiesOf cs ++ copiesOf ds :=
  List.flatMap_append

theorem copiesOf_cons (c : Part) (cs : List Part) :
    copiesOf (c :: cs) = c.copies.map (⟨·, c.spans⟩) ++ copiesOf cs := rfl

@[simp] theorem copiesOf_part (e : Expr) (cs : List Part) :
    copiesOf (e.part p :: cs) = ⟨[], (e.draft p).spans⟩ :: copiesOf cs := rfl

@[simp] theorem copiesOf_partIn (f : Enclosing) (e : Expr) (cs : List Part) :
    copiesOf (e.partIn f p :: cs) = ⟨[f], (e.draft p).spans⟩ :: copiesOf cs := rfl

@[simp] theorem copiesOf_map_part (es : List Expr) :
    copiesOf (es.map (·.part p)) = es.map fun e => ⟨[], (e.draft p).spans⟩ := by
  induction es with
  | nil => rfl
  | cons e rest ih => rw [List.map_cons, copiesOf_part, ih, List.map_cons]

@[simp] theorem copiesOf_map_partIn (f : Enclosing) (es : List Expr) :
    copiesOf (es.map (·.partIn f p)) = es.map fun e => ⟨[f], (e.draft p).spans⟩ := by
  induction es with
  | nil => rfl
  | cons e rest ih => rw [List.map_cons, copiesOf_partIn, ih, List.map_cons]

/-- Expressions that are not written. -/
@[simp] theorem copiesOf_map_unwritten (es : List Expr) :
    copiesOf (es.map (⟨.expression ·, p, []⟩)) = [] := by
  simp [copiesOf]

end Copies

/-! ## Spans and their contents -/

/-- What spans are part of. -/
inductive Layer where
  | statement
  /-- A function in an expression. It introduces names, but has no header. -/
  | function
  /-- An expression outside of the functions in it. It introduces no names. -/
  | expression
deriving DecidableEq, Repr

namespace Spans

/-- Spans in a layer have certain contents. Their landmarks do not depend on what stands before them
in their line. Calls are told apart only under a condition. -/
structure MadeOf (A : Prop) (l : Layer) (xs : Spans) (c : Contents) : Prop where
  inside : ∀ copy ∈ c.copies, Inside copy.around copy.spans xs
  calls : A → ∀ q, callCount q xs = c.callCount q
  landmarks : ∀ line, landmarksFrom line xs = spotLandmarks c.spots
  bare : l = .expression → introduced xs = []
  headless : l ≠ .statement → spotHeadings c.spots = []

def IsPlain (t : String) : Prop := t ≠ Script.awaitMark ∧ opensArguments t = false

instance (t : String) : Decidable (IsPlain t) := inferInstanceAs (Decidable (_ ∧ _))

theorem isPlain_spaced (t : String) : IsPlain (" " ++ t) :=
  ⟨ne_awaitMark_of_start (by decide) t, opensArguments_spaced t⟩

/-- No call is begun in spans and completed in others. -/
def Apart (xs ys : Spans) : Prop := ∀ q, callCount q (xs ++ ys) = callCount q xs + callCount q ys

namespace Apart

variable {xs ys : Spans}

theorem settled (h : Settled xs) : Apart xs ys := fun q => callCount_append_of_settled q ys h

theorem fresh (h : Fresh ys) : Apart xs ys := fun q => callCount_append q xs h

theorem text {t : String} (h : opensArguments t = false) :
    Apart xs (.text t :: ys) := fresh (.text h ys)

theorem dotted (key : String) : Apart xs [.text ("." ++ key)] := by
  intro q
  have hne : ∀ u : String, u.toList.head? ≠ some '.' → "." ++ key ≠ u := by
    rintro u hu rfl
    exact hu (by simp)
  have hopened : ∀ st : Pending, st.opened (.text ("." ++ key)) = [] := by
    intro st
    cases st <;> simp [Pending.opened, hne "(" (by decide), hne "[" (by decide)]
  rw [callCount_text, callCount_nil, callCount, calls, Pending.calls_append, Pending.calls_cons,
    Pending.calls_nil, hopened]
  simp [Span.calls, callCount, calls]

end Apart

namespace MadeOf

variable {A B : Prop} {l : Layer} {xs ys zs : Spans} {c d : Contents} {xss : List Spans}
  {cs : List Contents}
  {s : Span} {t : String}

theorem nil : MadeOf A l [] .empty where
  inside := nofun
  calls _ q := callCount_nil q
  landmarks line := by rw [landmarksFrom_nil, Contents.empty, spotLandmarks_nil]
  bare _ := introduced_nil
  headless _ := spotHeadings_nil

theorem append (h : MadeOf A l xs c) (h' : MadeOf A l ys d) (hapart : A → Apart xs ys) :
    MadeOf A l (xs ++ ys) (c ++ d) where
  inside copy hcopy := by
    rcases List.mem_append.mp hcopy with hcopy | hcopy
    · exact (h.inside copy hcopy).left ys
    · exact (h'.inside copy hcopy).right xs
  calls hA q := by rw [hapart hA, h.calls hA, h'.calls hA, Contents.callCount_append]
  landmarks line := by
    rw [landmarksFrom_append, h.landmarks, h'.landmarks]
    exact (spotLandmarks_append c.spots d.spots).symm
  bare hl := by rw [introduced_append, h.bare hl, h'.bare hl, List.append_nil]
  headless hl := by
    show spotHeadings (c.spots ++ d.spots) = []
    rw [spotHeadings_append, h.headless hl, h'.headless hl, List.append_nil]

theorem below (h : MadeOf A l xs c) (h' : MadeOf A l ys d) (hys : Fresh ys) :
    MadeOf A l (xs ++ ys) (c ++ d) :=
  h.append h' fun _ => .fresh hys

theorem congr (h : MadeOf A l xs c) (hc : c = d) : MadeOf A l xs d := hc ▸ h

/-- The order of the copies does not matter. -/
theorem reorder (h : MadeOf A l xs c) (hcopies : c.copies.Perm d.copies)
    (hcalled : c.called = d.called)
    (hspots : c.spots = d.spots) : MadeOf A l xs d where
  inside copy hcopy := h.inside copy (hcopies.mem_iff.mpr hcopy)
  calls hA q := by
    rw [h.calls hA, Contents.callCount, Contents.callCount, hcalled, (hcopies.map _).sum_eq]
  landmarks := hspots ▸ h.landmarks
  bare := h.bare
  headless := hspots ▸ h.headless

/-- Spans as a copy of themselves. An expression may stand in statements and in functions. -/
theorem hole {inner : Layer} (hinner : inner = .expression ∨ l = .statement)
    (h : MadeOf B inner xs c) : MadeOf A l xs ⟨[⟨[], xs⟩], [], c.spots⟩ where
  inside copy hcopy := by
    obtain rfl := List.mem_singleton.mp hcopy
    exact .refl xs
  calls _ q := by simp [Contents.callCount]
  landmarks := h.landmarks
  bare hl := h.bare (hinner.resolve_right (hl ▸ nofun))
  headless hl := h.headless (hinner.resolve_right hl ▸ nofun)

/-- A span that is neither a landmark nor part of a call. -/
theorem skip (hmark : ∀ line, s.landmarks line = [])
    (hcalls : ∀ q, callCount q (s :: xs) = callCount q xs)
    (hbare : l = .expression → s.introduced = []) (h : MadeOf A l xs c) :
    MadeOf A l (s :: xs) c where
  inside copy hcopy := (h.inside copy hcopy).cons s
  calls hA q := (hcalls q).trans (h.calls hA q)
  landmarks line := by rw [landmarksFrom_cons, hmark, h.landmarks, List.nil_append]
  bare hl := by rw [introduced, hbare hl, h.bare hl, List.append_nil]
  headless := h.headless

theorem margin (depth : Nat) (h : MadeOf A l xs c) : MadeOf A l (.margin depth :: xs) c :=
  h.skip (fun _ => by rw [Span.landmarks]) (callCount_margin · xs depth) fun _ => by
    rw [Span.introduced]

theorem introduction (hl : l ≠ .expression) (i : Introduction) (h : MadeOf A l xs c) :
    MadeOf A l (.introduction i :: xs) c :=
  h.skip (fun _ => by rw [Span.landmarks]) (callCount_introduction · xs i) fun heq => absurd heq hl

theorem mention (m : Mention) : MadeOf A l [.mention m] .empty :=
  nil.skip (fun _ => by rw [Span.landmarks]) (by simp) fun _ => by rw [Span.introduced]

theorem text (ht : t ≠ Script.awaitMark) (h : MadeOf A l xs c) : MadeOf A l (.text t :: xs) c :=
  h.skip (fun _ => by rw [Span.landmarks, if_neg ht]) (callCount_text · xs t) fun _ => by
    rw [Span.introduced]

/-- A text that reads like the beginning of an await. -/
theorem mark {spot : Spot} (hspot : spot.landmark = .await) (hheadings : spot.headings = [])
    (h : MadeOf A l xs c) : MadeOf A l (.text Script.awaitMark :: xs) (.ofSpots [spot] ++ c) where
  inside copy hcopy := (h.inside copy hcopy).cons _
  calls hA q := by
    rw [callCount_text, h.calls hA, Contents.callCount_append]; simp [Contents.ofSpots,
      Contents.callCount]
  landmarks line := by
    rw [landmarksFrom_cons, h.landmarks, Span.landmarks, ← hspot]
    exact (spotLandmarks_cons spot c.spots).symm
  bare hl := by rw [introduced_text, h.bare hl]
  headless hl := by
    show spotHeadings (spot :: c.spots) = []
    rw [spotHeadings_cons, hheadings, h.headless hl, List.append_nil]

theorem await (h : MadeOf A l xs c) :
    MadeOf A l (.text Script.awaitMark :: xs) (.ofSpots [.await] ++ c) :=
  h.mark (by rw [Spot.landmark]) (by rw [Spot.headings])

theorem literal (t : String) (h : MadeOf A l xs c) :
    MadeOf A l (.text t :: xs) (.ofSpots (literalSpots t) ++ c) := by
  unfold literalSpots
  split_ifs with ht
  · rw [ht]
    exact h.mark (by rw [Spot.landmark]) (by rw [Spot.headings])
  · exact h.text ht

theorem singleLiteral (t : String) : MadeOf A l [.text t] (.ofSpots (literalSpots t)) := by
  have hliteral := (nil (A := A) (l := l)).literal t
  rwa [Contents.append_empty] at hliteral

theorem guarded (h : MadeOf A l xs c) : MadeOf A l [.guarded xs] c where
  inside copy hcopy := .guarded [] [] (h.inside copy hcopy)
  calls hA q := by rw [callCount_guarded, h.calls hA, callCount_nil, Nat.add_zero]
  landmarks line := by
    rw [landmarksFrom_cons, landmarksFrom_nil, Span.landmarks, h.landmarks, List.append_nil]
  bare hl := by rw [introduced_guarded, h.bare hl, introduced_nil, List.append_nil]
  headless := h.headless

/-- A function behind the head that it is introduced with. In an expression it has no header. -/
theorem function {before after : Spans} {f : Enclosing} (hf : f.Written before after) {w : Wrapper}
    {inner : Layer}
    {copies : List Copy} {called : List Mention} {as bs ds : List Spot}
    (hbefore : MadeOf A l before (.ofSpots ds))
    (hw : l ≠ .statement → inner ≠ .statement ∧ (Spot.function w as bs).headings =
    spotHeadings as ++ spotHeadings bs)
    (hopening : ∀ line, opening (before.foldl Span.lineBehind line) f.inner = w.opening)
    (hinner : MadeOf A inner f.inner ⟨copies, called, as ++ bs⟩)
    (hafter : MadeOf A l after .empty) : MadeOf A l (before ++ .function f.inner :: after)
      ⟨copies.map (·.within f), called, ds ++ [.function w as bs]⟩ where
  inside copy hcopy := by
    obtain ⟨copy, hmem, rfl⟩ := List.mem_map.mp hcopy
    exact .function hf (hinner.inside copy hmem)
  calls hA q := by
    rw [callCount_append q before (.function _ _), hbefore.calls hA, callCount_function,
      hinner.calls hA, hafter.calls hA]
    simp [Contents.callCount, Contents.ofSpots, Contents.empty, Copy.within, Function.comp_def]
  landmarks line := by
    rw [landmarksFrom_append, hbefore.landmarks, landmarksFrom_cons, hafter.landmarks,
      Span.landmarks, hinner.landmarks,
      hopening, spotLandmarks_append, spotLandmarks_append, spotLandmarks_cons, Spot.landmark]
    rfl
  bare hl := by
    rw [introduced_append, introduced_function, hbefore.bare hl, hafter.bare hl, List.append_nil]
  headless hl := by
    have hhead : spotHeadings ds = [] := hbefore.headless hl
    rw [spotHeadings_append, spotHeadings_cons, hhead, (hw hl).2, ← spotHeadings_append,
      hinner.headless (hw hl).1, spotHeadings_nil]
    rfl

theorem applied (h : MadeOf A l xs c) (h' : MadeOf A l ys d)
    (ht : zs = [.text "("] ∨ zs = [.text ".args(", .text "["]) :
    MadeOf A l (xs ++ (zs ++ ys)) (c ++ (⟨[], (Pending.idle.after xs).callee, []⟩ ++ d)) := by
  have hzs : MadeOf A l (zs ++ ys) d := by
    rcases ht with rfl | rfl
    · exact h'.text (by decide)
    · exact (h'.text (by decide)).text (by decide)
  have hopened : ∀ (st : Pending) (q : Mention → Bool),
      (st.calls (zs ++ ys)).countP q = st.callee.countP q + callCount q ys := by
    intro st q
    rcases ht with rfl | rfl
    · simp only [List.cons_append, List.nil_append, Pending.calls_cons, List.countP_append]
      cases st <;> simp [Span.calls, Pending.opened, Pending.next, Pending.callee, callCount,
        Spans.calls]
    · simp only [List.cons_append, List.nil_append, Pending.calls_cons, List.countP_append]
      cases st <;> simp [Span.calls, Pending.opened, Pending.next, Pending.callee, callCount,
        Spans.calls]
  refine ⟨fun copy hcopy => ?_, fun hA q => ?_, fun line => ?_, fun hl => ?_, fun hl => ?_⟩
  · rcases List.mem_append.mp hcopy with hcopy | hcopy
    · exact (h.inside copy hcopy).left _
    · exact (hzs.inside copy hcopy).right xs
  · have hcalls := h'.calls hA q
    rw [callCount, Spans.calls, Pending.calls_append, List.countP_append, hopened, hcalls,
      Contents.callCount_append,
      Contents.callCount_append, ← h.calls hA]
    rfl
  · rw [landmarksFrom_append, h.landmarks, hzs.landmarks]
    exact (spotLandmarks_append c.spots d.spots).symm
  · rw [introduced_append, h.bare hl, hzs.bare hl, List.append_nil]
  · show spotHeadings (c.spots ++ d.spots) = []
    rw [spotHeadings_append, h.headless hl, h'.headless hl, List.append_nil]

/-! ### What spans are put together to -/

theorem ended (ht : t ≠ Script.awaitMark) (hapart : A → Apart xs [.text t]) (h : MadeOf A l xs c) :
    MadeOf A l (xs ++ [.text t]) c := by
  have happended := h.append (nil.text ht) hapart
  rwa [Contents.append_empty] at happended

theorem before (ht : IsPlain t) (h : MadeOf A l xs c) : MadeOf A l (xs ++ [.text t]) c :=
  h.ended ht.1 fun _ => .text ht.2

theorem dotted (key : String) (h : MadeOf A l xs c) : MadeOf A l (xs ++ [.text ("." ++ key)]) c :=
  h.ended (ne_awaitMark_of_start (by decide) key) fun _ => .dotted key

/-- Spans with a text between them. -/
theorem separated (ht : IsPlain t) (h : MadeOf A l xs c) (h' : MadeOf A l ys d) :
    MadeOf A l (xs ++ .text t :: ys) (c ++ d) :=
  h.append (h'.text ht.1) fun _ => .text ht.2

theorem between {u : String} (ht : t ≠ Script.awaitMark) (hu : IsPlain u) (h : MadeOf A l xs c) :
    MadeOf A l (.text t :: xs ++ [.text u]) c :=
  (h.before hu).text ht

theorem parens (h : MadeOf A l xs c) : MadeOf A l (parens xs) c := h.between (by decide) (by decide)

theorem braces (h : MadeOf A l xs c) : MadeOf A l (braces xs) c := h.between (by decide) (by decide)

theorem brackets (h : MadeOf A l xs c) :
    MadeOf A l (brackets xs) c := h.between (by decide) (by decide)

theorem template (h : MadeOf A l xs c) :
    MadeOf A l (template xs) c := h.between (by decide) (by decide)

theorem line (depth : Nat) (h : MadeOf A l xs c) :
    MadeOf A l (line depth xs) c := (h.before (by decide)).margin depth

theorem textLine (depth : Nat) (ht : t ≠ Script.awaitMark) : MadeOf A l (textLine depth t) .empty :=
  (nil.text ht).line depth

theorem grouped (kind : NodeKind) (h : MadeOf A l xs c) : MadeOf A l (grouped kind xs) c := by
  unfold Spans.grouped
  split_ifs
  · exact h.parens
  · exact h

theorem receiver (kind : NodeKind) (h : MadeOf A l xs c) :
    MadeOf A l (receiver kind xs) c := (h.grouped kind).guarded

theorem propertyKey (isLiteral : Bool) (h : MadeOf A l xs c) :
    MadeOf A l (propertyKey isLiteral xs) c := by
  unfold Spans.propertyKey
  split_ifs
  · exact h
  · exact h.brackets

theorem flatten (h : List.Forall₂ (MadeOf A l) xss cs)
    (hapart : (∀ xs ∈ xss, Settled xs) ∨ ∀ xs ∈ xss, Fresh xs) :
    MadeOf A l xss.flatten (.flatten cs) := by
  induction h with
  | nil => exact nil
  | @cons xs c xss cs hfirst hrest ih =>
    refine hfirst.append (ih ?_) fun _ => ?_
    · exact hapart.imp (fun h xs hxs => h xs (List.mem_cons_of_mem _ hxs)) fun h xs hxs =>
        h xs (List.mem_cons_of_mem _ hxs)
    · rcases hapart with hsettled | hfresh
      · exact .settled (hsettled xs List.mem_cons_self)
      · exact .fresh (.flatten fun ys hys => hfresh ys (List.mem_cons_of_mem _ hys))

theorem intercalate {separator : Spans}
    (hseparator : ∀ {ys d}, MadeOf A l ys d → MadeOf A l (separator ++ ys) d)
    (hfresh : ∀ ys, Fresh (separator ++ ys)) (h : List.Forall₂ (MadeOf A l) xss cs) :
    MadeOf A l (separator.intercalate xss) (.flatten cs) := by
  induction h with
  | nil => exact nil
  | cons hfirst hrest ih =>
    cases hrest with
    | nil => simpa using hfirst
    | cons hsecond hrest =>
      exact hfirst.append (hseparator ih) fun _ => .fresh (hfresh _)

theorem commas (h : List.Forall₂ (MadeOf A l) xss cs) : MadeOf A l (commas xss) (.flatten cs) :=
  intercalate (fun h => h.text (by decide)) (fun ys => .text (by decide) ys) h

theorem names (hl : l ≠ .expression) {α : Type} (f : α → Introduction) (ids : List α) :
    MadeOf A l (Spans.commas (ids.map fun id => [.introduction (f id)])) .empty := by
  have hids : List.Forall₂ (MadeOf A l) (ids.map fun id => [.introduction (f id)])
      (ids.map fun _ => .empty) := by
    rw [List.forall₂_map_left_iff, List.forall₂_map_right_iff, List.forall₂_same]
    exact fun id _ => nil.introduction hl _
  have hempty : Contents.flatten (ids.map fun _ => .empty) = .empty := by
    induction ids with
    | nil => rfl
    | cons id rest ih => simp_all
  rw [← hempty]
  exact commas hids

theorem tall (depth : Nat) (h : List.Forall₂ (MadeOf A l) xss cs) :
    MadeOf A l (tall depth xss) (.flatten cs) := by
  have hentries :
      MadeOf A l ([Span.text ",\n", .margin (depth + 1)].intercalate xss) (.flatten cs) :=
    intercalate (fun h => (h.margin _).text (by decide)) (fun ys => .text (by decide) _) h
  have hclose : MadeOf A l [Span.text "\n", .margin depth, .text "\x7d"] .empty :=
    ((nil.text (by decide)).margin _).text (by decide)
  have htall := ((hentries.append hclose fun _ => .text (by decide)).margin (depth + 1)).text
      (t := "\x7b\n")
    (by decide)
  simpa [Spans.tall] using htall

end MadeOf

end Spans

/-! ## Parts of programs -/

namespace Phrase

def spots (p : Place) : Phrase → List Spot
  | .statement s => s.spots p
  | .expression e => e.spots p

def layer : Phrase → Layer
  | .statement _ => .statement
  | .expression _ => .expression

end Phrase

/-- A part as one copy of its draft. -/
def Part.hole (c : Part) : Contents := ⟨[⟨[], c.spans⟩], [], c.phrase.spots c.place⟩

/-- The landmarks of the draft of a part come from its spots. -/
def Part.Laid (c : Part) : Prop := c.spans.MadeOf True c.phrase.layer c.hole

abbrev Expr.hole (p : Place) (e : Expr) : Contents := (e.part p).hole

abbrev Expr.Laid (p : Place) (e : Expr) : Prop := (e.part p).Laid

section Laid

variable {A : Prop} {l : Layer} {p : Place} {e : Expr} {es : List Expr}

theorem Part.Laid.made {copies : List (List Enclosing)}
    (h : (Part.mk (.expression e) p copies).Laid) :
    (e.draft p).spans.MadeOf A l (e.hole p) :=
  Spans.MadeOf.hole (.inl rfl) h

theorem Expr.hole_eq (p : Place) (e : Expr) :
    e.hole p = ⟨[⟨[], (e.draft p).spans⟩], [], e.spots p⟩ := rfl

theorem made_values (h : ∀ e ∈ es, e.Laid p) :
    List.Forall₂ (Spans.MadeOf A l) (es.map fun e => (e.draft p).spans) (es.map (·.hole p)) := by
  rw [List.forall₂_map_left_iff, List.forall₂_map_right_iff, List.forall₂_same]
  exact fun e he => (h e he).made

@[simp] theorem flatten_map_hole (p : Place) (es : List Expr) :
    Contents.flatten (es.map (·.hole p)) =
    ⟨es.map fun e => ⟨[], (e.draft p).spans⟩, [], es.flatMap (·.spots p)⟩ := by
  induction es with
  | nil => rfl
  | cons e rest ih => rw [List.map_cons, Contents.flatten_cons, ih]; rfl

end Laid

end ScriptCompiler
