import ScriptCompiler.Proofs.Parametricity

/-!
# What composition keeps

A property of actions that putting them together keeps holds of the lowering of every expression,
statement and program whose names may be looked up and whose string tokens may be reported. The
binder is touched in two ways only, by asking whether a name is free and by resolving a name or a
chain of attributes.
-/

namespace ScriptCompiler

def Change.KeepsBinder : Change → Prop
  | .setBinder _ => False
  | _ => True

namespace Lowering

/-- A property of the actions that lowerings are put together from, which putting them together
keeps. -/
structure Assembles (P : ∀ {α : Type}, Lowering α → Prop) (known : String → Prop)
    (tokens : List String) : Prop where
  pure : ∀ {α : Type} (a : α), P (Pure.pure a : Lowering α)
  fail : ∀ {α : Type} {d : Diagnostic}, d.Reports tokens → P (Lowering.fail d : Lowering α)
  bind : ∀ {α β : Type} {m : Lowering α} {f : α → Lowering β}, P m → (∀ a, P (f a)) → P (m >>= f)
  /-- Looking at anything but the binder. -/
  reading : ∀ {α : Type} {f : LoweringState → Lowering α},
    (∀ s binder, f { s with binder := binder } = f s) →
    (∀ s, P (f s)) → P (get >>= f)
  isFree : ∀ {id : String}, known id → P (Lowering.isFree id)
  contextText? : ∀ {e : Expr}, (∀ id ∈ e.names, known id) → P (Lowering.contextText? e)
  write : ∀ line, P (Lowering.write line)
  register : ∀ name, P (Lowering.register name)
  temporary : ∀ stem, P (Lowering.temporary stem)
  indented : ∀ {inner : Lowering Unit}, P inner → P (Lowering.indented inner)
  enclosed : ∀ {closer : String} {inner : Lowering Unit}, P inner →
    P (Lowering.enclosed closer inner)
  reserving : ∀ {line : String} {inner : Lowering Unit}, P inner → P (Lowering.reserving line inner)
  inFrame : ∀ {α : Type} {inner : Lowering α}, P inner → P (Lowering.inFrame inner)
  nested : ∀ {α : Type} {inner : Lowering α}, P inner → P (Lowering.nested inner)
  inClass : ∀ {className : Option String} {inner : Lowering Unit}, P inner →
    P (Lowering.inClass className inner)

/-- A property relates an action to anything. -/
theorem Assembles.relates {P : ∀ {α : Type}, Lowering α → Prop} {known : String → Prop}
    {tokens : List String}
    (hP : Assembles @P known tokens) : Relates Eq (fun _ _ _ _ m _ => P m) known tokens where
  pure _ := hP.pure _
  fail := hP.fail
  bind h hf := hP.bind h fun a => hf a a (Std.Refl.refl a)
  reading hclass h := hP.reading (fun _ _ => hclass _ _ rfl) h
  write _ := hP.write _
  register := hP.register
  declare name := hP.reading (fun _ _ => rfl) fun _ => hP.bind (hP.register name) fun _ => hP.pure _
  temporary := hP.temporary
  inFrame := hP.inFrame
  nested := hP.nested
  inClass _ := hP.inClass
  indented := hP.indented
  enclosed := hP.enclosed
  reserving _ := hP.reserving
  arrow _ _ := hP.reading (fun _ _ => rfl) fun _ => hP.pure _
  tall _ := hP.reading (fun _ _ => rfl) fun _ => hP.pure _
  name pos id hid := by
    refine hP.reading (fun _ _ => rfl) fun s => ?_
    split_ifs
    · exact hP.pure _
    · refine hP.bind (hP.contextText? ?_) fun text => ?_
      · simpa [Expr.names] using hid
      · cases text <;> exact hP.pure _
  contextText? := hP.contextText?
  specialFunction? h := by
    rename_i e
    cases e with
    | name pos id =>
      refine hP.bind (hP.isFree (h id (by simp [Expr.names]))) fun free => ?_
      split_ifs <;> exact hP.pure _
    | _ => exact hP.pure _
  isConstructorMark h := by
    rename_i e
    cases e with
    | name pos id =>
      simp only [isConstructorMark]
      split_ifs
      · exact hP.isFree (h id (by simp [Expr.names]))
      · exact hP.pure _
    | _ => exact hP.pure _

/-! ## Properties that every change of the state has -/

/-- A property of actions that putting actions together keeps, and that looking up some names
has. -/
structure Composes (P : ∀ {α : Type}, Lowering α → Prop) (known : String → Prop) : Prop where
  pure : ∀ {α : Type} (a : α), P (Pure.pure a : Lowering α)
  fail : ∀ {α : Type} (d : Diagnostic), P (Lowering.fail d : Lowering α)
  bind : ∀ {α β : Type} {m : Lowering α} {f : α → Lowering β}, P m → (∀ a, P (f a)) → P (m >>= f)
  perform : ∀ {c : Change}, c.KeepsBinder → P (Lowering.perform c)
  ensuring : ∀ {α : Type} {changes : List Change} {m : Lowering α},
    (∀ c ∈ changes, c.KeepsBinder) → P m →
    P (Lowering.ensuring changes m)
  /-- Looking at anything but the binder. -/
  reading : ∀ {α : Type} {f : LoweringState → Lowering α},
    (∀ s binder, f { s with binder := binder } = f s) →
    (∀ s, P (f s)) → P (get >>= f)
  isFree : ∀ {id : String}, known id → P (Lowering.isFree id)
  contextText? : ∀ {e : Expr}, (∀ id ∈ e.names, known id) → P (Lowering.contextText? e)

section Changes

variable {P : ∀ {α : Type}, Lowering α → Prop} {known : String → Prop} (hP : Composes @P known)
include hP

theorem Composes.assembles (tokens : List String) : Assembles @P known tokens where
  pure := hP.pure
  fail _ := hP.fail _
  bind := hP.bind
  reading := hP.reading
  isFree := hP.isFree
  contextText? := hP.contextText?
  write _ := hP.perform trivial
  register _ := hP.perform trivial
  temporary _ := hP.reading (fun _ _ => rfl) fun _ => hP.bind (hP.perform trivial) fun _ =>
    hP.pure _
  indented h := hP.bind (hP.perform trivial) fun _ => hP.bind h fun _ => hP.perform trivial
  enclosed h := hP.bind (hP.perform trivial) fun _ => hP.ensuring (by simp [Change.KeepsBinder]) h
  reserving h := by
    have hreserve : P reserve := hP.reading (fun _ _ => rfl) fun _ =>
      hP.bind (hP.perform trivial) fun _ => hP.pure _
    exact hP.bind hreserve fun _ => hP.bind h fun _ => hP.perform trivial
  inFrame h := hP.bind (hP.perform trivial) fun _ => hP.ensuring (by simp [Change.KeepsBinder]) h
  nested h := hP.bind (hP.perform trivial) fun _ => hP.ensuring (by simp [Change.KeepsBinder]) h
  inClass h := hP.reading (fun _ _ => rfl) fun _ =>
    hP.bind (hP.perform trivial) fun _ => hP.ensuring (by simp [Change.KeepsBinder]) h

theorem composed_program {statements : List Stmt} (entry : EntryPoint)
    (h : ∀ id ∈ blockNames statements, known id) : P (program statements entry) :=
  related_program (n := 0) (k := 0) (hP.assembles _).relates entry
    ⟨h, List.Subset.refl (blockStrings statements)⟩

end Changes

end Lowering

end ScriptCompiler
