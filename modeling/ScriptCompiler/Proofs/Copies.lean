import ScriptCompiler.Proofs.SourceDraft
import ScriptCompiler.Proofs.StatementContents

/-!
# Copies of parts

Each copy of a part stands in the draft of the program, inside the functions that it is known by.
For the components of every form of expression and statement this follows from what its draft
consists of; for all parts it follows by induction.
-/

namespace ScriptCompiler

open Spans (Inside)

variable {p : Place} {xs ys zs : Spans} {c : Part} {e : Expr}

theorem Part.StandsIn.mono (h : c.StandsIn xs) (h' : Inside [] xs ys) : c.StandsIn ys := by
  intro around haround
  have hinside := (h around haround).trans h'
  rwa [List.append_nil] at hinside

theorem Spans.MadeOf.standsIn {A : Prop} {l : Layer} {cs : List Part} {called : List Mention}
    {spots : List Spot}
    (h : xs.MadeOf A l ⟨copiesOf cs, called, spots⟩) : ∀ c ∈ cs, c.StandsIn xs := by
  intro c hc around haround
  exact h.inside ⟨around, c.spans⟩ (List.mem_flatMap_of_mem hc (List.mem_map_of_mem haround))

theorem Expr.standsIn_component (p : Place) (x : Expr) :
    ∀ c ∈ x.components p, c.StandsIn (x.draft p).spans :=
  (x.made (A := False) (l := .expression) p).standsIn

theorem Phrase.standsIn_component (p : Place) (x : Phrase) :
    ∀ c ∈ x.components p, c.StandsIn (x.spans p) :=
  (x.made p False.elim).standsIn

variable {body : List Stmt}

/-- A block where the phrase around it is. -/
theorem standsIn_block (h : Inside [] (blockSpans p body) zs) :
    ∀ c ∈ blockParts p [[]] body, c.StandsIn zs := by
  intro c hc
  have hblock := made_block (A := False) fun c (_ : c ∈ blockParts p [[]] body) =>
    c.phrase.laid c.place c.copies
  exact (hblock.standsIn c hc).mono h

theorem WrittenFunction.standsIn_parts (f : WrittenFunction) (head : Spans) :
    ∀ c ∈ f.parts, c.StandsIn (f.spans head) := by
  intro c hc around haround
  have hcopy : (⟨around, c.spans⟩ : Copy) ∈ copiesOf f.parts :=
    List.mem_flatMap_of_mem hc (List.mem_map_of_mem haround)
  rw [f.copiesOf_parts] at hcopy
  obtain ⟨copy, hmem, hcopy⟩ := List.mem_map.mp hcopy
  have hinner := f.made_inner (A := False) fun c _ => c.phrase.laid c.place c.copies
  obtain ⟨rfl, hspans⟩ := Copy.mk.inj hcopy
  rw [spans_eq, ← hspans]
  exact .function (f := f.enclosing) (.block _ _ _ _) (hinner.inside copy hmem)

/-! ## Functions in drafts -/

theorem inside_arrow {depth : Nat} {formals : List Spans.Formal} {body : Spans}
    (h : Inside [] xs (Enclosing.lambda formals body).inner) :
    Inside [.lambda formals body] xs (Spans.arrow depth formals body) :=
  .function (.arrow [.text "\n", .margin (depth + 1)] _ _ [.text "\n", .margin depth]) h

theorem inside_generator {openings : List Spans} {value : Spans}
    (h : Inside [] xs (Enclosing.generator openings value).inner) :
    Inside [.generator openings value] xs (Spans.generator openings value) := by
  exact .function (.generator [] _ []) h

theorem exists_native_inside {f : WrittenFunction} (hf : f ∈ nativeFunctions p body) :
    ∃ head, Inside [] (f.spans head) (nativeSpans p body) := by
  fun_induction nativeFunctions p body with
  | case1 => cases hf
  | case2 p decorators pos isAsync namePos name parameters body rest hnative ih =>
    rw [nativeSpans, if_pos hnative]
    rcases List.mem_cons.mp hf with rfl | hf
    · rw [Spans.nativeMethod, splitReceiver_formalSpans]
      exact ⟨_, (Inside.refl _).left _⟩
    · obtain ⟨head, h⟩ := ih hf
      exact ⟨head, h.right _⟩
  | case3 p decorators pos isAsync namePos name parameters body rest hnative ih =>
    rw [nativeSpans, if_neg hnative]
    exact ih hf
  | case4 p s rest hother ih =>
    rw [nativeSpans]
    · exact ih hf
    · exact hother

/-! ## All parts -/

theorem Part.StandsIn.within {copies : List (List Enclosing)} (h : c.StandsIn xs)
    (hcopies : ∀ around ∈ copies, Inside around xs ys) : (c.within copies).StandsIn ys := by
  intro around haround
  obtain ⟨outer, houter, haround⟩ := List.mem_flatMap.mp haround
  obtain ⟨inner, hinner, rfl⟩ := List.mem_map.mp haround
  exact (h inner hinner).trans (hcopies outer houter)

/-- The copies of all parts of a phrase stand in its draft. -/
theorem Phrase.standsIn_parts (p : Place) (x : Phrase) :
    ∀ c ∈ x.parts p, c.StandsIn (x.spans p) := by
  induction hn : sizeOf x using Nat.strongRecOn generalizing x p with
  | _ n ih =>
    subst hn
    rw [parts_eq, List.forall_mem_cons]
    constructor
    · intro around haround
      obtain rfl := List.mem_singleton.mp haround
      exact .refl _
    · intro c hc
      obtain ⟨component, hcomponent, hc⟩ := List.mem_flatMap.mp hc
      obtain ⟨part, hpart, rfl⟩ := List.mem_map.mp hc
      have hinner :=
        ih _ (sizeOf_component hcomponent) component.place component.phrase rfl part hpart
      exact hinner.within (x.standsIn_component p component hcomponent)

/-- The copies of all parts of a program stand in its draft. -/
theorem standsIn_programParts (binding : Option Binding) (statements : List Stmt)
    (entry : EntryPoint) :
    ∀ c ∈ programParts binding statements entry, c.StandsIn
    (programSpans binding statements entry) := by
  intro c hc
  obtain ⟨component, hcomponent, hc⟩ := List.mem_flatMap.mp hc
  obtain ⟨part, hpart, rfl⟩ := List.mem_map.mp hc
  have hinner := component.phrase.standsIn_parts component.place part hpart
  exact hinner.within
    ((made_program (A := False) binding statements entry).standsIn component hcomponent)

/-! ## Texts of units and bundles -/

namespace SourceText

/-- Everything that the program of a source consists of. -/
def parts (t : SourceText) (binding : Option Binding) :
    List Part := programParts binding t.program t.entry

theorem standsIn_parts {t : SourceText} {binding : Option Binding} (hc : c ∈ t.parts binding) :
    c.StandsIn (t.spans binding) :=
  standsIn_programParts binding t.program t.entry c hc

end SourceText

end ScriptCompiler
