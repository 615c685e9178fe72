import ScriptCompiler.Proofs.SourceDraft
import ScriptCompiler.Proofs.Parts

/-!
# Parts of programs that are lowered

If nothing in a program is refused, then nothing in its parts is, each at its place.
-/

namespace ScriptCompiler

def Phrase.Accepted (p : Place) : Phrase → Prop
  | .statement s => s.Accepted p.inClass
  | .expression _ => True

def Part.Accepted (c : Part) : Prop := c.phrase.Accepted c.place

variable {p : Place}

variable {x : Phrase} {body : List Stmt} {decorators : List Decorator}

/-- There are no statements in expressions. -/
theorem Phrase.accepted_of_isExpression (h : x.isExpression = true) : x.Accepted p := by
  cases x with
  | statement s => cases h
  | expression e => trivial

theorem accepted_target (p : Place) (copies : List (List Enclosing)) (t : Target) :
    ∀ c ∈ t.parts p copies, c.Accepted := by
  cases t <;> simp [Target.parts, Part.Accepted, Phrase.Accepted]

theorem accepted_block {copies : List (List Enclosing)} (h : BlockAccepted p.inClass body) :
    ∀ c ∈ blockParts p copies body, c.Accepted := by
  induction body generalizing p with
  | nil => exact List.forall_mem_nil _
  | cons s rest ih =>
    rw [blockParts, List.forall_mem_cons]
    exact ⟨h.1, ih h.2⟩

theorem accepted_branches {more : List Branch} (h : BranchesAccepted p.inClass more) :
    ∀ c ∈ branchParts p more, c.Accepted := by
  fun_induction branchParts p more with
  | case1 => exact List.forall_mem_nil _
  | case2 p condition body rest ih =>
    rw [List.cons_append, List.forall_mem_cons, List.forall_mem_append]
    exact ⟨trivial, accepted_block h.1, ih h.2⟩

theorem WrittenFunction.accepted_parts {f : WrittenFunction} (hinside : f.inside.inClass = false)
    (h : BlockAccepted false f.body) : ∀ c ∈ f.parts, c.Accepted := by
  rw [parts, List.forall_mem_append, List.forall_mem_append, List.forall_mem_map,
    List.forall_mem_map]
  exact ⟨fun _ _ => trivial, fun _ _ => trivial, accepted_block (hinside ▸ h)⟩

theorem WrittenFunction.accepted_free {depth : Nat} {parameters : List Parameter}
    (h : BlockAccepted false body) : ∀ c ∈ (free depth p parameters body).parts, c.Accepted := by
  unfold free
  split_ifs <;> exact accepted_parts rfl h

theorem methodForm_of_isNative (h : isNative decorators = true) :
    Lowering.methodForm decorators = .ok .native := by
  unfold isNative at h
  split at h
  · assumption
  · cases h

theorem methodForm_ne_native (h : isNative decorators = false) :
    Lowering.methodForm decorators ≠ .ok .native := by
  intro hform
  simp [isNative, hform] at h

theorem accepted_natives (h : NativesAccepted body) :
    ∀ f ∈ nativeFunctions p body, ∀ c ∈ f.parts, c.Accepted := by
  fun_induction nativeFunctions p body with
  | case1 => exact List.forall_mem_nil _
  | case2 p decorators pos isAsync namePos name parameters body rest hnative ih =>
    rw [List.forall_mem_cons]
    exact ⟨WrittenFunction.accepted_parts rfl (h.1 hnative), ih h.2⟩
  | case3 p decorators pos isAsync namePos name parameters body rest hnative ih =>
    exact ih h.2
  | case4 p s rest hother ih =>
    rw [NativesAccepted] at h
    · exact ih h
    · exact hother

theorem accepted_members (hp : p.inClass = true) (h : MembersAccepted body) :
    ∀ c ∈ memberParts p body, c.Accepted := by
  fun_induction memberParts p body with
  | case1 => exact List.forall_mem_nil _
  | case2 p target e rest ih =>
    rw [List.forall_mem_cons]
    exact ⟨trivial, ih hp h.2⟩
  | case3 p target right rest hother ih =>
    exact ih hp h.2
  | case4 p s rest hattribute hother ih =>
    rw [MembersAccepted] at h
    · rw [List.forall_mem_cons]
      refine ⟨?_, ih hp h.2⟩
      rw [Part.Accepted, Phrase.Accepted, hp]
      exact h.1
    · exact hother

theorem Stmt.accepted_component {s : Stmt} (h : s.Accepted p.inClass) :
    ∀ c ∈ s.components p, c.Accepted := by
  cases s with
  | branch pos condition body more otherwise =>
    rw [Stmt.Accepted] at h
    obtain ⟨hbody, hmore, hotherwise⟩ := h
    rw [Stmt.components, List.forall_mem_cons, List.forall_mem_append, List.forall_mem_append]
    refine ⟨trivial, accepted_block hbody, accepted_branches hmore, ?_⟩
    cases otherwise with
    | none => exact List.forall_mem_nil _
    | some otherwise =>
      rw [OtherwiseAccepted] at hotherwise
      exact accepted_block hotherwise
  | forLoop pos isAsync left iterable body otherwise =>
    rw [Stmt.Accepted] at h
    rw [Stmt.components, List.forall_mem_append, List.forall_mem_cons]
    exact ⟨accepted_target p _ _, trivial, accepted_block h.2⟩
  | whileLoop pos condition body otherwise =>
    rw [Stmt.Accepted] at h
    cases otherwise with
    | none =>
      rw [Stmt.components, List.forall_mem_cons]
      exact ⟨trivial, accepted_block h.1⟩
    | some otherwise =>
      rw [OtherwiseAccepted] at h
      rw [Stmt.components, List.forall_mem_cons, List.forall_mem_append]
      exact ⟨trivial, accepted_block h.1, accepted_block h.2⟩
  | function decorators d =>
    obtain ⟨pos, isAsync, namePos, name, parameters, body⟩ := d
    rw [Stmt.components, FunctionDef.written?]
    cases hclass : p.className with
    | none => exact WrittenFunction.accepted_free (h (by simp [Place.inClass, hclass]))
    | some className =>
      by_cases hnative : isNative decorators = true
      · simp [methodForm_of_isNative hnative]
      · have hbody := h (by simp [hnative])
        dsimp only
        split
        · simp
        · exact WrittenFunction.accepted_parts rfl hbody
        · exact WrittenFunction.accepted_parts rfl hbody
  | classDef decorators d =>
    obtain ⟨pos, namePos, name, bases, body⟩ := d
    rw [Stmt.components, List.forall_mem_append, List.forall_mem_flatMap]
    exact ⟨accepted_natives h.1, accepted_members rfl h.2⟩
  | evaluate pos items =>
    rcases items with _ | ⟨e, _ | _⟩ <;> simp [Stmt.components, Expr.part, Part.Accepted,
      Phrase.Accepted]
  | assign left right =>
    cases right <;> grind [Stmt.components, Expr.part, accepted_target, Part.Accepted,
      Phrase.Accepted]
  | _ => grind [Stmt.components, Expr.part, accepted_target, Part.Accepted, Phrase.Accepted]

theorem Phrase.accepted_component (h : x.Accepted p) : ∀ c ∈ x.components p, c.Accepted := by
  cases x with
  | statement s => exact Stmt.accepted_component h
  | expression e => exact fun c hc => accepted_of_isExpression (Expr.smaller_component hc).1

theorem accepted_programComponents {binding : Option Binding} {statements : List Stmt}
    {entry : EntryPoint}
    (h : ProgramAccepted statements entry) : ∀ c ∈ programComponents binding statements entry,
    c.Accepted := by
  unfold programComponents
  cases entry with
  | module => exact accepted_block h
  | body =>
    cases hfirst : firstFunction? statements with
    | none => exact List.forall_mem_nil _
    | some d =>
      rw [List.forall_mem_append, List.forall_mem_map]
      exact ⟨fun _ _ => trivial, accepted_block (h d hfirst)⟩
  | callable name =>
    cases hfirst : firstFunction? statements with
    | none => exact List.forall_mem_nil _
    | some d => exact WrittenFunction.accepted_free (h d hfirst)

theorem Phrase.accepted_parts (h : x.Accepted p) : ∀ c ∈ x.parts p, c.Accepted := by
  induction hn : sizeOf x using Nat.strongRecOn generalizing x p with
  | _ n ih =>
    subst hn
    rw [parts_eq, List.forall_mem_cons]
    refine ⟨h, fun c hc => ?_⟩
    obtain ⟨component, hcomponent, hc⟩ := List.mem_flatMap.mp hc
    obtain ⟨part, hpart, rfl⟩ := List.mem_map.mp hc
    exact ih _ (sizeOf_component hcomponent) (accepted_component h component hcomponent)
      rfl part hpart

theorem SourceText.accepted_parts {t : SourceText} (h : ProgramAccepted t.program t.entry)
    (binding : Option Binding) : ∀ c ∈ programParts binding t.program t.entry, c.Accepted := by
  intro c hc
  obtain ⟨component, hcomponent, hc⟩ := List.mem_flatMap.mp hc
  obtain ⟨part, hpart, rfl⟩ := List.mem_map.mp hc
  exact Phrase.accepted_parts (accepted_programComponents h component hcomponent) part hpart

end ScriptCompiler
