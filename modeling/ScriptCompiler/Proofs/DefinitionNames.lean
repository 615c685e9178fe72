import ScriptCompiler.Proofs.Definitions
import ScriptCompiler.Proofs.StatementReading

/-!
# Names of definitions

The functions and classes of a program are called by words, because that is what the grammar reads
there.
-/

namespace ScriptCompiler

def Role.className? : Role → Option String
  | .static className | .method className => some className
  | .free | .named | .native => none

/-- A definition whose name, and the name of the class that it is assigned to, are words. -/
structure Definition.Named (d : Definition) : Prop where
  name : Identifier.IsWord d.name
  className : ∀ role ∈ d.role, ∀ className ∈ role.className?, Identifier.IsWord className

abbrev AllNamed (ds : List Definition) : Prop := ∀ d ∈ ds, d.Named

variable {decorators : List Decorator} {name : String}

theorem Role.ofMember_className? {className : String} :
    ∀ found ∈ (Role.ofMember className decorators).className?, found = className := by
  intro found hfound
  unfold ofMember at hfound
  split at hfound <;> cases hfound <;> rfl

/-- A method is assigned to the class that it stands in. -/
theorem Role.ofStatement?_className? {className : Option String} :
    ∀ role ∈ Role.ofStatement? className decorators, ∀ found ∈ role.className?,
    found ∈ className := by
  intro role hrole found hfound
  cases className with
  | none =>
    obtain rfl := Option.some_inj.mp hrole
    cases hfound
  | some className =>
    rw [ofStatement?, Option.mem_def] at hrole
    split_ifs at hrole
    obtain rfl := Option.some_inj.mp hrole
    rw [ofMember_className? found hfound]
    rfl

theorem Definition.Named.leftOut {d : Definition} (h : d.Named) : d.leftOut.Named where
  name := h.name
  className := by rintro _ ⟨⟩

theorem AllNamed.around {role : Option Role} {isAsync : Bool} {parameters : List String}
    {inner : List Definition} (hname : Identifier.IsWord name)
    (hclass : ∀ r ∈ role, ∀ className ∈ r.className?, Identifier.IsWord className)
    (hinner : AllNamed inner) :
    AllNamed (Definition.around role isAsync name parameters inner) := by
  rw [Definition.around, AllNamed, List.forall_mem_cons]
  refine ⟨⟨hname, hclass⟩, ?_⟩
  split_ifs
  · exact hinner
  · rw [List.forall_mem_map]
    exact fun d hd => (hinner d hd).leftOut

section Named

variable {Q : Position → Prop}

theorem named_member {s : Stmt} {rest : List Stmt} (hname : Identifier.IsWord name)
    (hfree : AllNamed (s.definitions none)) (hmember : AllNamed (s.definitions (some name)))
    (hrest : AllNamed (memberDefinitions name rest)) :
    AllNamed (memberDefinitions name (s :: rest)) := by
  cases s with
  | function decorators d =>
    obtain ⟨pos, isAsync, namePos, memberName, parameters, body⟩ := d
    rw [Stmt.definitions, Definition.around, AllNamed, List.forall_mem_cons] at hfree
    rw [memberDefinitions, AllNamed, List.forall_mem_append]
    refine ⟨AllNamed.around hfree.1.name ?_ hfree.2, hrest⟩
    rintro role ⟨⟩ found hfound
    rw [Role.ofMember_className? found hfound]
    exact hname
  | _ =>
    rw [memberDefinitions, AllNamed, List.forall_mem_append]
    · exact ⟨hmember, hrest⟩
    · simp

mutual

/-- What a statement defines has a name, in a class that has one. -/
theorem Stmt.named_definitions : ∀ (s : Stmt) {className : Option String}, s.Placed Q →
    (∀ c ∈ className, Identifier.IsWord c) → AllNamed (s.definitions className)
  | .branch _ _ body more otherwise, _, h, hclass => by
    rw [Stmt.definitions, AllNamed, List.forall_mem_append, List.forall_mem_append]
    exact ⟨⟨named_block body h.2.1 hclass, named_branches more h.2.2.1 hclass⟩,
      named_otherwise otherwise h.2.2.2 hclass⟩
  | .forLoop _ _ _ _ body otherwise, _, h, hclass => by
    rw [Stmt.definitions, AllNamed, List.forall_mem_append]
    exact ⟨named_block body h.2.2.2.1 hclass, named_otherwise otherwise h.2.2.2.2 hclass⟩
  | .whileLoop _ _ body otherwise, _, h, hclass => by
    rw [Stmt.definitions, AllNamed, List.forall_mem_append]
    exact ⟨named_block body h.2.1 hclass, named_otherwise otherwise h.2.2 hclass⟩
  | .function _ (.mk _ _ _ _ _ body), _, h, hclass => by
    refine .around h.2.1 (fun role hrole found hfound => ?_)
      (named_block body h.2.2.2.2 (by rintro _ ⟨⟩))
    exact hclass found (Role.ofStatement?_className? role hrole found hfound)
  | .classDef _ (.mk _ _ _ _ body), _, h, _ => by
    exact named_members body h.2.2.2 h.2.1
  | .evaluate .., _, _, _ | .assign .., _, _, _ | .augment .., _, _, _ | .returns .., _, _, _
  | .pass _, _, _, _
  | .breaks _, _, _, _ | .continues _, _, _, _ | .outer .., _, _, _ | .asserts .., _, _, _
  | .raises .., _, _, _
  | .prints .., _, _, _ | .foreign .., _, _, _ => by
    exact List.forall_mem_nil _

theorem named_block : ∀ (body : List Stmt) {className : Option String}, blockPlaced Q body →
    (∀ c ∈ className, Identifier.IsWord c) → AllNamed (blockDefinitions className body)
  | [], _, _, _ => by
    exact List.forall_mem_nil _
  | s :: rest, _, h, hclass => by
    rw [blockDefinitions, AllNamed, List.forall_mem_append]
    exact ⟨s.named_definitions h.1 hclass, named_block rest h.2 hclass⟩

theorem named_otherwise :
    ∀ (otherwise : Option (List Stmt)) {className : Option String}, otherwisePlaced Q otherwise →
    (∀ c ∈ className, Identifier.IsWord c) → AllNamed (otherwiseDefinitions className otherwise)
  | none, _, _, _ => by
    exact List.forall_mem_nil _
  | some body, _, h, hclass => by
    exact named_block body h hclass

theorem named_branches : ∀ (more : List Branch) {className : Option String}, branchesPlaced Q more →
    (∀ c ∈ className, Identifier.IsWord c) → AllNamed (branchDefinitions className more)
  | [], _, _, _ => by
    exact List.forall_mem_nil _
  | .mk _ body :: rest, _, h, hclass => by
    rw [branchDefinitions, AllNamed, List.forall_mem_append]
    exact ⟨named_block body h.1.2 hclass, named_branches rest h.2 hclass⟩

theorem named_members :
    ∀ (body : List Stmt) {name : String}, blockPlaced Q body → Identifier.IsWord name →
    AllNamed (memberDefinitions name body)
  | [], _, _, _ => by
    exact List.forall_mem_nil _
  | s :: rest, name, h, hname => by
    have hfree : AllNamed (s.definitions none) := s.named_definitions h.1 (by rintro _ ⟨⟩)
    have hmember : AllNamed (s.definitions (some name)) :=
      s.named_definitions h.1 (by rintro _ ⟨⟩; exact hname)
    exact named_member hname hfree hmember (named_members rest h.2 hname)

end

theorem placed_of_parse {source : String} {program : List Stmt}
    (h : Session.parse source = .ok program) :
    blockPlaced (Passage.mk .first (Dedent.dedentChars source.toList)).Marks program :=
  BlockFormed.placed (blockFormed_of_parseProgram? (Session.parse_eq_ok_iff.mp h))

theorem named_firstFunction {statements : List Stmt} (h : blockPlaced Q statements) :
    ∀ d ∈ firstFunction? statements, AllNamed (blockDefinitions none d.body) := by
  induction statements with
  | nil => rintro _ ⟨⟩
  | cons s rest ih =>
    cases s with
    | function decorators d =>
      rintro _ ⟨⟩
      obtain ⟨pos, isAsync, namePos, name, parameters, body⟩ := d
      exact named_block body h.1.2.2.2.2 (by rintro _ ⟨⟩)
    | _ =>
      rw [firstFunction?]
      · exact ih h.2
      · simp

end Named

end ScriptCompiler
