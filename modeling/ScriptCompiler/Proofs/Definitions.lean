import ScriptCompiler.Proofs.Headers
import ScriptCompiler.Proofs.CallCopies

/-!
# Definitions

The function definitions of a program, at whatever depth: in functions, in classes, and in the
blocks of conditions and loops. Each of them has one header in the text, with one exception. A
method that is registered natively is written between the braces of its class, but only if it is a
member of the class itself. In a block of the class body it is left out, and so is everything that
it defines.

What a class gets beside the header of a method, its constructor and the lines that pass calls on to
the prototype, is fixed text and no header of a definition.
-/

namespace ScriptCompiler

/-- A function definition. -/
structure Definition where
  /-- How it is written; not at all if it is left out. -/
  role : Option Role
  isAsync : Bool
  name : String
  parameters : List String
deriving DecidableEq, Repr

namespace Definition

def header? (d : Definition) : Option String := d.role.map (·.header d.isAsync d.name d.parameters)

def heading? (d : Definition) : Option Heading := d.header?.map fun header => ⟨d.isAsync, header⟩

def leftOut (d : Definition) : Definition := { d with role := none }

/-- A definition with those in its body. What is left out takes them along. -/
def around (role : Option Role) (isAsync : Bool) (name : String) (parameters : List String)
    (inner : List Definition) : List Definition :=
  ⟨role, isAsync, name, parameters⟩ :: if role.isSome then inner else inner.map leftOut

end Definition

def Role.ofMember (className : String) (decorators : List Decorator) : Role :=
  match Lowering.methodForm decorators with
  | .ok .native => .native
  | .ok .static => .static className
  | _ => .method className

/-- The role of a definition where statements stand, in a class or not. -/
def Role.ofStatement? (className : Option String) (decorators : List Decorator) : Option Role :=
  match className with
  | none => some .free
  | some className => if isNative decorators then none else some (.ofMember className decorators)

mutual

def Stmt.definitions (className : Option String) : Stmt → List Definition
  | .branch _ _ body more otherwise =>
    blockDefinitions className body ++ branchDefinitions className more ++
      otherwiseDefinitions className otherwise
  | .forLoop _ _ _ _ body otherwise | .whileLoop _ _ body otherwise =>
    blockDefinitions className body ++ otherwiseDefinitions className otherwise
  | .function decorators (.mk _ isAsync _ name parameters body) =>
    Definition.around (Role.ofStatement? className decorators) isAsync name
      (declaredNames parameters)
      (blockDefinitions none body)
  | .classDef _ (.mk _ _ name _ body) => memberDefinitions name body
  | .evaluate _ _ | .assign _ _ | .augment _ _ _ | .returns _ _ | .pass _ | .breaks _ | .continues _
  | .outer _ _ _ _
  | .asserts _ _ | .raises _ _ _ | .prints _ _ _ | .foreign _ _ _ => []

def blockDefinitions (className : Option String) : List Stmt → List Definition
  | [] => []
  | s :: rest => s.definitions className ++ blockDefinitions className rest

def otherwiseDefinitions (className : Option String) : Option (List Stmt) → List Definition
  | none => []
  | some body => blockDefinitions className body

def branchDefinitions (className : Option String) : List Branch → List Definition
  | [] => []
  | .mk _ body :: rest => blockDefinitions className body ++ branchDefinitions className rest

def memberDefinitions (className : String) : List Stmt → List Definition
  | [] => []
  | .function decorators (.mk _ isAsync _ name parameters body) :: rest =>
    Definition.around (some (.ofMember className decorators)) isAsync name
      (declaredNames parameters)
        (blockDefinitions none body) ++
      memberDefinitions className rest
  | s :: rest => s.definitions (some className) ++ memberDefinitions className rest

end

/-- The definitions that a program consists of. -/
def programDefinitions (statements : List Stmt) : EntryPoint → List Definition
  | .module => blockDefinitions none statements
  | .body =>
    match firstFunction? statements with
    | none => []
    | some d => blockDefinitions none d.body
  | .callable name =>
    match firstFunction? statements with
    | none => []
    | some d => Definition.around (some .named) d.isAsync name (declaredNames d.parameters)
        (blockDefinitions none d.body)

/-- The headers that definitions are written with. -/
def headingsOf (ds : List Definition) : List Heading := ds.filterMap (·.heading?)

@[simp] theorem headingsOf_append (ds es : List Definition) :
    headingsOf (ds ++ es) = headingsOf ds ++ headingsOf es :=
  List.filterMap_append

theorem map_header_headingsOf (ds : List Definition) :
    (headingsOf ds).map (·.header) = ds.filterMap (·.header?) := by
  rw [headingsOf, List.map_filterMap]
  congr 1
  funext d
  cases hheader : d.header? <;> simp [Definition.heading?, hheader]

variable (role : Role) (p : Place) {decorators : List Decorator} {binding : Option Binding}

theorem headingsOf_around (isAsync : Bool) (name : String) (parameters : List String)
    (inner : List Definition) :
    headingsOf (Definition.around (some role) isAsync name parameters inner) =
      ⟨isAsync, role.header isAsync name parameters⟩ :: headingsOf inner := rfl

theorem headingsOf_leftOut (isAsync : Bool) (name : String) (parameters : List String)
    (inner : List Definition) :
    headingsOf (Definition.around none isAsync name parameters inner) = [] := by
  simp [headingsOf, Definition.around, Definition.heading?, Definition.header?, Definition.leftOut]

/-! ## Headers of statements -/

theorem spotHeadings_definitionSpot (isAsync : Bool) (name : String) (names : List String)
    {defaults : List (List Spot)} (hdefaults : ∀ as ∈ defaults, spotHeadings as = [])
    (body : List Spot) : spotHeadings [definitionSpot role isAsync name names defaults body] =
      ⟨isAsync, role.header isAsync name names⟩ :: spotHeadings body := by
  have hwritten : ∀ as ∈ role.written names defaults, spotHeadings as = [] := by
    have htail : ∀ as ∈ defaults.tail, spotHeadings as = [] :=
      fun as has => hdefaults as (List.mem_of_mem_tail has)
    cases role <;> rw [Role.written]
    case free | named =>
      split_ifs
      · exact htail
      · exact hdefaults
    case native | method => exact htail
    case static => exact hdefaults
  simp [definitionSpot, Spot.headings, spotHeadings_flatten hwritten]

theorem Target.spotHeadings_spots (target : Target) : spotHeadings (target.spots p) = [] := by
  cases target with
  | member object key => exact object.spotHeadings_spots p
  | subscript value indices => exact (Expr.subscript value indices).spotHeadings_spots p
  | name | foreign => exact spotHeadings_nil

theorem Assigned.spotHeadings_spots (left : Target) (right : Assigned) :
    spotHeadings (right.spots p left) = [] := by
  cases right with
  | value right => simp [Assigned.spots, left.spotHeadings_spots p, right.spotHeadings_spots p]
  | nothing | chained => exact spotHeadings_nil

theorem Assigned.spotHeadings_attributeSpots (right : Assigned) :
    spotHeadings (right.attributeSpots p) = [] := by
  cases right with
  | value right => exact right.spotHeadings_spots p
  | nothing | chained => exact spotHeadings_nil

theorem spotHeadings_augmentSpots (left : Target) (op : BinaryOp) (right : Expr) :
    spotHeadings (augmentSpots p left op right) = [] := by
  unfold augmentSpots
  split_ifs <;> simp [left.spotHeadings_spots p, right.spotHeadings_spots p]

theorem Role.ofMember_of_isNative (h : isNative decorators = true) (className : String) :
    ofMember className decorators = .native := by
  rw [ofMember, methodForm_of_isNative h]

theorem Role.ofMember_cases (h : isNative decorators = false) (className : String) :
    (Lowering.methodForm decorators = .ok .static ∧ ofMember className decorators =
    .static className) ∨
      ((∀ form, Lowering.methodForm decorators = .ok form → form = .ordinary) ∧
        ofMember className decorators = .method className) := by
  have hnative := methodForm_ne_native h
  unfold ofMember
  cases hform : Lowering.methodForm decorators with
  | error d => exact .inr ⟨by simp, rfl⟩
  | ok form =>
    cases form with
    | native => exact absurd hform hnative
    | static => exact .inl ⟨rfl, rfl⟩
    | ordinary => exact .inr ⟨by simp, rfl⟩

/-- The statements of a block have one header for each definition that is not left out, wherever
they are lowered. -/
def HaveHeadings (className : Option String) (body : List Stmt) : Prop :=
  ∀ {p : Place}, p.className = className → BlockAccepted className.isSome body →
    (spotHeadings (blockSpots p body)).Perm (headingsOf (blockDefinitions className body))

section Function

variable {p : Place} {decorators : List Decorator} {pos namePos : Position} {isAsync : Bool}
  {name : String}
  {parameters : List Parameter} {body : List Stmt}

theorem HaveHeadings.definitionSpot (hbody : HaveHeadings none body) (role : Role) (isAsync : Bool)
    (name : String)
    (parameters : List Parameter) {q : Place} (hq : q.className = none)
    (h : BlockAccepted false body) (outside : Place) :
    (spotHeadings [definitionSpot role isAsync name (declaredNames parameters)
    (formalSpots outside parameters)
        (blockSpots q body)]).Perm
      (headingsOf (Definition.around (some role) isAsync name (declaredNames parameters)
        (blockDefinitions none body))) := by
  rw [spotHeadings_definitionSpot role isAsync name _ (spotHeadings_defaults outside parameters),
    headingsOf_around]
  exact (hbody hq h).cons _

theorem HaveHeadings.function (hbody : HaveHeadings none body)
    (h : (Stmt.function decorators (.mk pos isAsync namePos name parameters body)).Accepted
    p.inClass) :
    (spotHeadings
    ((Stmt.function decorators (.mk pos isAsync namePos name parameters body)).spots p)).Perm
      (headingsOf ((Stmt.function decorators
      (.mk pos isAsync namePos name parameters body)).definitions p.className)) := by
  rw [Place.inClass] at h
  rw [Stmt.spots, Stmt.definitions]
  cases hclass : p.className with
  | none => exact hbody.definitionSpot .free _ _ _ rfl (h (by simp [hclass])) _
  | some className =>
    by_cases hnative : isNative decorators = true
    · rw [methodForm_of_isNative hnative, Role.ofStatement?, if_pos hnative, headingsOf_leftOut]
      exact .nil
    · have haccepted := h (by simp [hnative])
      rw [Role.ofStatement?, if_neg hnative]
      rcases Role.ofMember_cases (Bool.eq_false_iff.mpr hnative) className with ⟨hform,
        hrole⟩ | ⟨hform, hrole⟩
      · rw [hform, hrole]
        exact hbody.definitionSpot (.static className) _ _ _ rfl haccepted p
      · rw [hrole]
        cases hcase : Lowering.methodForm decorators with
        | error d => exact hbody.definitionSpot (.method className) _ _ _ rfl haccepted p
        | ok form =>
          obtain rfl := hform form hcase
          exact hbody.definitionSpot (.method className) _ _ _ rfl haccepted p

end Function

mutual

/-- A statement that is lowered without a fault has one header for each definition that is not left
out. -/
theorem Stmt.perm_headings : ∀ (s : Stmt) {p : Place}, s.Accepted p.inClass →
    (spotHeadings (s.spots p)).Perm (headingsOf (s.definitions p.className))
  | s, p, h => by
    cases s with
    | branch pos condition body more otherwise =>
      rw [Stmt.Accepted] at h
      obtain ⟨hbody, hmore, hotherwise⟩ := h
      rw [Stmt.spots, Stmt.definitions]
      simp only [spotHeadings_append, condition.spotHeadings_spots p, List.nil_append,
        headingsOf_append]
      exact .append
        (.append (perm_headings_block body rfl hbody) (perm_headings_branches more rfl hmore))
        (perm_headings_otherwise otherwise rfl hotherwise)
    | forLoop pos isAsync left iterable body otherwise =>
      rw [Stmt.Accepted] at h
      obtain ⟨rfl, hbody⟩ := h
      rw [Stmt.spots, Stmt.definitions]
      simp only [spotHeadings_append, left.spotHeadings_spots p, iterable.spotHeadings_spots p,
        List.nil_append,
        otherwiseDefinitions, List.append_nil]
      exact perm_headings_block body rfl hbody
    | whileLoop pos condition body otherwise =>
      rw [Stmt.Accepted] at h
      cases otherwise with
      | none =>
        rw [Stmt.spots, Stmt.definitions]
        simp only [spotHeadings_append, condition.spotHeadings_spots p, List.nil_append,
          otherwiseDefinitions,
          List.append_nil]
        exact perm_headings_block body rfl h.1
      | some otherwise =>
        rw [OtherwiseAccepted] at h
        rw [Stmt.spots, Stmt.definitions, otherwiseDefinitions]
        simp only [spotHeadings_append, condition.spotHeadings_spots p, List.nil_append,
          headingsOf_append]
        exact .append (perm_headings_block body rfl h.1) (perm_headings_block otherwise rfl h.2)
    | function decorators d =>
      obtain ⟨pos, isAsync, namePos, name, parameters, body⟩ := d
      exact HaveHeadings.function (perm_headings_block body) h
    | classDef decorators d =>
      obtain ⟨pos, namePos, name, bases, body⟩ := d
      rw [Stmt.Accepted] at h
      rw [Stmt.spots, Stmt.definitions, spotHeadings_append]
      exact perm_headings_members body rfl h.1 h.2
    | evaluate pos items =>
      rw [Stmt.spots, Stmt.definitions, spotHeadings_items p items]
      exact .nil
    | assign left right =>
      rw [Stmt.spots, Stmt.definitions, right.spotHeadings_spots p left]
      exact .nil
    | augment left op right =>
      rw [Stmt.spots, Stmt.definitions, spotHeadings_augmentSpots p left op right]
      exact .nil
    | returns pos value | raises pos value cause =>
      rw [Stmt.spots, Stmt.definitions, spotHeadings_optional p value]
      exact .nil
    | asserts pos values | prints pos redirection values =>
      rw [Stmt.spots, Stmt.definitions, spotHeadings_values p values]
      exact .nil
    | pass | breaks | continues | outer | foreign =>
      rw [Stmt.spots, Stmt.definitions, spotHeadings_nil]
      exact .nil

theorem perm_headings_block :
    ∀ (body : List Stmt) {className : Option String}, HaveHeadings className body
  | [], className, p, _, _ => by
    rw [blockSpots, blockDefinitions, spotHeadings_nil]
    exact .nil
  | s :: rest, className, p, hclass, h => by
    subst hclass
    rw [BlockAccepted] at h
    rw [blockSpots, blockDefinitions, spotHeadings_append, headingsOf_append]
    exact (s.perm_headings h.1).append (perm_headings_block rest rfl h.2)

theorem perm_headings_otherwise :
    ∀ (otherwise : Option (List Stmt)) {p : Place} {className : Option String},
    p.className = className → OtherwiseAccepted className.isSome otherwise →
      (spotHeadings (otherwiseSpots p otherwise)).Perm
      (headingsOf (otherwiseDefinitions className otherwise))
  | none, p, className, _, _ => by
    rw [otherwiseSpots, otherwiseDefinitions, spotHeadings_nil]
    exact .nil
  | some body, p, className, hclass, h => by
    rw [OtherwiseAccepted] at h
    rw [otherwiseSpots, otherwiseDefinitions]
    exact perm_headings_block body hclass h

theorem perm_headings_branches :
    ∀ (more : List Branch) {p : Place} {className : Option String}, p.className = className →
    BranchesAccepted className.isSome more →
      (spotHeadings (branchSpots p more)).Perm (headingsOf (branchDefinitions className more))
  | [], p, className, _, _ => by
    rw [branchSpots, branchDefinitions, spotHeadings_nil]
    exact .nil
  | .mk condition body :: rest, p, className, hclass, h => by
    subst hclass
    rw [BranchesAccepted] at h
    rw [branchSpots, branchDefinitions]
    simp only [spotHeadings_append, condition.spotHeadings_spots p, List.nil_append,
      headingsOf_append]
    exact .append (perm_headings_block body rfl h.1) (perm_headings_branches rest rfl h.2)

/-- The members of a class are gone through twice: what is registered natively comes first, then the
rest. -/
theorem perm_headings_members :
    ∀ (body : List Stmt) {p q : Place} {className : String}, q.className = some className →
    NativesAccepted body → MembersAccepted body →
      (spotHeadings (nativeSpots p body) ++ spotHeadings (memberSpots q body)).Perm
        (headingsOf (memberDefinitions className body))
  | [], p, q, className, _, _, _ => by
    rw [nativeSpots, memberSpots, memberDefinitions, spotHeadings_nil]
    exact .nil
  | s :: rest, p, q, className, hclass, hnatives, hmembers => by
    have hlater : ∀ s, (q.afterStmt s).className = some className := fun _ => hclass
    have hinside : q.inClass = true := by rw [Place.inClass, hclass, Option.isSome_some]
    cases s with
    | function decorators d =>
      obtain ⟨pos, isAsync, namePos, name, parameters, body⟩ := d
      rw [NativesAccepted] at hnatives
      rw [MembersAccepted] at hmembers
      rw [← hinside] at hmembers
      have hown := HaveHeadings.function (perm_headings_block body) hmembers.1
      rw [hclass, Stmt.definitions] at hown
      rw [nativeSpots, memberSpots, memberDefinitions, headingsOf_append, spotHeadings_append]
      by_cases hnative : isNative decorators = true
      · rw [Role.ofStatement?, if_pos hnative, headingsOf_leftOut, List.perm_nil] at hown
        have hfirst :=
          HaveHeadings.definitionSpot (perm_headings_block body) .native isAsync name parameters
          (q := p.inFunction (receiverLast (declaredNames parameters))) rfl (hnatives.1 hnative) p
        rw [if_pos hnative, Role.ofMember_of_isNative hnative, hown, List.nil_append,
          spotHeadings_append,
          spotHeadings_literalSpots, List.nil_append, ← List.singleton_append, spotHeadings_append,
          List.append_assoc]
        exact hfirst.append (perm_headings_members rest (hlater _) hnatives.2 hmembers.2)
      · rw [Role.ofStatement?, if_neg hnative] at hown
        rw [if_neg hnative]
        exact (List.perm_append_comm_assoc _ _ _).trans
          (hown.append (perm_headings_members rest (hlater _) hnatives.2 hmembers.2))
      all_goals simp
    | assign left right =>
      rw [NativesAccepted] at hnatives
      · rw [MembersAccepted] at hmembers
        rw [nativeSpots, memberSpots, memberDefinitions, Stmt.definitions, spotHeadings_append,
          right.spotHeadings_attributeSpots q]
        · exact perm_headings_members rest hclass hnatives hmembers.2
        all_goals simp
      · simp
    | _ =>
      rw [NativesAccepted] at hnatives
      rw [MembersAccepted, ← hinside] at hmembers
      · have hown := Stmt.perm_headings _ hmembers.1
        rw [hclass] at hown
        rw [memberSpots, memberDefinitions, headingsOf_append, spotHeadings_append]
        · exact (List.perm_append_comm_assoc _ _ _).trans
            (hown.append (perm_headings_members rest (hlater _) hnatives hmembers.2))
        all_goals simp
      all_goals simp

end

/-! ## Texts of units and bundles -/

theorem perm_headings_program {statements : List Stmt} {entry : EntryPoint}
    (h : ProgramAccepted statements entry) :
    (spotHeadings (programSpots binding statements entry)).Perm
    (headingsOf (programDefinitions statements entry)) := by
  unfold programSpots programDefinitions
  cases entry with
  | module => exact perm_headings_block statements rfl h
  | body =>
    cases hfirst : firstFunction? statements with
    | none => exact .nil
    | some d => exact perm_headings_block d.body rfl (h d hfirst)
  | callable name =>
    cases hfirst : firstFunction? statements with
    | none => exact .nil
    | some d => exact HaveHeadings.definitionSpot (perm_headings_block d.body) .named _ _ _ rfl (h
        d hfirst) _

namespace SourceText

def definitions (t : SourceText) : List Definition := programDefinitions t.program t.entry

/-- How the definitions of a program are written in its text. -/
structure WritesDefinitions (t : SourceText) (binding : Option Binding) (_ : Edition) : Prop where
  /-- Each definition that is not left out has one header, and there are no other headers. -/
  headers : (t.spans binding).headers.Perm (t.definitions.filterMap (·.header?))
  printed : ∀ header ∈ (t.spans binding).headers, header.toList <:+: t.text.toList
  /-- There is one header for each definition if and only if none is left out. -/
  complete : (t.spans binding).headers.length = t.definitions.length ↔
    ∀ d ∈ t.definitions, d.role ≠ none

theorem writesDefinitions {t : SourceText} {ed : Edition} (hprinted : t.PrintedIn binding ed)
    (haccepted : ProgramAccepted t.program t.entry) : t.WritesDefinitions binding ed := by
  have hheaders : (t.spans binding).headers.Perm (t.definitions.filterMap (·.header?)) := by
    rw [SourceText.spans, (made_program (A := False) binding t.program t.entry).headers,
      ← map_header_headingsOf]
    exact (perm_headings_program haccepted).map _
  refine ⟨hheaders, Spans.infix_of_mem_headers hprinted.printed, ?_⟩
  rw [hheaders.length_eq, List.filterMap_length_eq_length]
  simp only [Definition.header?, Option.isSome_map, Option.isSome_iff_ne_none]

end SourceText

/-- In every text of a unit or a bundle each function definition of the program has exactly one
header, at whatever depth it stands, unless it is left out: methods that are registered natively
are, where they stand in a block of a class body, together with what they define. -/
theorem definitions_written_once (options : Options) :
    (∀ (unit : SourceUnit) (output : String), unit.compile options = .ok output →
      unit.TextsHave options output SourceText.WritesDefinitions) ∧
    ∀ (bundle : Bundle) (output : String), bundle.compile options = .ok output →
      bundle.TextsHave options output SourceText.WritesDefinitions :=
  textsHave (fun t _ _ => t.writesDefinitions) options

def definingSource : String :=
  "class A:\n @JavaScript\n async def n(self):\n  def i(): pass\n if c:\n  @staticmethod\n" ++
  "  def s(a): pass\n" ++
    " def m(self): pass\n"

def definingOutput : String :=
  "class A \x7b\n    async n() \x7b\n        function i() \x7b\n            /* pass */\n" ++
  "        \x7d\n    \x7d\n\x7d\n" ++
  "if (c) \x7b\n    A.prototype.s = function(a) \x7b\n        /* pass */\n    \x7d;\n" ++
  "    A.s = A.prototype.s;\n\x7d\n" ++
  "A.prototype.m = function() \x7b\n    /* pass */\n\x7d;\nA.m = function() \x7b\n" ++
  "    return A.prototype.m.apply(arguments[0], Array.prototype.slice.call(arguments, 1));\n\x7d;\n"

def definingUnit : SourceUnit := ⟨definingSource, none, .module⟩

def definingBundle : Bundle := ⟨[(.function "def k():\n def o(m): pass\n" none, none)], none⟩

def definingBundleOutput : String :=
  "function k() \x7b\n    function o(m) \x7b\n        /* pass */\n    \x7d\n\x7d\n"

/-- A function in a method, a method in a condition, and methods of all forms. -/
theorem nested_definitions_written :
    (definingUnit.compile {} = .ok definingOutput ∧
      definingUnit.TextsHave {} definingOutput SourceText.WritesDefinitions ∧
      (SourceText.mk definingSource .module definingOutput).definitions.map (·.header?) =
        [some "async n() \x7b", some "function i() \x7b", some "A.prototype.s = function(a) \x7b",
          some "A.prototype.m = function() \x7b"]) ∧
    definingBundle.compile {} = .ok definingBundleOutput ∧
      definingBundle.TextsHave {} definingBundleOutput SourceText.WritesDefinitions := by
  have hunit : definingUnit.compile {} = .ok definingOutput := by decide +kernel
  have hbundle : definingBundle.compile {} = .ok definingBundleOutput := by decide +kernel
  exact ⟨⟨hunit, (definitions_written_once {}).1 definingUnit _ hunit, by decide +kernel⟩,
    hbundle, (definitions_written_once {}).2 definingBundle _ hbundle⟩

def blockedSource : String :=
  "class A:\n    if ready:\n        @JavaScript\n        def go(self):\n            return 1\n"

/-- A method that is registered natively in a block of a class body is left out without a word. -/
theorem native_in_block_left_out :
    (SourceUnit.mk blockedSource none .module).compile {} =
    .ok "class A \x7b\n\x7d\nif (ready) \x7b\n\x7d\n" ∧
      (SourceText.mk blockedSource .module "").definitions = [⟨none, false, "go", ["self"]⟩] := by
  constructor <;> decide +kernel

end ScriptCompiler
