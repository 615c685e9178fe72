import ScriptCompiler.Proofs.Copies

/-!
# How often calls are written

The calls in the text of a program are the calls of the program, each as often as it has copies.
Everything has exactly one copy if the program has no range with a start, no assignment by a power
or a floor division to anything but a variable, no bare annotation of anything but a variable, and
no default of a parameter that is not written.
-/

namespace ScriptCompiler

open Spans

variable {x : Phrase} {binding : Option Binding} {statements : List Stmt} {entry : EntryPoint}
  {cs : List Part}
  {c : Part} {copies : List (List Enclosing)}
variable {q : Mention → Bool} {p : Place}

/-! ## Calls of programs -/

def Part.calls (c : Part) : List Mention := c.copies.flatMap fun _ => c.phrase.called c.place

theorem Part.countP_calls (c : Part) :
    c.calls.countP q = c.copies.length * (c.phrase.called c.place).countP q := by
  simp [calls, List.countP_flatMap, Function.comp_def]

theorem Part.length_within (copies : List (List Enclosing)) (c : Part) :
    (c.within copies).copies.length = copies.length * c.copies.length := by
  simp [within, List.length_flatMap]

/-- Everything that the components of something consist of. -/
def allParts (components : List Part) : List Part :=
  components.flatMap fun c => (c.phrase.parts c.place).map (·.within c.copies)

theorem Phrase.parts_eq_allParts (p : Place) (x : Phrase) :
    x.parts p = ⟨x, p, [[]]⟩ :: allParts (x.components p) :=
  x.parts_eq p

theorem countP_allParts (components : List Part) :
    ((allParts components).flatMap Part.calls).countP q =
      (components.map fun c =>
      c.copies.length * ((c.phrase.parts c.place).flatMap Part.calls).countP q).sum := by
  have hcomponent :
      ∀ c : Part, (((c.phrase.parts c.place).map (·.within c.copies)).flatMap Part.calls).countP q =
      c.copies.length * ((c.phrase.parts c.place).flatMap Part.calls).countP q := by
    intro c
    have hpart : ∀ d : Part, (d.within c.copies).calls.countP q =
        c.copies.length * d.calls.countP q := by
      intro d
      rw [Part.countP_calls, Part.countP_calls, Part.length_within, Nat.mul_assoc]
      rfl
    rw [List.countP_flatMap, List.countP_flatMap, List.map_map, ← List.sum_map_mul_left]
    simp only [Function.comp_def, hpart]
  rw [allParts, List.flatMap_assoc, List.countP_flatMap]
  simp only [Function.comp_def, hcomponent]

/-- The copies of parts have the calls of the parts, each as often as its part has copies. -/
theorem sum_copiesOf (cs : List Part) : ((copiesOf cs).map fun copy => copy.spans.callCount q).sum =
    (cs.map fun c => c.copies.length * callCount q c.spans).sum := by
  induction cs with
  | nil => rfl
  | cons c rest ih =>
    rw [copiesOf_cons, List.map_append, List.sum_append, ih]
    simp [Function.comp_def]

theorem Phrase.callCount_parts (h : x.Accepted p) :
    callCount q (x.spans p) = ((x.parts p).flatMap Part.calls).countP q := by
  induction hn : sizeOf x using Nat.strongRecOn generalizing x p with
  | _ n ih =>
    subst hn
    have hcalls := (x.made (A := True) p fun _ s hs => ⟨_, by subst hs; exact h⟩).calls trivial q
    have hcomponents : (x.components p).map (fun c => c.copies.length * callCount q c.spans) =
        (x.components p).map fun c =>
        c.copies.length * ((c.phrase.parts c.place).flatMap Part.calls).countP q := by
      refine List.map_congr_left fun c hc => ?_
      rw [← ih _ (sizeOf_component hc) (accepted_component h c hc) rfl]
      rfl
    have hown : (Part.mk x p [[]]).calls = x.called p := by simp [Part.calls]
    rw [hcalls, contents, Contents.callCount, sum_copiesOf, hcomponents, parts_eq_allParts,
      List.flatMap_cons, hown,
      List.countP_append, countP_allParts]

/-- The calls in the draft of a program are the calls of the program, each as often as it has
copies. -/
theorem calls_perm_parts (h : ProgramAccepted statements entry) :
    (programSpans binding statements entry).calls.Perm
    ((programParts binding statements entry).flatMap Part.calls) := by
  have hcount : ∀ q, callCount q (programSpans binding statements entry) =
      ((programParts binding statements entry).flatMap Part.calls).countP q := by
    intro q
    have hparts : programParts binding statements entry =
        allParts (programComponents binding statements entry) := rfl
    have hcalls := (made_program (A := True) binding statements entry).calls trivial q
    rw [hparts, countP_allParts, hcalls, Contents.callCount, sum_copiesOf, List.countP_nil,
      Nat.zero_add]
    congr 1
    refine List.map_congr_left fun c hc => ?_
    rw [← Phrase.callCount_parts (accepted_programComponents h c hc)]
    rfl
  classical
  exact List.perm_iff_count.mpr fun m => hcount (· == m)

/-! ## Parts with one copy -/

def Target.isPlain : Target → Bool
  | .name _ _ | .foreign _ _ => true
  | .member _ _ | .subscript _ _ => false

def Assigned.isValue : Assigned → Bool
  | .value _ => true
  | .nothing | .chained => false

/-- Whether a range writes its start twice. -/
def ArgumentValues.hasStart (values : ArgumentValues) : Bool :=
  match values with
  | ⟨[_, _], []⟩ | ⟨[_, _, _], []⟩ => true
  | _ => false

/-- Whether a function leaves no default out. -/
def WrittenFunction.writesDefaults (f : WrittenFunction) : Bool := (defaultValues f.dropped).isEmpty

/-- Whether every component of a phrase has exactly one copy. -/
def Phrase.writesOnce (p : Place) : Phrase → Bool
  | .expression (.call function arguments) =>
    !(function.specialFunction? p.binding p.scopes = some "range" &&
      (argumentValues arguments).hasStart)
  | .statement (.assign left right) => left.isPlain || right.isValue
  | .statement (.augment left op _) => left.isPlain || op.symbol?.isSome
  | .statement (.function decorators d) => (d.written? p decorators).all (·.writesDefaults)
  | .statement (.classDef _ (.mk _ _ name _ body)) =>
    (nativeFunctions (p.register name).deeper body).all (·.writesDefaults)
  | _ => true

/-- Whether every part of a program that no other part is around has exactly one copy. -/
def EntryPoint.writesOnce (binding : Option Binding) (statements : List Stmt) : EntryPoint → Bool
  | .module => true
  | .body => (firstFunction? statements).all fun d => (defaultValues d.parameters).isEmpty
  | .callable _ =>
    (firstFunction? statements).all fun d =>
      (WrittenFunction.free 0 (.start binding) d.parameters d.body).writesDefaults

def HaveOneCopy (cs : List Part) : Prop := ∀ c ∈ cs, c.copies.length = 1

namespace HaveOneCopy

theorem nil : HaveOneCopy [] := List.forall_mem_nil _

theorem append_iff {ds : List Part} :
    HaveOneCopy (cs ++ ds) ↔ HaveOneCopy cs ∧ HaveOneCopy ds := List.forall_mem_append

theorem cons_iff : HaveOneCopy (c :: cs) ↔ c.copies.length = 1 ∧ HaveOneCopy cs :=
  List.forall_mem_cons

theorem values (p : Place) (es : List Expr) : HaveOneCopy (es.map (·.part p)) :=
  List.forall_mem_map.mpr fun _ _ => rfl

theorem valuesIn (f : Enclosing) (p : Place) (es : List Expr) :
    HaveOneCopy (es.map (·.partIn f p)) :=
  List.forall_mem_map.mpr fun _ _ => rfl

theorem target_iff {t : Target} :
    HaveOneCopy (t.parts p copies) ↔ t.isPlain = true ∨ copies.length = 1 := by
  cases t <;> simp [HaveOneCopy, Target.parts, Target.isPlain]

theorem clauses (f : Enclosing) (p : Place) (clauses : List Clause) :
    HaveOneCopy (clauseParts f p clauses) := by
  fun_induction clauseParts f p clauses with
  | case1 => exact nil
  | case2 p pos isAsync target iterable rest ih
  | case3 p condition rest ih => exact cons_iff.mpr ⟨rfl, ih⟩

theorem special_iff {function : String} {values : ArgumentValues} :
    HaveOneCopy (specialParts p function values) ↔
    ¬(function = "range" ∧ values.hasStart = true) := by
  unfold specialParts
  split
  · simp [HaveOneCopy, ArgumentValues.hasStart]
  · simp [HaveOneCopy, ArgumentValues.hasStart]
  · rename_i hbounds hsteps
    refine iff_of_true (HaveOneCopy.values p _) ?_
    rintro ⟨rfl, hstart⟩
    unfold ArgumentValues.hasStart at hstart
    split at hstart
    · exact hbounds _ _ rfl rfl
    · exact hsteps _ _ _ rfl rfl
    · cases hstart

theorem block (h : copies.length = 1) (p : Place) (body : List Stmt) :
    HaveOneCopy (blockParts p copies body) := by
  induction body generalizing p with
  | nil => exact nil
  | cons s rest ih => exact cons_iff.mpr ⟨h, ih _⟩

theorem branches (p : Place) (more : List Branch) : HaveOneCopy (branchParts p more) := by
  fun_induction branchParts p more with
  | case1 => exact nil
  | case2 p condition body rest ih =>
    exact cons_iff.mpr ⟨rfl, append_iff.mpr ⟨block rfl _ body, ih⟩⟩

theorem otherwise (p : Place) (otherwise : Option (List Stmt)) :
    HaveOneCopy (otherwiseParts p otherwise) := by
  cases otherwise with
  | none => exact nil
  | some body => exact block rfl _ body

theorem written_iff {f : WrittenFunction} : HaveOneCopy f.parts ↔ f.writesDefaults = true := by
  have hdropped : HaveOneCopy ((defaultValues f.dropped).map (⟨.expression ·, f.outside, []⟩)) ↔
      f.writesDefaults = true := by
    rw [WrittenFunction.writesDefaults]
    cases defaultValues f.dropped <;> simp [HaveOneCopy]
  rw [WrittenFunction.parts, append_iff, append_iff, hdropped]
  exact and_iff_left ⟨valuesIn _ _ _, block rfl _ _⟩

theorem members (p : Place) (body : List Stmt) : HaveOneCopy (memberParts p body) := by
  fun_induction memberParts p body with
  | case1 => exact nil
  | case2 p target e rest ih | case4 p s rest hattribute hother ih => exact cons_iff.mpr ⟨rfl, ih⟩
  | case3 p target right rest hother ih => exact ih

/-- The forms whose components do not all have one copy. -/
theorem components_iff : HaveOneCopy (x.components p) ↔ x.writesOnce p = true := by
  cases x with
  | expression e =>
    cases e with
    | call function arguments =>
      rw [Phrase.components, Expr.components, Phrase.writesOnce]
      cases function.specialFunction? p.binding p.scopes with
      | some special =>
        rw [special_iff]
        simp [Decidable.imp_iff_not_or]
      | none => exact iff_of_true (values p (function :: (argumentValues arguments).all)) rfl
    | subscript value indices =>
      refine iff_of_true ?_ rfl
      rw [Phrase.components]
      cases Index.form indices with
      | item index => exact values p [value, index]
      | slice lower upper step =>
        exact values p (value :: (lower.toList ++ upper.toList ++ step.toList))
      | other _ hitem hslice =>
        rw [Expr.components_subscript_other p value hitem hslice]
        exact nil
    | _ =>
      refine iff_of_true ?_ rfl
      rw [Phrase.components, Expr.components]
      grind [HaveOneCopy, clauses, Expr.part, Expr.partIn]
  | statement s =>
    cases s with
    | assign left right =>
      cases right with
      | value right =>
        refine iff_of_true (append_iff.mpr ⟨target_iff.mpr (.inr rfl), values p [right]⟩) ?_
        simp [Phrase.writesOnce, Assigned.isValue]
      | nothing | chained =>
        refine target_iff.trans ?_
        simp [Phrase.writesOnce, Assigned.isValue]
    | augment left op right =>
      have hright : HaveOneCopy [right.part p] := values p [right]
      rw [Phrase.components, Stmt.components, append_iff, target_iff, and_iff_left hright]
      cases hsymbol : op.symbol? <;> simp [Phrase.writesOnce, hsymbol]
    | function decorators d =>
      rw [Phrase.components, Stmt.components, Phrase.writesOnce]
      cases d.written? p decorators with
      | none => exact iff_of_true nil rfl
      | some f => exact written_iff
    | classDef decorators d =>
      obtain ⟨pos, namePos, name, bases, body⟩ := d
      rw [Phrase.components, Stmt.components, append_iff, and_iff_left (members _ _),
        Phrase.writesOnce, List.all_eq_true]
      simp only [HaveOneCopy, List.forall_mem_flatMap, ← written_iff]
    | evaluate pos items =>
      refine iff_of_true ?_ rfl
      by_cases hsingle : ∃ e, items = [e]
      · obtain ⟨e, rfl⟩ := hsingle
        exact values p [e]
      · rw [Phrase.components, Stmt.components]
        · exact values p _
        · exact fun e h => hsingle ⟨e, h⟩
    | branch pos condition body more otherwise =>
      refine iff_of_true
        (cons_iff.mpr
        ⟨rfl, append_iff.mpr ⟨block rfl _ body, append_iff.mpr ⟨branches _ more, ?_⟩⟩⟩) rfl
      exact HaveOneCopy.otherwise _ otherwise
    | forLoop pos isAsync left iterable body otherwise =>
      exact iff_of_true
        (append_iff.mpr ⟨target_iff.mpr (.inr rfl), cons_iff.mpr ⟨rfl, block rfl _ body⟩⟩) rfl
    | whileLoop pos condition body otherwise =>
      refine iff_of_true ?_ rfl
      cases otherwise with
      | none => exact cons_iff.mpr ⟨rfl, block rfl _ body⟩
      | some otherwise =>
        exact cons_iff.mpr ⟨rfl, append_iff.mpr ⟨block rfl _ body, block rfl _ otherwise⟩⟩
    | returns | raises | asserts | prints => exact iff_of_true (values _ _) rfl
    | pass | breaks | continues | outer | foreign => exact iff_of_true nil rfl

/-- Everything has one copy if that holds of the components and of everything that each of them
consists of. -/
theorem allParts_iff {components : List Part} : HaveOneCopy (allParts components) ↔
      HaveOneCopy components ∧ ∀ c ∈ components, HaveOneCopy (c.phrase.parts c.place) := by
  simp only [HaveOneCopy, allParts, List.forall_mem_flatMap, List.forall_mem_map,
    Part.length_within]
  constructor
  · intro h
    have hcomponents : ∀ c ∈ components, c.copies.length = 1 := by
      intro c hc
      have hself : (Part.mk c.phrase c.place [[]]) ∈ c.phrase.parts c.place := by
        rw [Phrase.parts_eq]
        exact List.mem_cons_self
      simpa using h c hc _ hself
    refine ⟨hcomponents, fun c hc d hd => ?_⟩
    simpa [hcomponents c hc] using h c hc d hd
  · rintro ⟨hcomponents, hparts⟩ c hc d hd
    rw [hcomponents c hc, hparts c hc d hd]

theorem parts_iff :
    HaveOneCopy (x.parts p) ↔ ∀ c ∈ x.parts p, c.phrase.writesOnce c.place = true := by
  induction hn : sizeOf x using Nat.strongRecOn generalizing x p with
  | _ n ih =>
    subst hn
    have hcomponents : (∀ c ∈ x.components p, HaveOneCopy (c.phrase.parts c.place)) ↔
        ∀ c ∈ allParts (x.components p), c.phrase.writesOnce c.place = true := by
      simp only [allParts, List.forall_mem_flatMap, List.forall_mem_map]
      exact forall₂_congr fun c hc => ih _ (Phrase.sizeOf_component hc) rfl
    rw [Phrase.parts_eq_allParts, cons_iff, List.forall_mem_cons, allParts_iff, components_iff,
      hcomponents]
    exact and_iff_right rfl

example : (Phrase.expression (.name .first "a")).writesOnce (.start none) = true := by decide +kernel

theorem program_iff :
    HaveOneCopy (programParts binding statements entry) ↔
    entry.writesOnce binding statements = true ∧
      ∀ c ∈ programParts binding statements entry, c.phrase.writesOnce c.place = true := by
  have hentry : HaveOneCopy (programComponents binding statements entry) ↔
      entry.writesOnce binding statements = true := by
    cases entry with
    | module => exact iff_of_true (block rfl _ statements) rfl
    | body =>
      rw [programComponents, EntryPoint.writesOnce]
      cases firstFunction? statements with
      | none => exact iff_of_true nil rfl
      | some d =>
        rw [append_iff, and_iff_left (block rfl _ _)]
        cases hdefaults : defaultValues d.parameters <;> simp [HaveOneCopy, hdefaults]
    | callable name =>
      rw [programComponents, EntryPoint.writesOnce]
      cases firstFunction? statements with
      | none => exact iff_of_true nil rfl
      | some d => exact written_iff
  have hparts : programParts binding statements entry =
      allParts (programComponents binding statements entry) := rfl
  rw [hparts, allParts_iff, hentry]
  simp only [allParts, List.forall_mem_flatMap, List.forall_mem_map, parts_iff]
  exact Iff.rfl

end HaveOneCopy

/-! ## Texts of units and bundles -/

/-- A call of a name is as many calls of it as it has copies. -/
theorem Part.calls_name {pos : Position} {id : String} {arguments : List Argument}
    (hphrase : c.phrase = .expression (.call (.name pos id) arguments))
    (hspecial : (Expr.name pos id).specialFunction? c.place.binding c.place.scopes = none) :
    c.calls = List.replicate c.copies.length
    (.value c.place.binding c.place.scopes (.name pos id)) := by
  have hcalled :
      c.phrase.called c.place = [.value c.place.binding c.place.scopes (.name pos id)] := by
    rw [hphrase, Phrase.called, Expr.called, hspecial]
    rfl
  rw [Part.calls, hcalled, ← List.map_eq_flatMap, List.map_const']

/-- How often the calls of a program are in its text. -/
structure SourceText.WritesCalls (t : SourceText) (binding : Option Binding) (_ : Edition) :
    Prop where
  /-- There are no other calls in the text than the copies of calls. -/
  calls : (t.spans binding).calls.Perm ((t.parts binding).flatMap Part.calls)
  named : ∀ c ∈ t.parts binding, ∀ pos id arguments, c.phrase =
    .expression (.call (.name pos id) arguments) →
    (Expr.name pos id).specialFunction? c.place.binding c.place.scopes = none →
    c.calls = List.replicate c.copies.length (.value c.place.binding c.place.scopes (.name pos id))
  /-- All copies are complete. -/
  copies : ∀ c ∈ t.parts binding, c.StandsIn (t.spans binding)
  once : HaveOneCopy (t.parts binding) ↔ t.entry.writesOnce binding t.program = true ∧
    ∀ c ∈ t.parts binding, c.phrase.writesOnce c.place = true

theorem SourceText.writesCalls {t : SourceText} {ed : Edition}
    (h : ProgramAccepted t.program t.entry) : t.WritesCalls binding ed where
  calls := calls_perm_parts h
  named _ _ _ _ _ := Part.calls_name
  copies _ := SourceText.standsIn_parts
  once := HaveOneCopy.program_iff

/-- In every text of a unit or a bundle each call of the program stands as often as it has copies,
and no other call of anything that the program mentions. All of them stand exactly once if and only
if no phrase of the program writes one of its components twice or leaves it out. -/
theorem calls_written_per_copy (options : Options) :
    (∀ (unit : SourceUnit) (output : String), unit.compile options = .ok output →
      unit.TextsHave options output SourceText.WritesCalls) ∧
    ∀ (bundle : Bundle) (output : String), bundle.compile options = .ok output →
      bundle.TextsHave options output SourceText.WritesCalls :=
  textsHave (fun _ _ _ _ => SourceText.writesCalls) options

/-- Whether a part is a call of a name with a number of copies. -/
def Part.callsTimes (id : String) (count : Nat) (c : Part) : Bool :=
  match c.phrase with
  | .expression (.call (.name _ id') _) => id' == id && c.copies.length == count
  | _ => false

def repeatingSource : String :=
  "get(a()).n **= f(b())\nfor i in range(lo(), hi()):\n    g(i, key=h())\nq().y: int\n"

def repeatingOutput : String :=
  "get(a()).n = Math.pow(get(a()).n, f(b()));\n" ++
  "for (var i of Array.from(\x7blength: Math.max(0, hi() - lo())\x7d, " ++
    "(_, i) => lo() + i)) \x7b\n    g.args([i], \x7bkey: h()\x7d);\n\x7d\n"

def repeatingUnit : SourceUnit := ⟨repeatingSource, none, .module⟩

def repeatingBundle : Bundle := ⟨[(.function "def k(n):\n    o(n).x //= r(1)\n" none, none)], none⟩

def repeatingBundleOutput : String :=
  "function k(n) \x7b\n    o(n).x = Math.floor(o(n).x / r(1));\n\x7d\n"

/-- Calls in the target of a power and in the start of a range are written twice, others once, and
those in the target of a bare annotation not at all. -/
theorem repeating_calls_written : (repeatingUnit.compile {} = .ok repeatingOutput ∧
      repeatingUnit.TextsHave {} repeatingOutput SourceText.WritesCalls ∧
      ∀ call ∈ [("get", 2), ("a", 2), ("f", 1), ("b", 1), ("lo", 2), ("hi", 1), ("g", 1),
      ("h", 1), ("q", 0)],
        ∃ c ∈ (SourceText.mk repeatingSource .module repeatingOutput).parts none,
        c.callsTimes call.1 call.2 = true) ∧
    repeatingBundle.compile {} = .ok repeatingBundleOutput ∧
      repeatingBundle.TextsHave {} repeatingBundleOutput SourceText.WritesCalls := by
  have hunit : repeatingUnit.compile {} = .ok repeatingOutput := by decide +kernel
  have hbundle : repeatingBundle.compile {} = .ok repeatingBundleOutput := by decide +kernel
  refine ⟨⟨hunit, (calls_written_per_copy {}).1 repeatingUnit _ hunit, ?_⟩,
    hbundle, (calls_written_per_copy {}).2 repeatingBundle _ hbundle⟩
  have hall : [("get", 2), ("a", 2), ("f", 1), ("b", 1), ("lo", 2), ("hi", 1), ("g", 1), ("h", 1),
      ("q", 0)].all
      (fun call => ((SourceText.mk repeatingSource .module repeatingOutput).parts none).any
        (·.callsTimes call.1 call.2)) = true := by
    decide +kernel
  simpa only [List.all_eq_true, List.any_eq_true] using hall

/-- The object of an attribute that is raised to a power is evaluated twice. -/
theorem power_target_called_twice :
    (SourceUnit.mk "get().n **= 2\n" none .module).compile {} =
    .ok "get().n = Math.pow(get().n, 2);\n" := by
  decide +kernel

end ScriptCompiler
