import ScriptCompiler.Proofs.NameResolution

/-!
# Reads behind writes

A variable is written by an assignment, an annotation, a loop or an update. The first three bind its
name in the frame, so that the context is hidden behind them. An update binds nothing: behind it a
name stands for what it stood for before.

The trace of a program leaves updates out. The steps of a program are its trace with them.
-/

namespace ScriptCompiler

/-- Something that happens to names, or an update of a variable. -/
inductive NameStep where
  | event (e : NameEvent)
  | update (id : String)

def NameStep.event? : NameStep → Option NameEvent
  | .event e => some e
  | .update _ => none

/-- The variable that is written in a step. Only assignments, annotations and loops declare
variables. -/
def NameStep.written? : NameStep → Option String
  | .event (.bind .declared id) | .update id => some id
  | _ => none

abbrev NameSteps := List NameStep

/-- Steps without the updates. -/
def NameSteps.trace (steps : NameSteps) : NameTrace := steps.filterMap (·.event?)

/-- A trace without updates. -/
def NameTrace.steps (trace : NameTrace) : NameSteps := trace.map .event

namespace NameSteps

@[simp] theorem trace_append (xs ys : NameSteps) :
    trace (xs ++ ys) = xs.trace ++ ys.trace := List.filterMap_append

@[simp] theorem trace_nil : trace [] = [] := rfl

@[simp] theorem trace_event (e : NameEvent) (rest : NameSteps) :
    trace (.event e :: rest) = e :: rest.trace := rfl

@[simp] theorem trace_update (id : String) (rest : NameSteps) :
    trace (.update id :: rest) = rest.trace := rfl

@[simp] theorem trace_steps (trace : NameTrace) : trace.steps.trace = trace := by
  induction trace with
  | nil => rfl
  | cons e rest ih => exact congrArg (e :: ·) ih

end NameSteps

def functionSteps (binds : NameTrace) (body : NameSteps) : NameSteps :=
  .event .enter :: (binds.steps ++ body) ++ [.event .leave]

@[simp] theorem trace_functionSteps (binds : NameTrace) (body : NameSteps) :
    (functionSteps binds body).trace = functionTrace binds body.trace := by
  simp [functionSteps, functionTrace]

/-- A variable that is updated. -/
def Target.updates : Target → NameSteps
  | .name _ id => [.update id]
  | .member _ _ | .subscript _ _ | .foreign _ _ => []

@[simp] theorem Target.trace_updates (target : Target) : target.updates.trace = [] := by
  cases target <;> rfl

mutual

/-- What happens to names in a statement, which may be a member of a class, and which variables it
updates. -/
def Stmt.steps (inClass : Bool) : Stmt → NameSteps
  | .augment target _ right => NameTrace.steps (target.trace ++ right.trace) ++ target.updates
  | .branch _ condition body more otherwise =>
    condition.trace.steps ++
      (blockSteps inClass body ++ (branchSteps inClass more ++ otherwiseSteps inClass otherwise))
  | .forLoop _ _ target iterable body _ =>
    NameTrace.steps (iterable.trace ++ (target.trace ++ target.binds)) ++ blockSteps inClass body
  | .whileLoop _ condition body otherwise =>
    condition.trace.steps ++ (blockSteps inClass body ++ otherwiseSteps inClass otherwise)
  | .function decorators (.mk _ _ _ name parameters body) =>
    if inClass then
      if isNative decorators then []
      else
        match Lowering.methodForm decorators with
        | .ok .static =>
          (defaultTrace parameters).steps ++
            functionSteps (parameterBinds (declaredNames parameters)) (blockSteps false body)
        | _ =>
          (defaultTrace (behindReceiver parameters)).steps ++
            functionSteps (methodBinds (declaredNames parameters)) (blockSteps false body)
    else
      .event (.bind .function name) :: ((defaultTrace (besideSelf parameters)).steps ++
        functionSteps (parameterBinds (withoutSelf (declaredNames parameters)))
        (blockSteps false body))
  | .classDef _ (.mk _ _ name bases body) =>
    (baseTrace bases).steps ++
      (.event (.bind .className name) :: (nativeSteps body ++ memberSteps body))
  | s => (s.trace inClass).steps

def blockSteps (inClass : Bool) : List Stmt → NameSteps
  | [] => []
  | s :: rest => s.steps inClass ++ blockSteps inClass rest

def otherwiseSteps (inClass : Bool) : Option (List Stmt) → NameSteps
  | none => []
  | some body => blockSteps inClass body

def branchSteps (inClass : Bool) : List Branch → NameSteps
  | [] => []
  | .mk condition body :: rest => condition.trace.steps ++
      (blockSteps inClass body ++ branchSteps inClass rest)

def nativeSteps : List Stmt → NameSteps
  | [] => []
  | .function decorators (.mk _ _ _ _ parameters body) :: rest =>
    if isNative decorators then
      (defaultTrace (behindReceiver parameters)).steps ++
        (functionSteps (methodBinds (declaredNames parameters)) (blockSteps false body) ++
        nativeSteps rest)
    else nativeSteps rest
  | _ :: rest => nativeSteps rest

def memberSteps : List Stmt → NameSteps
  | [] => []
  | .assign _ right :: rest => right.trace.steps ++ memberSteps rest
  | s :: rest => s.steps true ++ memberSteps rest

end

def programSteps (statements : List Stmt) : EntryPoint → NameSteps
  | .module => blockSteps false statements
  | .body =>
    match firstFunction? statements with
    | none => []
    | some d => (parameterBinds (withoutSelf (declaredNames d.parameters))).steps ++
        blockSteps false d.body
  | .callable _ =>
    match firstFunction? statements with
    | none => []
    | some d =>
      (defaultTrace (besideSelf d.parameters)).steps ++
        functionSteps (parameterBinds (withoutSelf (declaredNames d.parameters)))
        (blockSteps false d.body)

mutual

theorem Stmt.trace_steps (inClass : Bool) : ∀ s : Stmt, (s.steps inClass).trace = s.trace inClass
  | .branch _ condition body more otherwise => by
    rw [Stmt.steps, Stmt.trace]
    simp [trace_blockSteps, trace_branchSteps, trace_otherwiseSteps]
  | .forLoop _ _ target iterable body _ => by
    rw [Stmt.steps, Stmt.trace]
    simp [trace_blockSteps]
  | .whileLoop _ condition body otherwise => by
    rw [Stmt.steps, Stmt.trace]
    simp [trace_blockSteps, trace_otherwiseSteps]
  | .function decorators (.mk _ _ _ name parameters body) => by
    have hbody := trace_blockSteps false body
    rw [Stmt.steps, Stmt.trace]
    split_ifs
    · rfl
    · split <;> simp [*]
    · simp [hbody]
  | .classDef _ (.mk _ _ name bases body) => by
    rw [Stmt.steps, Stmt.trace]
    simp [trace_nativeSteps, trace_memberSteps]
  | .augment target _ right => by
    rw [Stmt.steps, Stmt.trace]
    simp
  | .evaluate _ _ | .asserts _ _ | .prints _ _ _ | .assign _ _ | .returns _ _ | .raises _ _ _
  | .outer _ _ _ _ | .pass _
  | .breaks _ | .continues _ | .foreign _ _ _ => by
    rw [Stmt.steps, NameSteps.trace_steps]
    all_goals simp

theorem trace_blockSteps (inClass : Bool) :
    ∀ body : List Stmt, (blockSteps inClass body).trace = blockTrace inClass body
  | [] => by rw [blockSteps, blockTrace, NameSteps.trace_nil]
  | s :: rest => by
    rw [blockSteps, blockTrace, NameSteps.trace_append, s.trace_steps, trace_blockSteps]

theorem trace_otherwiseSteps (inClass : Bool) :
    ∀ otherwise : Option (List Stmt), (otherwiseSteps inClass otherwise).trace =
    otherwiseTrace inClass otherwise
  | none => by rw [otherwiseSteps, otherwiseTrace, NameSteps.trace_nil]
  | some body => by rw [otherwiseSteps, otherwiseTrace, trace_blockSteps]

theorem trace_branchSteps (inClass : Bool) :
    ∀ more : List Branch, (branchSteps inClass more).trace = branchTrace inClass more
  | [] => by rw [branchSteps, branchTrace, NameSteps.trace_nil]
  | .mk condition body :: rest => by
    rw [branchSteps, branchTrace]
    simp [trace_blockSteps, trace_branchSteps]

theorem trace_nativeSteps : ∀ body : List Stmt, (nativeSteps body).trace = nativeTrace body
  | [] => by rw [nativeSteps, nativeTrace, NameSteps.trace_nil]
  | s :: rest => by
    cases s with
    | function decorators d =>
      obtain ⟨pos, isAsync, bodyPos, name, parameters, body⟩ := d
      rw [nativeSteps, nativeTrace]
      split_ifs
      · simp [trace_blockSteps, trace_nativeSteps]
      · exact trace_nativeSteps rest
    | _ =>
      rw [nativeSteps, nativeTrace]
      · exact trace_nativeSteps rest
      all_goals simp

theorem trace_memberSteps : ∀ body : List Stmt, (memberSteps body).trace = memberTrace body
  | [] => by rw [memberSteps, memberTrace, NameSteps.trace_nil]
  | s :: rest => by
    cases s with
    | assign target right =>
      rw [memberSteps, memberTrace]
      simp [trace_memberSteps]
    | _ =>
      rw [memberSteps, memberTrace, NameSteps.trace_append, Stmt.trace_steps, trace_memberSteps]
      all_goals simp

end

theorem trace_programSteps (statements : List Stmt) (entry : EntryPoint) :
    (programSteps statements entry).trace = programTrace statements entry := by
  unfold programSteps programTrace
  cases entry with
  | module => exact trace_blockSteps false statements
  | _ => cases firstFunction? statements <;> simp [trace_blockSteps]

/-! ## Reads -/

namespace SourceText

/-- What happens to names in the program of a source, and which variables it updates. -/
def steps (t : SourceText) : NameSteps := programSteps t.program t.entry

/-- A name is read behind other steps, and the text has its variable there. -/
def ReadsVariable (t : SourceText) (binding : Option Binding) (ed : Edition) (steps : NameSteps)
    (pos : Position)
    (id : String) : Prop :=
  .mention (steps.trace.mentionAfter binding pos id) ∈ allMarks (t.spans binding) ∧
    (steps.trace.mentionAfter binding pos id).text? ed.names = some (Names.variableName id)

/-- A name is read behind other steps, and stands for something outside of the program. -/
def ReadsOutside (binding : Option Binding) (ed : Edition) (steps : NameSteps) (pos : Position)
    (id : String) : Prop :=
  (steps.trace.mentionAfter binding pos id).text? ed.names =
    (outsideMeaning binding id).text? ed.names

/-- What a variable is where it is read, behind a write of it in a function that is still open.
Behind an update it is what it would be without the update. -/
structure ReadsBehindWrites (t : SourceText) (binding : Option Binding) (ed : Edition) : Prop where
  declared : ∀ (before between after : NameSteps) (pos : Position) (id : String),
    t.steps = before ++ .event (.bind .declared id) ::
    (between ++ .event (.mention (.name pos id)) :: after) → between.trace.StaysOpen →
      t.ReadsVariable binding ed (before ++ .event (.bind .declared id) :: between) pos id
  updated : ∀ (before between after : NameSteps) (pos : Position) (id : String),
    t.steps = before ++ .update id :: (between ++ .event (.mention (.name pos id)) :: after) →
    between.trace.StaysOpen →
      ((before ++ between).trace.Binds id → t.ReadsVariable binding ed
      (before ++ .update id :: between) pos id) ∧
      (¬(before ++ between).trace.Binds id → ReadsOutside binding ed
      (before ++ .update id :: between) pos id)

theorem trace_eq_of_steps {t : SourceText} {before after : NameSteps} {e : NameEvent}
    (h : t.steps = before ++ .event e :: after) : t.trace = before.trace ++ e :: after.trace := by
  rw [SourceText.trace, ← trace_programSteps, ← NameSteps.trace_event,
    ← NameSteps.trace_append, ← h]
  rfl

theorem readsBehindWrites (t : SourceText) (binding : Option Binding) (ed : Edition) :
    t.ReadsBehindWrites binding ed := by
  have hresolved := t.resolvedInOrder binding ed.names
  refine ⟨fun before between after pos id hsteps hopen => ?_,
    fun before between after pos id hsteps hopen => ?_⟩
  · rw [← List.cons_append, ← List.append_assoc] at hsteps
    refine hresolved.bound _ pos id _ (trace_eq_of_steps hsteps) ?_
    exact ⟨before.trace, .bind .declared id, between.trace, by simp, rfl, hopen⟩
  · rw [← List.cons_append, ← List.append_assoc] at hsteps
    have htrace : NameSteps.trace (before ++ .update id :: between) =
        (before ++ between).trace := by simp
    refine ⟨fun hbinds => ?_, fun hbinds => ?_⟩
    · exact hresolved.bound _ pos id _ (trace_eq_of_steps hsteps) (htrace ▸ hbinds)
    · exact hresolved.unbound _ pos id _ (trace_eq_of_steps hsteps) (htrace ▸ hbinds)

end SourceText

/-- In every text of a unit or a bundle, a name that was assigned, annotated or bound by a loop is
the variable wherever it is read later. A name that was updated is the variable exactly if it was
bound. -/
theorem write_hides_context_unless_update (options : Options) :
    (∀ (unit : SourceUnit) (output : String), unit.compile options = .ok output →
      unit.TextsHave options output SourceText.ReadsBehindWrites) ∧
    ∀ (bundle : Bundle) (output : String), bundle.compile options = .ok output →
      bundle.TextsHave options output SourceText.ReadsBehindWrites :=
  textsHave (fun t binding ed _ _ => t.readsBehindWrites binding ed) options

def limitSource : String :=
  "class A:\n    def f(self):\n        for n in range(3):\n            limit += n\n" ++
  "        return limit + n\n"

def limitOutput : String :=
  "class A \x7b\n\x7d\nA.prototype.f = function() \x7b\n" ++
  "    for (var n of [...Array(3).keys()]) \x7b\n" ++
    "        limit += n;\n    \x7d\n    return (5 + n);\n\x7d;\nA.f = function() \x7b\n" ++
    "    return A.prototype.f.apply(arguments[0], Array.prototype.slice.call(arguments, 1));\n\x7d;\n"

def limitContext : Binding := ⟨[("limit", .integer 5), ("n", .integer 6)]⟩

def limitUnit : SourceUnit := ⟨limitSource, some limitContext, .module⟩

def limitBundle : Bundle := ⟨[(.element limitSource none none none, none)], some limitContext⟩

theorem write_hides_context_in_loop :
    (limitUnit.compile {} = .ok limitOutput ∧
    limitUnit.TextsHave {} limitOutput SourceText.ReadsBehindWrites ∧
      (SourceText.mk limitSource .module limitOutput).steps.filterMap
      (·.written?) = ["n", "limit"]) ∧
    limitBundle.compile {} = .ok limitOutput ∧
      limitBundle.TextsHave {} limitOutput SourceText.ReadsBehindWrites := by
  have hunit : limitUnit.compile {} = .ok limitOutput := by decide +kernel
  have hbundle : limitBundle.compile {} = .ok limitOutput := by decide +kernel
  exact ⟨⟨hunit, (write_hides_context_unless_update {}).1 limitUnit _ hunit, by decide +kernel⟩,
    hbundle, (write_hides_context_unless_update {}).2 limitBundle _ hbundle⟩

/-- The variable is written, and the value of the context is read. -/
theorem update_does_not_hide_context :
    (SourceUnit.mk "limit += 1\nprint(limit)\n" (some ⟨[("limit", .integer 5)]⟩) .module).compile
    {} =
      .ok "limit += 1;\nconsole.log(5);\n" := by
  decide +kernel

end ScriptCompiler
