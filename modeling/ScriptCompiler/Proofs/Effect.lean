import ScriptCompiler.Proofs.LiteralFault
import ScriptCompiler.Proofs.Run
import ScriptCompiler.Proofs.Schedule

/-!
# Effects of a lowering

What lowering actions do besides the text that they give: they bind names in the innermost frame,
they let the binder grow, and they run others one level deeper, behind a reserved line or in a frame
of their own. Some of them fail.
-/

namespace ScriptCompiler

variable {b₁ b₂ b : Binder} {f : Fault} {scopes : Scopes} {d : Diagnostic}
  {binding : Option Binding}

/-! ## Frames -/

namespace Scopes

theorem outer_register (s : Scopes) (name : String) : (s.register name).outer = s.outer := by
  unfold register
  split_ifs <;> rfl

theorem outer_registerAll (s : Scopes) (names : List String) :
    (s.registerAll names).outer = s.outer := by
  induction names generalizing s with
  | nil => rfl
  | cons name rest ih => exact (ih (s.register name)).trans (s.outer_register name)

/-- A frame is left by dropping it, whatever was bound in it. -/
theorem pop_of_outer_eq {s inner : Scopes} (h : inner.outer = s.push.outer) : inner.pop = s := by
  unfold pop
  rw [h]
  rfl

/-- The scopes come from earlier ones by binding names in the innermost frame. -/
def Grows (later earlier : Scopes) : Prop := ∃ names, later = earlier.registerAll names

namespace Grows

variable {s t u : Scopes}

theorem refl (s : Scopes) : s.Grows s := ⟨[], rfl⟩

theorem register (s : Scopes) (name : String) : (s.register name).Grows s := ⟨[name], rfl⟩

theorem trans (h : u.Grows t) (h' : t.Grows s) : u.Grows s := by
  obtain ⟨names, rfl⟩ := h'
  obtain ⟨more, rfl⟩ := h
  exact ⟨names ++ more, List.foldl_append.symm⟩

theorem outer (h : t.Grows s) : t.outer = s.outer := by
  obtain ⟨names, rfl⟩ := h
  exact s.outer_registerAll names

end Grows

end Scopes

theorem ClauseTarget.grows_boundIn (scopes : Scopes) (target : ClauseTarget) :
    (target.boundIn scopes).Grows scopes := by
  cases target with
  | name id => exact .register scopes id
  | names ids => exact ⟨ids, rfl⟩
  | foreign pos kind => exact .refl scopes

theorem grows_clauseScopes (scopes : Scopes) (clauses : List Clause) :
    (clauseScopes scopes clauses).Grows scopes := by
  induction clauses generalizing scopes with
  | nil => exact .refl scopes
  | cons clause rest ih =>
    cases clause with
    | loop pos isAsync target iterable => exact (ih _).trans (target.grows_boundIn scopes)
    | guard condition => exact ih scopes

theorem Target.grows_boundIn (scopes : Scopes) (t : Target) : (t.boundIn scopes).Grows scopes := by
  cases t with
  | name pos id => exact .register scopes id
  | _ => exact .refl scopes

/-! ### Events of a frame -/

/-- What happens to the variables of a frame. -/
inductive FrameEvent where
  /-- A value is assigned, once or by a loop. -/
  | assign (id : String)
  /-- A variable is annotated without a value. -/
  | annotate (id : String)
  /-- A variable is updated. Its name is written a number of times for that. -/
  | update (id : String) (count : Nat)
  /-- A name is bound by a definition, or is said to be one of an outer frame. -/
  | register (id : String)
deriving DecidableEq, Repr

def FrameEvent.bound? : FrameEvent → Option String
  | .assign id | .annotate id | .register id => some id
  | .update _ _ => none

def Target.events (event : String → FrameEvent) : Target → List FrameEvent
  | .name _ id => [event id]
  | .member _ _ | .subscript _ _ | .foreign _ _ => []

mutual

/-- What a statement does to the variables of its frame, in the order of the text. -/
def Stmt.events (inClass : Bool) : Stmt → List FrameEvent
  | .assign left (.value _) => left.events .assign
  | .assign left _ => left.events .annotate
  | .augment left op _ => left.events (.update · (if op.symbol?.isSome then 1 else 2))
  | .outer _ _ _ names => names.map .register
  | .branch _ _ body more otherwise =>
    blockEvents inClass body ++ branchEvents inClass more ++ otherwiseEvents inClass otherwise
  | .forLoop _ _ left _ body _ => left.events .assign ++ blockEvents inClass body
  | .whileLoop _ _ body otherwise => blockEvents inClass body ++ otherwiseEvents inClass otherwise
  | .function _ d => if inClass then [] else [.register d.name]
  | .classDef _ (.mk _ _ name _ body) => .register name :: memberEvents body
  | .evaluate _ _ | .returns _ _ | .pass _ | .breaks _ | .continues _ | .asserts _ _ | .raises _ _ _
  | .prints _ _ _
  | .foreign _ _ _ => []

def blockEvents (inClass : Bool) : List Stmt → List FrameEvent
  | [] => []
  | s :: rest => s.events inClass ++ blockEvents inClass rest

def otherwiseEvents (inClass : Bool) : Option (List Stmt) → List FrameEvent
  | none => []
  | some body => blockEvents inClass body

def branchEvents (inClass : Bool) : List Branch → List FrameEvent
  | [] => []
  | .mk _ body :: rest => blockEvents inClass body ++ branchEvents inClass rest

/-- Attributes of a class are no variables. -/
def memberEvents : List Stmt → List FrameEvent
  | [] => []
  | .assign _ _ :: rest => memberEvents rest
  | s :: rest => s.events true ++ memberEvents rest

end

namespace Scopes

/-- The frames after events of the innermost one. -/
def after (scopes : Scopes) (events : List FrameEvent) :
    Scopes := scopes.registerAll (events.filterMap (·.bound?))

variable (scopes : Scopes)

theorem after_append (as bs : List FrameEvent) :
    scopes.after (as ++ bs) = (scopes.after as).after bs := by
  rw [after, List.filterMap_append, registerAll, List.foldl_append]
  rfl

theorem after_register (names : List String) :
    scopes.after (names.map .register) = scopes.registerAll names := by
  simp [after, List.filterMap_map, FrameEvent.bound?]

end Scopes

theorem Target.after_events {event : String → FrameEvent}
    (hevent : ∀ id, (event id).bound? = some id) (left : Target)
    (scopes : Scopes) : scopes.after (left.events event) = left.boundIn scopes := by
  cases left with
  | name pos id => simp [Target.events, Scopes.after, hevent, Scopes.registerAll, Target.boundIn]
  | _ => rfl

mutual

/-- A statement binds names in the innermost frame only. -/
theorem Stmt.scopesAfter_eq (inClass : Bool) (scopes : Scopes) :
    ∀ s : Stmt, s.scopesAfter inClass scopes = scopes.after (s.events inClass)
  | .assign left (.value _) | .assign left .nothing | .assign left .chained => by
    rw [Stmt.scopesAfter, Stmt.events, Target.after_events fun _ => rfl]
    all_goals nofun
  | .augment left op right => by
    rw [Stmt.scopesAfter, Stmt.events]
    cases left <;> rfl
  | .outer _ _ _ names => by
    rw [Stmt.scopesAfter, Stmt.events, Scopes.after_register]
  | .branch _ _ body more otherwise => by
    rw [Stmt.scopesAfter, Stmt.events, Scopes.after_append, Scopes.after_append, blockScopes_eq,
      branchScopes_eq,
      otherwiseScopes_eq]
  | .forLoop _ _ left _ body _ => by
    rw [Stmt.scopesAfter, Stmt.events, Scopes.after_append, Target.after_events fun _ => rfl,
      blockScopes_eq]
  | .whileLoop _ _ body otherwise => by
    rw [Stmt.scopesAfter, Stmt.events, Scopes.after_append, blockScopes_eq, otherwiseScopes_eq]
  | .function _ d => by
    rw [Stmt.scopesAfter, Stmt.events]
    split_ifs <;> rfl
  | .classDef _ (.mk _ _ name _ body) => by
    rw [Stmt.scopesAfter, Stmt.events, memberScopes_eq]
    rfl
  | .evaluate _ _ | .returns _ _ | .pass _ | .breaks _ | .continues _ | .asserts _ _ | .raises _ _ _
  | .prints _ _ _ | .foreign _ _ _ => by
    rw [Stmt.scopesAfter, Stmt.events]
    rfl

theorem blockScopes_eq (inClass : Bool) (scopes : Scopes) :
    ∀ body : List Stmt, blockScopes inClass scopes body = scopes.after (blockEvents inClass body)
  | [] => by
    rw [blockScopes, blockEvents]
    rfl
  | s :: rest => by
    rw [blockScopes, blockEvents, Scopes.after_append, Stmt.scopesAfter_eq, blockScopes_eq]

theorem otherwiseScopes_eq (inClass : Bool) (scopes : Scopes) :
    ∀ otherwise : Option (List Stmt), otherwiseScopes inClass scopes otherwise =
    scopes.after (otherwiseEvents inClass otherwise)
  | none => by
    rfl
  | some body => by
    rw [otherwiseScopes, otherwiseEvents, blockScopes_eq]

theorem branchScopes_eq (inClass : Bool) (scopes : Scopes) :
    ∀ more : List Branch, branchScopes inClass scopes more =
    scopes.after (branchEvents inClass more)
  | [] => by
    rfl
  | .mk _ body :: rest => by
    rw [branchScopes, branchEvents, Scopes.after_append, blockScopes_eq, branchScopes_eq]

theorem memberScopes_eq (scopes : Scopes) :
    ∀ body : List Stmt, memberScopes scopes body = scopes.after
    (memberEvents body)
  | [] => by
    rfl
  | s :: rest => by
    by_cases hassign : ∃ target right, s = .assign target right
    · obtain ⟨target, right, rfl⟩ := hassign
      rw [memberScopes, memberEvents, memberScopes_eq]
    · have hother : ∀ target right, s ≠ .assign target right := fun target right heq =>
        hassign ⟨target, right, heq⟩
      rw [memberScopes, memberEvents, Scopes.after_append, Stmt.scopesAfter_eq, memberScopes_eq]
      all_goals exact hother

end

theorem grows_blockScopes (inClass : Bool) (scopes : Scopes) (body : List Stmt) :
    (blockScopes inClass scopes body).Grows scopes :=
  ⟨_, blockScopes_eq inClass scopes body⟩

/-! ## Binders -/

/-- A binder that has all the names of an earlier one, for the same binding. -/
structure Binder.Extends (b earlier : Binder) : Prop where
  binding : b.binding = earlier.binding
  names : ∀ {identity : Nat} {name : String}, earlier.names.lookup identity = some name →
    b.names.lookup identity = some name

theorem Binder.Extends.trans {b₃ : Binder} (h₂ : b₃.Extends b₂) (h₁ : b₂.Extends b₁) :
    b₃.Extends b₁ :=
  ⟨h₂.binding.trans h₁.binding, fun hname => h₂.names (h₁.names hname)⟩

theorem Binder.Extends.mem_known {earlier : Binder} (h : b.Extends earlier) {i : Nat}
    (hi : i ∈ earlier.known) : i ∈ b.known := by
  by_contra hnot
  have hnone := Binder.lookup_eq_none_iff_not_mem_known.mpr hnot
  cases hname : earlier.names.lookup i with
  | none => exact Binder.lookup_eq_none_iff_not_mem_known.mp hname hi
  | some name => simp [h.names hname] at hnone

theorem Binder.extends_of_scheduleAll {refs : List Reference} (h : b₁.scheduleAll refs = .ok b₂) :
    b₂.Extends b₁ :=
  ⟨scheduleAll_binding h, scheduleAll_lookup h⟩

/-- A binder for a session that has come to its end: it extends the other one, and nothing is in
progress. -/
structure Binder.Settles (b earlier : Binder) : Prop extends b.Extends earlier where
  idle : b.inProgress = []

theorem Binder.Settles.earlier (h : b.Settles b₂) (hextends : b₂.Extends b₁) : b.Settles b₁ :=
  ⟨h.toExtends.trans hextends, h.idle⟩

/-- A value that is no callable is a literal or has no text. -/
theorem Binder.render_of_ne_callable (b : Binder) {value : ContextValue} (access : String)
    (owner : Option String)
    (h : ∀ identity callable, value ≠ .callable identity callable) :
    b.render value access owner = .ok (value.literal?.elim .unresolved .literal, b) := by
  unfold render
  split
  · exact absurd rfl (h _ _)
  · cases value.literal? <;> rfl

/-! ## Failures -/

/-- A failure is no fault of the context's cycles, or it blames one of the references, to a callable
in progress. -/
def Binder.Blames (b : Binder) (refs : List Reference) (d : Diagnostic) : Prop :=
  d.kind = .cyclicContext →
    ∃ r ∈ refs, r.identity ∈ b.inProgress ∧
    ∃ pos, d = (Fault.cyclicCallable r.callable.name).reportAt pos

theorem Fault.kind_reportAt (f : Fault) (pos : Position) : (f.reportAt pos).kind = f.kind := by
  unfold reportAt Diagnostic.located
  split_ifs <;> rfl

theorem Fault.IsRefusal.kind_ne_cyclic (h : f.IsRefusal) : f.kind ≠ .cyclicContext := by
  rw [h.kind]
  simp

theorem Fault.IsFlawOf.kind_ne_cyclic {token : List Char} (h : f.IsFlawOf token) :
    f.kind ≠ .cyclicContext := by
  rcases h with hrefusal | rfl | ⟨-, rfl⟩
  · exact hrefusal.kind_ne_cyclic
  · simp [Fault.kind]
  · simp [Fault.kind]

/-- A binder finds what its binding holds. -/
theorem Expr.contextHit?_ofBinding (scopes : Scopes) (b : Binder) :
    ∀ e : Expr, e.contextHit? scopes b = e.contextHit? scopes (.ofBinding b.binding) := by
  intro e
  fun_induction Expr.contextHit? scopes b e with
  | case1 | case4 => simp_all [Expr.contextHit?]
  | case2 => simp_all [Expr.contextHit?, Binder.lookup, Binder.ofBinding]
  | case3 object key ih => simp only [Expr.contextHit?, ih]

theorem Expr.kind_of_contextHit?_eq_error :
    ∀ {e : Expr}, e.contextHit? scopes b = .error d → d.kind = .contextResolution := by
  intro e h
  fun_induction Expr.contextHit? scopes b e with
  | case1 => cases h
  | case2 => cases h
  | case3 object key ih =>
    cases hobject : object.contextHit? scopes b with
    | error d' =>
      rw [hobject] at h
      exact ih (h ▸ hobject)
    | ok found =>
      rw [hobject] at h
      cases found with
      | none => cases h
      | some base =>
        obtain ⟨value, access, owner⟩ := base
        cases hattribute : Binder.attributeOf? value key with
        | ok found => simp [bind, Except.bind, hattribute, pure, Except.pure] at h
        | error f =>
          simp only [bind, Except.bind, hattribute] at h
          injection h with h
          rw [← h]
          unfold Binder.attributeOf? at hattribute
          split at hattribute
          · split at hattribute <;> cases hattribute
            rfl
          · cases hattribute
  | case4 => cases h

/-- A variable hides the context. -/
theorem Expr.contextReferences?_name_of_bound {pos : Position}
    {id : String} (h : scopes.isBound id) :
    (Expr.name pos id).contextReferences? binding scopes = none := by
  unfold Expr.contextReferences? Expr.contextHit?
  rw [if_pos h]

theorem StringToken.references_of_not_format {t : StringToken}
    (h : t.isFormat = false) : t.references binding scopes = [] := by
  obtain ⟨pos, token, pieces⟩ := t
  exact if_neg (Bool.eq_false_iff.mp h)

theorem tokenReferences_of_not_format {tokens : List StringToken}
    (h : tokens.any (·.isFormat) = false) : tokenReferences binding scopes tokens = [] := by
  induction tokens with
  | nil => rw [tokenReferences]
  | cons t rest ih =>
    rw [List.any_cons, Bool.or_eq_false_iff] at h
    rw [tokenReferences, StringToken.references_of_not_format h.1, ih h.2, List.nil_append]

namespace Lowering

theorem kind_of_methodForm_eq_error {decorators : List Decorator}
    (h : methodForm decorators = .error d) : d.kind = .unsupportedConstruct := by
  unfold methodForm at h
  split at h
  · cases h
  · split_ifs at h
    injection h with h
    simp [← h, Diagnostic.withHint, Diagnostic.unsupported]
  · injection h with h
    simp [← h, Diagnostic.unsupported]

/-! ## Actions around others -/

theorem indented_run (inner : Lowering Unit) (s : LoweringState) : (indented inner).run s =
      match inner.run { s with buffer := s.buffer.indent } with
      | .ok _ t => .ok () { t with buffer := t.buffer.dedent }
      | .error d t => .error d t := by
  have henter : Change.indent.apply s = { s with buffer := s.buffer.indent } := rfl
  unfold indented
  rw [run_perform_bind, run_bind, henter]
  cases inner.run { s with buffer := s.buffer.indent } <;> rfl

theorem enclosed_run (closer : String) (inner : Lowering Unit) (s : LoweringState) :
    (enclosed closer inner).run s =
      match inner.run { s with buffer := s.buffer.indent } with
      | .ok _ t => .ok () { t with buffer := t.buffer.dedent.write closer }
      | .error d t => .error d { t with buffer := t.buffer.dedent.write closer } := by
  have henter : Change.indent.apply s = { s with buffer := s.buffer.indent } := rfl
  unfold enclosed
  rw [run_perform_bind, run_ensuring, henter]
  cases inner.run { s with buffer := s.buffer.indent } <;> rfl

/-- Reserve a line, and give it its text after an action. -/
def reserving (line : String) (inner : Lowering Unit) : Lowering Unit := do
  let mark ← reserve
  inner
  patch mark line

theorem reserving_run (line : String) (inner : Lowering Unit) (s : LoweringState) :
    (reserving line inner).run s =
      match inner.run { s with buffer := s.buffer.reserve.2 } with
      | .ok _ t => .ok () { t with buffer := t.buffer.patch s.buffer.reserve.1 line }
      | .error d t => .error d t := by
  have hreserve : (reserving line inner).run s =
      (inner >>= fun _ => patch s.buffer.reserve.1 line).run
      { s with buffer := s.buffer.reserve.2 } := rfl
  rw [hreserve, run_bind]
  cases inner.run { s with buffer := s.buffer.reserve.2 } <;> rfl

/-- The reserved line is filled when the body is done, so the two belong to one action. -/
theorem whileElse_eq (condition : String) (body otherwise : Lowering Unit) :
    whileElse condition body otherwise = (do
      let sentinel ← temporary "orelse"
      reserving ("var " ++ sentinel ++ " = false;") do
        write "while (true) \x7b"
        indented do
          write ("if (!(" ++ condition ++ ")) \x7b")
          indented do
            write (sentinel ++ " = true;")
            write "break;"
          write "\x7d"
          body
        write "\x7d"
      write ("if (" ++ sentinel ++ ") \x7b")
      indented otherwise
      write "\x7d") := by
  simp only [whileElse, reserving, bind_assoc]

theorem render_run (pos : Position) (value : ContextValue) (access : String) (owner : Option String)
    (s : LoweringState) :
    (render pos value access owner).run s =
      match s.binder.render value access owner with
      | .error f => .error (f.reportAt pos) s
      | .ok (.literal text, b) => .ok (some text) { s with binder := b }
      | .ok (.reference text, b) => .ok (some text) { s with binder := b }
      | .ok (.unresolved, b) => .ok none { s with binder := b } := by
  unfold render
  rw [run_get_bind]
  cases s.binder.render value access owner with
  | error f => rfl
  | ok out =>
    obtain ⟨resolution, b⟩ := out
    cases resolution <;> rfl

/-! ## Functions -/

/-- The variables that a receiver needs. -/
def Receiver.boundNames : Receiver → List String
  | .bound name => [name]
  | .absent | .unbound => []

/-- What is written between the header and the closer of a function. -/
def functionLines (formals : List Script.Formal) (receiver : Receiver) (body : Lowering Unit) :
    Lowering Unit :=
  inFrame do
    formals.forM (register ·.name)
    formals.forM fun p => match p.default with
      | some default => write (defaultLine p.name default)
      | none => pure ()
    match receiver with
    | .bound name => do
      register name
      if name ≠ selfName then write ("var " ++ name ++ " = this;")
    | .absent | .unbound => pure ()
    body

theorem names_splitSelf (formals : List Script.Formal) :
    (splitSelf formals).2.map (·.name) = withoutSelf (formals.map (·.name)) := by
  cases formals with
  | nil => rfl
  | cons p rest =>
    rw [splitSelf, List.map_cons, withoutSelf]
    split_ifs <;> rfl

theorem boundNames_splitSelf (formals : List Script.Formal) :
    (splitSelf formals).1.boundNames = [] := by
  cases formals with
  | nil => rfl
  | cons p rest =>
    rw [splitSelf]
    split_ifs <;> rfl

theorem names_of_formals {parameters : List Parameter} {fs : List Script.Formal}
    {s t : LoweringState}
    (h : (formals parameters).run s = .ok fs t) : fs.map (·.name) = declaredNames parameters := by
  induction parameters generalizing s t fs with
  | nil =>
    cases h
    rfl
  | cons parameter rest ih =>
    cases parameter with
    | foreign pos construct =>
      cases h
    | plain name =>
      obtain ⟨more, u, hrest, h⟩ := exists_of_bind_eq_ok h
      cases h
      rw [List.map_cons, ih hrest, declaredNames]
    | withDefault name value =>
      obtain ⟨text, u, -, h⟩ := exists_of_bind_eq_ok h
      obtain ⟨more, v, hrest, h⟩ := exists_of_bind_eq_ok h
      cases h
      rw [List.map_cons, ih hrest, declaredNames]

end Lowering

end ScriptCompiler
