import ScriptCompiler.Proofs.DraftTrace

/-!
# Drafts of statements tell their traces

The names in the draft of a statement come from the trace of the statement and what happens to names
in the trace shows in the draft, and so it is for a program. Statements bind names in the innermost
frame, and what a program enters it leaves.
-/

namespace ScriptCompiler

open NameTrace Spans

variable {binding : Option Binding} {scopes : Scopes} {xs : Spans}

/-! ## Functions -/

section Functions

theorem formalSpans_behindReceiver (p : Place) (parameters : List Parameter) :
    formalSpans p (behindReceiver parameters) = (formalSpans p parameters).tail := by
  cases parameters with
  | nil => simp [behindReceiver, formalSpans]
  | cons first rest => cases first <;> simp [behindReceiver, formalSpans]

theorem formalSpans_besideSelf (p : Place) (parameters : List Parameter) :
    formalSpans p (besideSelf parameters) = Spans.withoutSelf (formalSpans p parameters) := by
  have hself : Spans.startsWithSelf (formalSpans p parameters) = true ↔
      (declaredNames parameters).head? = some Lowering.selfName := by
    rw [← names_formalSpans p]
    cases formalSpans p parameters <;> simp [Spans.startsWithSelf]
  unfold besideSelf Spans.withoutSelf
  by_cases h : (declaredNames parameters).head? = some Lowering.selfName
  · rw [if_pos h, if_pos (hself.mpr h), formalSpans_behindReceiver]
  · rw [if_neg h, if_neg (hself.not.mpr h)]

theorem declaredNames_behindReceiver (parameters : List Parameter) :
    declaredNames (behindReceiver parameters) = (declaredNames parameters).tail := by
  cases parameters with
  | nil => simp [behindReceiver, declaredNames]
  | cons first rest => cases first <;> simp [behindReceiver, declaredNames]

theorem declaredNames_besideSelf (parameters : List Parameter) :
    declaredNames (besideSelf parameters) = withoutSelf (declaredNames parameters) := by
  unfold besideSelf
  split_ifs with hself
  · rw [declaredNames_behindReceiver]
    cases hnames : declaredNames parameters <;> simp_all [withoutSelf]
  · cases hnames : declaredNames parameters <;> simp_all [withoutSelf]

variable {p : Place} {parameters : List Parameter} {isAsync : Bool} {name className : String}
  {body : NameTrace}

/-- What the body of a function tells. It binds names in the frame of the function only. -/
structure Place.BodyTells (p : Place) (names : List String) (body : NameTrace) (xs : Spans) :
    Prop where
  exists_tells : ∃ scopes, scopes.outer = p.scopes.push.outer ∧
    xs.Tells p.binding (p.inFunction names).scopes scopes body

theorem Place.BodyTells.block {names : List String} {stmts : List Stmt}
    (h : xs.Tells p.binding (p.inFunction names).scopes
    (blockScopes false (p.inFunction names).scopes stmts) body) : p.BodyTells names body xs :=
  ⟨_, ((grows_blockScopes false _ stmts).outer).trans (Scopes.outer_registerAll _ names), h⟩

theorem Place.tells_function {binds : NameTrace} {names : List String} {introductions ys : Spans}
    (hintroductions : introductions.Tells p.binding p.scopes.push
    (p.scopes.push.registerAll names) binds)
    (hbody : p.BodyTells names body xs)
    (hmarks : ∀ Q, All Q ys ↔
      All Q (Spans.defaults (formalSpans p parameters)) ∧ All Q introductions ∧ All Q xs) :
    ys.Tells p.binding p.scopes p.scopes (defaultTrace parameters ++ functionTrace binds body) := by
  obtain ⟨scopes, houter, hbody⟩ := hbody.exists_tells
  have hfunction := (hintroductions.append hbody fun _ => Spans.all_append).inFunction houter
  refine (tells_formalSpans p parameters).append hfunction fun Q => ?_
  rw [hmarks, Spans.all_append]

/-- The function has the parameters of its draft. -/
theorem tells_parameters (depth : Nat) (closer : String) {head : Spans} (hhead : ∀ Q, All Q head)
    (h : p.BodyTells (declaredNames parameters) body xs) :
    (Spans.function depth head (formalSpans p parameters) .absent closer xs).Tells p.binding
    p.scopes p.scopes
      (defaultTrace parameters ++
      functionTrace (parameterBinds (declaredNames parameters)) body) := by
  refine Place.tells_function (tells_parameterBinds _) h fun Q => ?_
  rw [Spans.all_functionSpans, Spans.all_formals, names_formalSpans]
  simp [hhead, and_assoc]

theorem tells_plainFunction
    (h : (p.register name).BodyTells (withoutSelf (declaredNames parameters)) body xs) :
    (Spans.plainFunction p.depth isAsync name (formalSpans (p.register name) parameters) xs).Tells
    p.binding p.scopes
      (p.scopes.register name) (.bind .function name :: (defaultTrace (besideSelf parameters) ++
        functionTrace (parameterBinds (withoutSelf (declaredNames parameters))) body)) := by
  rw [← declaredNames_besideSelf] at h ⊢
  unfold Spans.plainFunction
  rw [← formalSpans_besideSelf]
  have hfunction :=
    tells_parameters (p := p.register name) p.depth "\x7d" (fun _ => Spans.all_nil) h
  refine (Tells.bind .function name).append hfunction fun Q => ?_
  rw [Spans.all_functionSpans, Spans.all_functionSpans]
  split_ifs <;> simp [Spans.functionHead]

theorem tells_staticMethod (h : p.BodyTells (declaredNames parameters) body xs) :
    (Spans.staticMethod p.depth className isAsync name (formalSpans p parameters) xs).Tells
    p.binding p.scopes p.scopes
      (defaultTrace parameters ++ functionTrace (parameterBinds (declaredNames parameters)) body) :=
  have hhead : ∀ Q, All Q (Spans.prototypeHead isAsync className name) := by
    simp [Spans.prototypeHead]
  (tells_parameters p.depth "\x7d;" hhead h).mono (by simp [Spans.staticMethod])

def Spans.methodVariables : List String → Spans
  | receiver :: rest =>
    rest.map Spans.parameter ++ if receiver =
      Lowering.selfName then [] else [.introduction ⟨.receiver, receiver⟩]
  | [] => []

theorem tells_methodBinds (names : List String) : (Spans.methodVariables names).Tells binding scopes
    (scopes.registerAll (receiverLast names)) (methodBinds names) := by
  cases names with
  | nil => exact .nil (by simp [Spans.methodVariables])
  | cons receiver rest =>
    rw [receiverLast, Scopes.registerAll, List.foldl_append]
    refine (tells_parameterBinds rest).append ?_ fun _ => Spans.all_append
    split_ifs with hself
    · exact (Tells.bind .receiver receiver).replace Spans.all_nil
        (covers_singleton (.inr (.inr ⟨rfl, hself⟩)))
    · exact .bind .receiver receiver

/-- A method binds its receiver after its other parameters, and shows it unless that needs no
variable. -/
theorem tells_method (head : Spans) (closer : String) (hhead : ∀ Q, All Q head)
    (h : p.BodyTells (receiverLast (declaredNames parameters)) body xs) :
    (Spans.function p.depth head (Spans.splitReceiver (formalSpans p parameters)).2
      (Spans.splitReceiver (formalSpans p parameters)).1 closer xs).Tells p.binding
      p.scopes p.scopes
      (defaultTrace (behindReceiver parameters) ++ functionTrace
      (methodBinds (declaredNames parameters)) body) := by
  refine Place.tells_function (tells_methodBinds _) h fun Q => ?_
  rw [formalSpans_behindReceiver, ← names_formalSpans p, Spans.all_functionSpans]
  cases formalSpans p parameters with
  | nil => simp [Spans.splitReceiver, Spans.methodVariables, Spans.defaults, hhead]
  | cons f rest =>
    by_cases hself : f.name = Lowering.selfName <;>
      simp [Spans.splitReceiver, Spans.methodVariables, Spans.all_formals, hhead, hself, and_assoc]

theorem tells_instanceMethod (h : p.BodyTells (receiverLast (declaredNames parameters)) body xs) :
    (Spans.instanceMethod p.depth className isAsync name (formalSpans p parameters) xs).Tells
    p.binding p.scopes p.scopes
      (defaultTrace (behindReceiver parameters) ++ functionTrace
      (methodBinds (declaredNames parameters)) body) :=
  (tells_method (Spans.prototypeHead isAsync className name) "\x7d;"
    (by simp [Spans.prototypeHead]) h).mono
    (by simp [Spans.instanceMethod])

end Functions

/-! ## Simple statements -/

theorem Target.tells_spans (p : Place) (target : Target) :
    (target.spans p).Tells p.binding p.scopes p.scopes target.trace := by
  cases target with
  | member object key => exact (Expr.tells_draft p object).mono (by simp [Target.spans])
  | subscript value indices => exact Expr.tells_draft p (.subscript value indices)
  | _ => exact .nil (by simp [Target.spans])

theorem tells_baseTrace (bases : Option (Position × List Argument)) :
    (Spans.classBase bases).Tells binding scopes scopes (baseTrace bases) := by
  unfold Spans.classBase baseTrace
  split
  · rename_i id
    have hmark : Mark.FromTrace binding scopes [.base id] (.mention (.base id)) := ⟨[], [], rfl⟩
    refine ⟨?_, covers_singleton fun hid => ?_, rfl, fun _ => rfl⟩
    · by_cases hid : id = "object" <;> simp [hid, hmark]
    · simp [hid, allMarks, Span.marks]
  · exact .nil (by simp)

theorem tells_outers : ∀ {scopes : Scopes} (names : List String),
    Tells binding scopes (scopes.registerAll names) (names.map .outer) []
  | _, [] => .nil Spans.all_nil
  | scopes, name :: rest => by
    have hfirst : Tells binding scopes (scopes.register name) [.outer name] [] :=
      ⟨Spans.all_nil, covers_singleton trivial, rfl, fun _ => rfl⟩
    exact hfirst.append (tells_outers rest) (by simp)

/-- A variable is declared where its frame has not had it before. -/
theorem Place.tells_declaring (p : Place) (id : String) :
    (p.declaring id).Tells p.binding p.scopes (p.scopes.register id) [.bind .declared id] := by
  have hbind : Tells p.binding p.scopes _ _ _ := .bind .declared id
  unfold Place.declaring
  split_ifs with hdeclared
  · exact hbind.replace (by simp) (covers_singleton (.inr (.inl ⟨rfl, hdeclared⟩)))
  · exact hbind.mono (by simp)

theorem Place.tells_assigning (p : Place) (left : Target) :
    (p.assigning left).Tells p.binding p.scopes (left.boundIn p.scopes)
    (left.trace ++ left.binds) := by
  cases left with
  | name pos id => exact p.tells_declaring id
  | _ =>
    rw [Target.binds, List.append_nil]
    · exact Target.tells_spans p _
    · simp

theorem Place.tells_assign (p : Place) (left : Target) (right : Assigned) :
    (p.assign left right).Tells p.binding p.scopes (left.boundIn p.scopes)
    (assignmentTrace left right) := by
  cases right with
  | value e =>
    exact (Expr.tells_draft p e).append (p.tells_assigning left) (by simp [Place.assign, and_comm])
  | _ =>
    cases left with
    | name pos id =>
      have hbind : Tells p.binding p.scopes _ _ _ := .bind .declared id
      simp only [Place.assign, assignmentTrace, Target.binds]
      split_ifs with hdeclared
      · exact hbind.replace (by simp) (covers_singleton (.inr (.inl ⟨rfl, hdeclared⟩)))
      · exact hbind.mono (by simp)
    | _ => exact .nil (by simp [Place.assign])

theorem Place.tells_augment (p : Place) (left : Target) (op : BinaryOp) (right : Expr) :
    (p.augment left op right).Tells p.binding p.scopes p.scopes (left.trace ++ right.trace) := by
  refine (left.tells_spans p).append (Expr.tells_draft p right) fun Q => ?_
  unfold Place.augment
  split
  · simp
  · split <;> simp

theorem Place.tells_classAttribute (p : Place) (className : String) (left : Target)
    (right : Assigned) :
    (p.classAttribute className left right).Tells p.binding p.scopes p.scopes right.trace := by
  cases right with
  | value e =>
    exact (Expr.tells_draft p e).mono fun Q => by cases left <;> simp [Place.classAttribute]
  | _ => exact .nil (by cases left <;> simp [Place.classAttribute])

theorem tells_texts (p : Place) (items : List Expr) :
    Spans.Tells p.binding p.scopes p.scopes (itemTrace items)
    (items.map fun e => (e.draft p).spans).flatten := by
  induction items with
  | nil =>
    exact .nil (by simp)
  | cons e rest ih =>
    exact (Expr.tells_draft p e).append ih (by simp)

/-! ## All statements -/

mutual

theorem Stmt.tells_spans (p : Place) :
    ∀ s : Stmt, (s.spans p).Tells p.binding p.scopes (s.scopesAfter p.inClass p.scopes)
    (s.trace p.inClass)
  | .evaluate _ [e] => by
    rw [Stmt.scopesAfter, Stmt.spans, Stmt.trace]
    exact (tells_texts p [e]).mono (by simp)
  | .evaluate _ [] => by
    rw [Stmt.scopesAfter, Stmt.spans, Stmt.trace, itemTrace]
    · exact .nil (by simp [itemSpans])
    · simp
  | .evaluate _ (first :: second :: rest) => by
    rw [Stmt.scopesAfter, Stmt.spans, Stmt.trace]
    · exact (tells_itemSpans p (first :: second :: rest)).mono (by simp [Spans.all_flatten])
    · simp
  | .assign left right => by
    rw [Stmt.scopesAfter, Stmt.spans, Stmt.trace]
    exact p.tells_assign left right
  | .augment left op right => by
    rw [Stmt.scopesAfter, Stmt.spans, Stmt.trace]
    exact p.tells_augment left op right
  | .returns _ none | .raises _ none _ => by
    rw [Stmt.scopesAfter, Stmt.spans, Stmt.trace, optionalTrace]
    exact .nil (by simp)
  | .returns _ (some e) | .raises _ (some e) _ => by
    rw [Stmt.scopesAfter, Stmt.spans, Stmt.trace, optionalTrace]
    exact (Expr.tells_draft p e).mono (by simp)
  | .asserts _ items | .prints _ _ items => by
    rw [Stmt.scopesAfter, Stmt.spans, Stmt.trace]
    exact (tells_texts p items).mono (by simp [Spans.all_flatten])
  | .branch _ condition body more otherwise => by
    rw [Stmt.scopesAfter, Stmt.spans, Stmt.trace]
    have hotherwise := tells_otherwiseSpans ((p.afterBlock body).afterBranches more) otherwise
    have hmore := (tells_branchSpans (p.afterBlock body) more).append hotherwise fun _ =>
      Spans.all_append
    have hbody := (tells_blockSpans p.deeper body).append hmore fun _ => Spans.all_append
    exact (Expr.tells_draft p condition).append hbody (by simp)
  | .forLoop _ _ left iterable body _ => by
    rw [Stmt.scopesAfter, Stmt.spans, Stmt.trace, ← List.append_assoc left.trace]
    have hbody := (p.tells_assigning left).append (tells_blockSpans (p.assigned left).deeper body)
      fun _ => Spans.all_append
    exact (Expr.tells_draft p iterable).append hbody (by simp [and_assoc, and_left_comm])
  | .whileLoop _ condition body none => by
    rw [Stmt.scopesAfter, Stmt.spans, Stmt.trace, otherwiseTrace, List.append_nil]
    exact (Expr.tells_draft p condition).append (tells_blockSpans p.deeper body) (by simp)
  | .whileLoop _ condition body (some otherwise) => by
    rw [Stmt.scopesAfter, Stmt.spans, Stmt.trace, otherwiseTrace]
    have hbody := (tells_blockSpans (p.later p.scopes 1).deeper body).append
      (tells_blockSpans ((p.later p.scopes 1).afterBlock body).deeper otherwise) fun _ =>
      Spans.all_append
    have hwhole := (Expr.tells_draft p condition).append hbody fun _ => Spans.all_append
    refine hwhole.replace ?_ (hwhole.covers.mono fun Q hQ => ?_)
    · simpa [Spans.whileElse] using hwhole.along
    · simp_all [Spans.whileElse]
  | .function decorators (.mk _ isAsync _ name parameters body) => by
    have hbody : ∀ (q : Place) (names : List String),
        q.BodyTells names (blockTrace false body) (blockSpans (q.inFunction names) body) :=
        fun q names =>
      .block (tells_blockSpans (q.inFunction names) body)
    rw [Stmt.scopesAfter, Stmt.spans, Stmt.trace, Place.inClass]
    cases p.className with
    | none => exact tells_plainFunction (hbody (p.register name) _)
    | some className =>
      simp only [Option.isSome_some, if_true, isNative]
      obtain ⟨form, hform⟩ : ∃ form, Lowering.methodForm decorators = form := ⟨_, rfl⟩
      simp only [hform]
      cases form with
      | error d => exact tells_instanceMethod (p := p) (hbody p _)
      | ok form =>
        cases form with
        | native => exact .nil Spans.all_nil
        | static => exact tells_staticMethod (p := p) (hbody p _)
        | ordinary => exact tells_instanceMethod (p := p) (hbody p _)
  | .classDef _ (.mk _ _ name bases body) => by
    rw [Stmt.scopesAfter, Stmt.spans, Stmt.trace]
    have hnatives := tells_nativeSpans (p.register name).deeper body
    have hmembers :=
      tells_memberSpans { (p.register name).afterNatives body with className := some name }
        rfl name body
    have hbody := hnatives.append hmembers fun _ => Spans.all_append
    have hclass := (Tells.bind .className name).append hbody fun _ => Spans.all_append
    have hconstructor : ∀ Q, All Q
        (if body.any Lowering.isInitialiser then Spans.constructor (p.depth + 1)
        (Spans.hasBase bases) else []) := by
      intro Q
      split_ifs
      · exact Spans.all_constructor _ _
      · exact Spans.all_nil
    refine (tells_baseTrace bases).append hclass fun Q => ?_
    simp only [Spans.all_append, Spans.all_line, hconstructor]
    simp [and_assoc, and_left_comm]
  | .outer _ _ _ names => by
    rw [Stmt.scopesAfter, Stmt.spans, Stmt.trace]
    exact tells_outers names
  | .pass _ | .breaks _ | .continues _ | .foreign _ _ _ => by
    rw [Stmt.scopesAfter, Stmt.spans, Stmt.trace]
    exact .nil (by simp)

theorem tells_blockSpans (p : Place) :
    ∀ body : List Stmt, (blockSpans p body).Tells p.binding p.scopes
    (blockScopes p.inClass p.scopes body)
      (blockTrace p.inClass body)
  | [] => by
    rw [blockScopes, blockSpans, blockTrace]
    exact .nil Spans.all_nil
  | s :: rest => by
    rw [blockScopes, blockSpans, blockTrace]
    exact (s.tells_spans p).append (tells_blockSpans (p.afterStmt s) rest) fun _ => Spans.all_append

theorem tells_otherwiseSpans (p : Place) :
    ∀ otherwise : Option (List Stmt), (otherwiseSpans p otherwise).Tells p.binding p.scopes
      (otherwiseScopes p.inClass p.scopes otherwise) (otherwiseTrace p.inClass otherwise)
  | none => by
    rw [otherwiseScopes, otherwiseSpans, otherwiseTrace]
    exact .nil Spans.all_nil
  | some body => by
    rw [otherwiseScopes, otherwiseSpans, otherwiseTrace]
    exact (tells_blockSpans p.deeper body).mono (by simp)

theorem tells_branchSpans (p : Place) :
    ∀ more : List Branch, (branchSpans p more).Tells p.binding p.scopes
    (branchScopes p.inClass p.scopes more)
      (branchTrace p.inClass more)
  | [] => by
    rw [branchScopes, branchSpans, branchTrace]
    exact .nil Spans.all_nil
  | .mk condition body :: rest => by
    rw [branchScopes, branchSpans, branchTrace]
    have hbody :=
      (tells_blockSpans p.deeper body).append (tells_branchSpans (p.afterBlock body) rest)
      fun _ => Spans.all_append
    exact (Expr.tells_draft p condition).append hbody (by simp)

theorem tells_nativeSpans (p : Place) :
    ∀ body : List Stmt, (nativeSpans p body).Tells p.binding p.scopes p.scopes (nativeTrace body)
  | [] => by
    rw [nativeSpans, nativeTrace]
    exact .nil Spans.all_nil
  | s :: rest => by
    cases s with
    | function decorators d =>
      obtain ⟨pos, isAsync, bodyPos, name, parameters, body⟩ := d
      rw [nativeSpans, nativeTrace]
      split_ifs
      · have hmethod :=
          tells_method (p := p) [.text (Lowering.asyncMark isAsync ++ name)] "\x7d" (by simp)
          (.block (tells_blockSpans (p.inFunction (receiverLast (declaredNames parameters))) body))
        have hrest := tells_nativeSpans (p.later p.scopes (blockSentinels false body)) rest
        rw [← List.append_assoc]
        exact hmethod.append hrest fun _ => Spans.all_append
      · exact tells_nativeSpans p rest
    | _ =>
      rw [nativeSpans, nativeTrace]
      · exact tells_nativeSpans p rest
      all_goals simp

theorem tells_memberSpans (p : Place) (hclass : p.inClass = true) (className : String) :
    ∀ body : List Stmt,
      (memberSpans p className body).Tells p.binding p.scopes (memberScopes p.scopes body)
      (memberTrace body)
  | [] => by
    rw [memberScopes, memberSpans, memberTrace]
    exact .nil Spans.all_nil
  | s :: rest => by
    have hs := s.tells_spans p
    rw [hclass] at hs
    by_cases hassign : ∃ left right, s = .assign left right
    · obtain ⟨left, right, rfl⟩ := hassign
      rw [memberScopes, memberSpans, memberTrace]
      exact (p.tells_classAttribute className left right).append
        (tells_memberSpans p hclass className rest)
        fun _ => Spans.all_append
    · have hother : ∀ left right, s = .assign left right → False :=
        fun left right heq => hassign ⟨left, right, heq⟩
      have hafter : (p.afterStmt s).scopes = s.scopesAfter true p.scopes := by
        rw [← hclass]
        rfl
      have hrest := tells_memberSpans (p.afterStmt s) hclass className rest
      rw [hafter] at hrest
      rw [memberScopes, memberSpans, memberTrace]
      · exact hs.append hrest fun _ => Spans.all_append
      all_goals exact hother

end

example : ((Stmt.pass .first).trace false).length = 0 := by decide +kernel

/-- A callable apart from the name that it is written under. -/
theorem tells_callable (p : Place) (d : FunctionDef) :
    (Spans.function 0 [] (Spans.withoutSelf (formalSpans p d.parameters)) .absent "\x7d"
      (blockSpans (p.inFunction (withoutSelf (declaredNames d.parameters))) d.body)).Tells p.binding
      p.scopes p.scopes
      (defaultTrace (besideSelf d.parameters) ++
        functionTrace (parameterBinds (withoutSelf (declaredNames d.parameters)))
        (blockTrace false d.body)) := by
  rw [← declaredNames_besideSelf, ← formalSpans_besideSelf]
  exact tells_parameters 0 "\x7d" (fun _ => Spans.all_nil)
    (.block (tells_blockSpans (p.inFunction _) d.body))

/-- What a program enters it leaves, so every part of its trace stays in the module. -/
theorem staysOpen_of_programTrace {statements : List Stmt} {entry : EntryPoint}
    {before after : NameTrace}
    (h : programTrace statements entry = before ++ after) : before.StaysOpen := by
  have hlevel : depthFrom 0 (programTrace statements entry) = some 0 := by
    unfold programTrace
    cases entry with
    | module => exact (tells_blockSpans (.start none) statements).level 0
    | body =>
      cases firstFunction? statements with
      | none => rfl
      | some d =>
        have hparameters : Tells none .empty _ _ _ :=
          tells_parameterBinds (withoutSelf (declaredNames d.parameters))
        have hbody :=
          tells_blockSpans
            ((Place.start none).registerAll (withoutSelf (declaredNames d.parameters))) d.body
        exact (hparameters.append hbody fun _ => Spans.all_append).level 0
    | callable name =>
      cases firstFunction? statements with
      | none => rfl
      | some d => exact (tells_callable (.start none) d).level 0
  have hwhole : (before ++ after).StaysOpen := by
    rw [← h, StaysOpen, hlevel]
    rfl
  exact hwhole.of_append

/-- The names in the draft of a program come from the trace of the program, except for the name that
a callable is written under. -/
theorem fromTrace_of_mem_programSpans {statements : List Stmt} {entry : EntryPoint} {mark : Mark}
    (h : mark ∈ allMarks (programSpans binding statements entry)) :
    mark.FromTrace binding .empty (programTrace statements entry) ∨
      ∃ name, entry = .callable name ∧ mark = .introduction ⟨.function, name⟩ := by
  unfold programSpans at h
  unfold programTrace
  cases entry with
  | module => exact .inl ((tells_blockSpans (.start binding) statements).along mark h)
  | body =>
    cases hfirst : firstFunction? statements with
    | none =>
      rw [hfirst] at h
      simp [allMarks] at h
    | some d =>
      rw [hfirst] at h
      have hbody := tells_blockSpans
        ((Place.start binding).registerAll (withoutSelf (declaredNames d.parameters))) d.body
      have hparameters : Tells binding .empty _ _ _ :=
        tells_parameterBinds (withoutSelf (declaredNames d.parameters))
      exact .inl (hbody.along.behind hparameters.leads mark h)
  | callable name =>
    cases hfirst : firstFunction? statements with
    | none =>
      rw [hfirst] at h
      simp [allMarks] at h
    | some d =>
      rw [hfirst] at h
      -- Apart from its head, the function is one that has no name.
      have hfunction := tells_callable (.start binding) d
      dsimp only [Spans.namedFunction, Spans.function] at h
      rw [List.cons_append, allMarks, allMarks_append] at h
      rcases List.mem_append.mp h with h | h
      · cases h
      rcases List.mem_append.mp h with h | h
      · have hhead : mark = .introduction ⟨.function, name⟩ := by
          simpa [Spans.functionHead, allMarks, Span.marks] using h
        exact .inr ⟨name, rfl, hhead⟩
      · refine .inl (hfunction.along mark ?_)
        simpa [Spans.function, allMarks, Span.marks] using h

/-- What happens to names in a program shows in its draft, except for the parameters of a function
of which only the statements are wanted. -/
theorem showsIn_programSpans (binding : Option Binding) {statements : List Stmt}
    {entry : EntryPoint}
    {before after : NameTrace} {e : NameEvent}
    (h : programTrace statements entry = before ++ e :: after) :
    e.ShowsIn binding (Scopes.empty.replay before) (programSpans binding statements entry) ∨
      entry = .body ∧ ∃ id, e = .bind .parameter id := by
  unfold programTrace at h
  unfold programSpans
  cases entry with
  | module => exact .inl ((tells_blockSpans (.start binding) statements).covers before e after h)
  | body =>
    cases hfirst : firstFunction? statements with
    | none => simp [hfirst] at h
    | some d =>
      simp only [hfirst] at h ⊢
      rcases mem_append_parts h with ⟨mid, hparameters⟩ | ⟨mid, rfl, hmid⟩
      · have hmem : e ∈ parameterBinds (withoutSelf (declaredNames d.parameters)) := by
          rw [hparameters]
          exact List.mem_append_right _ List.mem_cons_self
        obtain ⟨id, -, rfl⟩ := List.mem_map.mp hmem
        exact .inr ⟨trivial, id, rfl⟩
      · have hbody := tells_blockSpans
          ((Place.start binding).registerAll (withoutSelf (declaredNames d.parameters))) d.body
        have hparameters : Tells binding .empty _ _ _ :=
          tells_parameterBinds (withoutSelf (declaredNames d.parameters))
        rw [Scopes.replay_append, hparameters.leads]
        exact .inl (hbody.covers mid e after hmid)
  | callable name =>
    cases hfirst : firstFunction? statements with
    | none => simp [hfirst] at h
    | some d =>
      simp only [hfirst] at h ⊢
      have hfunction := (tells_callable (.start binding) d).covers before e after h
      refine .inl (hfunction.mono fun Q hQ => ?_)
      rw [Spans.namedFunction, Spans.all_functionSpans] at hQ
      exact Spans.all_functionSpans.mpr ⟨Spans.all_nil, hQ.2⟩

end ScriptCompiler
