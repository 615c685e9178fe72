import ScriptCompiler.Proofs.Marks
import ScriptCompiler.Proofs.ProgramTrace

/-!
# Drafts tell the traces of their programs

Every name that a draft mentions is one that the trace of the program mentions, with the frames that
the trace has led to by then, and every name that a draft introduces is one that the trace binds.
Expressions leave the frames as they are.

Conversely, what happens to names in a program shows in its draft. A name that is bound is
introduced, unless its frame has it already or it is a receiver that needs no variable; a name that
is mentioned where it is bound is mentioned in the draft. Mentions of other names may be left out: a
chain of attributes that the context gives a text stands for the name it begins with, and a call
that is written in another way does not mention its function.
-/

namespace ScriptCompiler

open NameTrace

/-- A mark comes from an event of a trace that begins with certain frames. Synthesized names come
from nowhere, and a variable need not be bound to be assigned to. -/
def Mark.FromTrace (binding : Option Binding) (scopes : Scopes) (trace : NameTrace) : Mark → Prop
  | .mention (.value binding' scopes' e) =>
    binding' = binding ∧ ∃ before after, trace = before ++ .mention e :: after ∧
      scopes' = scopes.replay before
  | .mention (.base id) => ∃ before after, trace = before ++ .base id :: after
  | .mention (.constructed _) => True
  | .introduction i => i.form = .synthesized ∨ i.form = .reassigned ∨ .bind i.form i.id ∈ trace

abbrev Spans.Along (binding : Option Binding) (scopes : Scopes) (trace : NameTrace) (xs : Spans) :
    Prop :=
  xs.All (Mark.FromTrace binding scopes trace)

/-- What an event leaves in a draft, with the frames that are open at the event. -/
def NameEvent.ShowsIn (binding : Option Binding) (scopes : Scopes) (xs : Spans) : NameEvent → Prop
  | .mention (.name pos id) =>
    scopes.isBound id = true → .mention (.value binding scopes (.name pos id)) ∈ allMarks xs
  | .base id => id ≠ "object" → .mention (.base id) ∈ allMarks xs
  | .bind form id =>
    .introduction ⟨form, id⟩ ∈ allMarks xs ∨ form = .declared ∧ scopes.isDeclaredHere id = true ∨
      form = .receiver ∧ id = Lowering.selfName
  | .mention _ | .outer _ | .enter | .leave => True

def Spans.Covers (binding : Option Binding) (scopes : Scopes) (trace : NameTrace) (xs : Spans) :
    Prop :=
  ∀ before e after, trace = before ++ e :: after → e.ShowsIn binding (scopes.replay before) xs

/-- Spans and a trace that leads from certain frames to others tell the same about names. What the
trace enters it leaves. -/
structure Spans.Tells (binding : Option Binding) (scopes scopes' : Scopes) (trace : NameTrace)
    (xs : Spans) : Prop where
  along : xs.Along binding scopes trace
  covers : xs.Covers binding scopes trace
  leads : scopes.replay trace = scopes'
  level : ∀ depth, depthFrom depth trace = some depth

section Rules

variable {binding : Option Binding} {scopes scopes' : Scopes} {trace more : NameTrace} {mark : Mark}
  {xs ys zs : Spans}

theorem Mark.FromTrace.before (h : mark.FromTrace binding scopes trace) :
    mark.FromTrace binding scopes (trace ++ more) := by
  cases mark with
  | introduction i =>
    rcases h with h | h | h
    · exact .inl h
    · exact .inr (.inl h)
    · exact .inr (.inr (List.mem_append_left _ h))
  | mention m =>
    cases m with
    | value binding' scopes' e =>
      obtain ⟨hbinding, before, after, rfl, hscopes⟩ := h
      exact ⟨hbinding, before, after ++ more, by simp, hscopes⟩
    | base id =>
      obtain ⟨before, after, rfl⟩ := h
      exact ⟨before, after ++ more, by simp⟩
    | constructed key => trivial

theorem Mark.FromTrace.behind (hscopes : scopes.replay trace = scopes')
    (h : mark.FromTrace binding scopes' more) : mark.FromTrace binding scopes (trace ++ more) := by
  cases mark with
  | introduction i =>
    rcases h with h | h | h
    · exact .inl h
    · exact .inr (.inl h)
    · exact .inr (.inr (List.mem_append_right _ h))
  | mention m =>
    cases m with
    | value binding' scopes'' e =>
      obtain ⟨hbinding, before, after, rfl, rfl⟩ := h
      exact ⟨hbinding, trace ++ before, after, by simp, by rw [Scopes.replay_append, hscopes]⟩
    | base id =>
      obtain ⟨before, after, rfl⟩ := h
      exact ⟨trace ++ before, after, by simp⟩
    | constructed key => trivial

variable {e : NameEvent}

/-- An event of two traces one after the other is in the first one or in the second one. -/
theorem NameTrace.mem_append_parts {before after : NameTrace}
    (h : trace ++ more = before ++ e :: after) :
    (∃ mid, trace = before ++ e :: mid) ∨ ∃ mid, before = trace ++ mid ∧
    more = mid ++ e :: after := by
  rcases List.append_eq_append_iff.mp h with ⟨mid, hbefore, hmore⟩ | ⟨mid, htrace, hafter⟩
  · exact .inr ⟨mid, hbefore, hmore⟩
  · cases mid with
    | nil => exact .inr ⟨[], by simpa using htrace.symm, by simpa using hafter.symm⟩
    | cons first mid =>
      obtain ⟨rfl, -⟩ := List.cons.inj hafter
      exact .inl ⟨mid, htrace⟩

theorem NameEvent.ShowsIn.mono (h : e.ShowsIn binding scopes xs)
    (hsub : ∀ Q, ys.All Q → xs.All Q) : e.ShowsIn binding scopes ys := by
  have hmarks : ∀ mark ∈ allMarks xs, mark ∈ allMarks ys := fun mark hmark =>
    Spans.mem_allMarks_of_all fun Q hQ => hsub Q hQ mark hmark
  cases e with
  | mention x =>
    cases x with
    | name pos id => exact fun hbound => hmarks _ (h hbound)
    | _ => trivial
  | base id => exact fun hid => hmarks _ (h hid)
  | bind form id => exact h.imp_left (hmarks _)
  | _ => trivial

namespace Spans

theorem Along.before (h : Along binding scopes trace xs) :
    Along binding scopes (trace ++ more) xs :=
  fun mark hmark => (h mark hmark).before

theorem Along.behind (hscopes : scopes.replay trace = scopes') (h : Along binding scopes' more xs) :
    Along binding scopes (trace ++ more) xs :=
  fun mark hmark => (h mark hmark).behind hscopes

@[simp] theorem fromTrace_synthesized (id : String) :
    Mark.FromTrace binding scopes trace (.introduction ⟨.synthesized, id⟩) := .inl rfl

@[simp] theorem fromTrace_reassigned (id : String) :
    Mark.FromTrace binding scopes trace (.introduction ⟨.reassigned, id⟩) := .inr (.inl rfl)

theorem Covers.mono (h : xs.Covers binding scopes trace) (hsub : ∀ Q, All Q ys → All Q xs) :
    ys.Covers binding scopes trace :=
  fun before e after htrace => (h before e after htrace).mono hsub

theorem covers_nil : xs.Covers binding scopes [] := by
  intro before e after htrace
  simp at htrace

theorem covers_singleton (h : e.ShowsIn binding scopes xs) : xs.Covers binding scopes [e] := by
  intro before e' after htrace
  cases before with
  | nil =>
    obtain ⟨rfl, -⟩ := List.cons.inj htrace
    exact h
  | cons first before => simp at htrace

theorem Covers.append (hscopes : scopes.replay trace = scopes') (h : xs.Covers binding scopes trace)
    (hmore : ys.Covers binding scopes' more) (hsub : ∀ Q, All Q zs → All Q xs ∧ All Q ys) :
    zs.Covers binding scopes (trace ++ more) := by
  have hfirst := h.mono fun Q hQ => (hsub Q hQ).1
  have hsecond := hmore.mono fun Q hQ => (hsub Q hQ).2
  intro before e after htrace
  rcases mem_append_parts htrace with ⟨mid, rfl⟩ | ⟨mid, rfl, hmid⟩
  · exact hfirst before e mid rfl
  · rw [Scopes.replay_append, hscopes]
    exact hsecond mid e after hmid

namespace Tells

variable {scopes'' : Scopes}

theorem nil (h : xs.Along binding scopes []) :
    xs.Tells binding scopes scopes [] := ⟨h, covers_nil, rfl, fun _ => rfl⟩

/-- Other spans along the same trace. -/
theorem replace (h : xs.Tells binding scopes scopes' trace) (halong : ys.Along binding scopes trace)
    (hcovers : ys.Covers binding scopes trace) : ys.Tells binding scopes scopes' trace :=
  ⟨halong, hcovers, h.leads, h.level⟩

/-- Only the names in spans matter. -/
theorem mono (h : xs.Tells binding scopes scopes' trace) (hmarks : ∀ Q, All Q ys ↔ All Q xs) :
    ys.Tells binding scopes scopes' trace :=
  h.replace ((hmarks _).mpr h.along) (h.covers.mono fun Q => (hmarks Q).mp)

theorem append (h : xs.Tells binding scopes scopes' trace)
    (hmore : ys.Tells binding scopes' scopes'' more)
    (hmarks : ∀ Q, All Q zs ↔ All Q xs ∧ All Q ys) :
    zs.Tells binding scopes scopes'' (trace ++ more) where
  along := (hmarks _).mpr ⟨h.along.before, hmore.along.behind h.leads⟩
  covers := h.covers.append h.leads hmore.covers fun Q => (hmarks Q).mp
  leads := by rw [Scopes.replay_append, h.leads, hmore.leads]
  level depth := by rw [depthFrom_append, h.level, Option.bind_some, hmore.level]

/-- A mention that is left out. -/
theorem behindMember {object : Expr} {key : String} (h : xs.Tells binding scopes scopes' more) :
    xs.Tells binding scopes scopes' (.mention (.member object key) :: more) :=
  have hmention : Tells binding scopes scopes [.mention (.member object key)] [] :=
    ⟨Spans.all_nil, covers_singleton trivial, rfl, fun _ => rfl⟩
  hmention.append h (by simp)

theorem inFunction (h : xs.Tells binding scopes.push scopes' (trace ++ more))
    (houter : scopes'.outer = scopes.push.outer) :
    xs.Tells binding scopes scopes (functionTrace trace more) where
  along := by
    have hentered : xs.Along binding scopes ([.enter] ++ (trace ++ more)) := h.along.behind rfl
    exact hentered.before
  covers := by
    have hevent : ∀ (scopes : Scopes) (e : NameEvent), e = .enter ∨ e = .leave →
        xs.Covers binding scopes [e] := by
      rintro scopes e (rfl | rfl) <;> exact covers_singleton trivial
    have hentered := (hevent scopes .enter (.inl rfl)).append rfl h.covers fun _ hQ => ⟨hQ, hQ⟩
    exact hentered.append rfl (hevent _ .leave (.inr rfl)) fun _ hQ => ⟨hQ, hQ⟩
  leads := by
    rw [functionTrace, List.cons_append, Scopes.replay_cons, Scopes.replay_append]
    have hinner : (scopes.step .enter).replay (trace ++ more) = scopes' := h.leads
    rw [hinner]
    exact Scopes.pop_of_outer_eq houter
  level depth := by
    have henter : depthFrom depth [.enter] = some (depth + 1) := rfl
    rw [functionTrace, List.cons_append, depthFrom_cons, henter, Option.bind_some,
      depthFrom_append, h.level]
    rfl

theorem bind (form : BindingForm) (id : String) :
    Tells binding scopes (scopes.register id) [.bind form id] [.introduction ⟨form, id⟩] := by
  refine ⟨?_, covers_singleton (.inl (by simp [allMarks, Span.marks])), rfl, fun _ => rfl⟩
  simp [Mark.FromTrace]

/-- Names that are bound one after the other are introduced. -/
theorem binds (form : BindingForm) : ∀ {scopes : Scopes} (names : List String),
    Tells binding scopes (scopes.registerAll names) (names.map (.bind form))
      (names.map fun name => .introduction ⟨form, name⟩)
  | _, [] => .nil (by simp)
  | _, name :: rest => (bind form name).append (binds form rest) (by simp)

end Tells

end Spans

end Rules

open Spans

variable {binding : Option Binding} {scopes : Scopes} {xs : Spans}

/-! ## Names that are not bound -/

/-- The name that a chain of attributes begins with. -/
def Expr.root? : Expr → Option String
  | .name _ id => some id
  | .member object _ => object.root?
  | _ => none

theorem covers_of_root? :
    ∀ {e : Expr} {id : String}, e.root? = some id → scopes.isBound id = false →
    xs.Covers binding scopes e.trace
  | .name pos id', id, hroot, h => by
    obtain rfl : id' = id := by simpa [Expr.root?] using hroot
    refine covers_singleton fun hbound => ?_
    simp [h] at hbound
  | .member object key, id, hroot, h => by
    have hmember : xs.Covers binding scopes [.mention (.member object key)] :=
      covers_singleton trivial
    exact hmember.append rfl (covers_of_root? hroot h) fun _ hQ => ⟨hQ, hQ⟩

/-- A chain of attributes that leads into the context begins with a name that is not bound. -/
theorem exists_root_of_contextHit? {binder : Binder} : ∀ {e : Expr} {hit : ContextHit},
    e.contextHit? scopes binder = .ok (some hit) → ∃ id, e.root? = some id ∧
    scopes.isBound id = false
  | .name pos id, hit, h => by
    rw [Expr.contextHit?] at h
    by_cases hbound : scopes.isBound id = true
    · rw [if_pos hbound] at h
      cases h
    · exact ⟨id, rfl, by simpa using hbound⟩
  | .member object key, hit, h => by
    rw [Expr.contextHit?] at h
    cases hobject : object.contextHit? scopes binder with
    | error d =>
      rw [hobject] at h
      cases h
    | ok found =>
      rw [hobject] at h
      cases found with
      | none => cases h
      | some base =>
        obtain ⟨id, hroot, hbound⟩ := exists_root_of_contextHit? hobject
        exact ⟨id, hroot, hbound⟩

theorem exists_root_of_contextMeaning? {e : Expr} {meaning : Meaning}
    (h : e.contextMeaning? binding scopes = some meaning) :
    ∃ id, e.root? = some id ∧ scopes.isBound id = false := by
  unfold Expr.contextMeaning? at h
  split at h
  · exact exists_root_of_contextHit? (by assumption)
  · cases h

theorem isBound_of_leavesFree {id : String} (h : scopes.leavesFree binding id = true) :
    scopes.isBound id = false := by
  simp only [Scopes.leavesFree, Bool.and_eq_true, Bool.not_eq_true'] at h
  exact h.1

/-! ## Expressions -/

/-- The drafts of the defaults of parameters. -/
def Spans.defaults (formals : List Formal) : Spans := formals.flatMap fun f => f.default.getD []

/-- The names in parameters are those in their defaults and the parameters themselves. -/
theorem Spans.all_formals {Q : Mark → Prop} {formals : List Formal} :
    (∀ f ∈ formals, f.All Q) ↔
      All Q (Spans.defaults formals) ∧ All Q ((formals.map (·.name)).map Spans.parameter) := by
  induction formals with
  | nil => simp [Spans.defaults]
  | cons f rest ih =>
    obtain ⟨name, default⟩ := f
    rw [List.forall_mem_cons, ih]
    cases default <;> simp [Spans.defaults, Formal.All, Spans.parameter, and_assoc, and_left_comm]

theorem tells_parameterBinds (names : List String) :
    Spans.Tells binding scopes (scopes.registerAll names) (parameterBinds names)
    (names.map Spans.parameter) :=
  .binds .parameter names

theorem ClauseTarget.tells_binds (target : ClauseTarget) :
    target.spans.Tells binding scopes (target.boundIn scopes) target.binds := by
  cases target with
  | name id => exact .bind .comprehended id
  | names ids =>
    refine (Tells.binds .comprehended ids).mono fun Q => ?_
    induction ids with
    | nil => simp [ClauseTarget.spans]
    | cons id rest ih => simp_all [ClauseTarget.spans]
  | foreign pos kind => exact .nil (by simp [ClauseTarget.spans])

theorem StringToken.trace_of_not_format {t : StringToken} (h : t.isFormat = false) :
    t.trace = [] := by
  obtain ⟨pos, token, pieces⟩ := t
  exact if_neg (Bool.eq_false_iff.mp h)

theorem tokenTrace_of_not_format {tokens : List StringToken} (h : tokens.any (·.isFormat) = false) :
    tokenTrace tokens = [] := by
  induction tokens with
  | nil => rw [tokenTrace]
  | cons t rest ih =>
    rw [List.any_cons, Bool.or_eq_false_iff] at h
    rw [tokenTrace, StringToken.trace_of_not_format h.1, ih h.2, List.nil_append]

theorem Place.along_mention (p : Place) (e : Expr) (rest : NameTrace) :
    Spans.Along p.binding p.scopes (.mention e :: rest) [p.mention e] := by
  have hmark :
      Mark.FromTrace p.binding p.scopes (.mention e :: rest)
      (.mention (.value p.binding p.scopes e)) :=
    ⟨rfl, [], rest, rfl, rfl⟩
  simp [Place.mention, hmark]

theorem Place.tells_mention (p : Place) (pos : Position) (id : String) :
    Spans.Tells p.binding p.scopes p.scopes
    (Expr.name pos id).trace [p.mention (.name pos id)] := by
  refine ⟨p.along_mention _ _, covers_singleton fun _ => ?_, rfl, fun _ => rfl⟩
  simp [Place.mention, allMarks, Span.marks]

mutual

theorem Expr.tells_draft (p : Place) :
    ∀ e : Expr, (e.draft p).spans.Tells p.binding p.scopes p.scopes e.trace
  | .name pos id => by
    rw [Expr.draft]
    exact p.tells_mention pos id
  | .member object key => by
    have hobject :
        (object.draft p).spans.Tells p.binding p.scopes p.scopes
        (Expr.member object key).trace := by
      rw [Expr.trace]
      exact (Expr.tells_draft p object).behindMember
    rw [Expr.draft]
    split_ifs with hnew hcontext
    · refine hobject.replace (by simp [Mark.FromTrace]) ?_
      cases object with
      | name pos id =>
        simp only [Expr.marksConstructor, Bool.and_eq_true] at hnew
        exact covers_of_root? rfl (isBound_of_leavesFree hnew.2)
      | _ => simp [Expr.marksConstructor] at hnew
    · obtain ⟨meaning, hmeaning⟩ := Option.isSome_iff_exists.mp hcontext
      obtain ⟨id, hroot, hbound⟩ := exists_root_of_contextMeaning? hmeaning
      refine hobject.replace ?_ (covers_of_root? hroot hbound)
      rw [Expr.trace]
      exact p.along_mention _ _
    · exact hobject.mono (by simp)
  | .subscript value [.item index] => by
    rw [Expr.draft, Expr.trace]
    exact (Expr.tells_draft p value).append (Expr.tells_draft p index) (by simp)
  | .subscript value [.slice lower upper step] => by
    rw [Expr.draft, Expr.trace]
    have hbounds := (tells_optionalSpans p lower).append ((tells_optionalSpans p upper).append
      (tells_optionalSpans p step) fun _ => Spans.all_append) fun _ => Spans.all_append
    refine (Expr.tells_draft p value).append hbounds fun Q => ?_
    cases optionalSpans p lower <;> cases optionalSpans p upper <;> cases optionalSpans p
      step <;> simp
  | .subscript _ [] | .subscript _ (_ :: _ :: _) => by
    rw [Expr.draft, Expr.trace]
    · exact .nil (by simp)
    all_goals simp
  | .call function arguments => by
    rw [Expr.draft, Expr.trace]
    have harguments := tells_argumentSpans p arguments
    split
    · rename_i name hname
      obtain ⟨pos, id, rfl⟩ : ∃ pos id, function = .name pos id := by
        cases function <;> simp [Expr.specialFunction?] at hname ⊢
      have hfree : p.scopes.leavesFree p.binding id = true := by
        simp only [Expr.specialFunction?, Option.ite_none_right_eq_some, Bool.and_eq_true] at hname
        exact hname.1.2
      have hfunction : Spans.Covers p.binding p.scopes (Expr.name pos id).trace [] :=
        covers_of_root? rfl (isBound_of_leavesFree hfree)
      have hmention := p.tells_mention pos id
      refine (hmention.append harguments fun _ => Spans.all_append).replace ?_
        (hfunction.append hmention.leads harguments.covers fun Q hQ => ⟨Spans.all_nil, ?_⟩)
      · obtain ⟨hpositional, hkeywords⟩ :=
          Spans.all_append.mp (harguments.along.behind hmention.leads)
        refine Spans.all_specialCall Spans.fromTrace_synthesized ?_
          (Spans.all_flatten.mp hpositional)
          (Spans.all_flatten.mp hkeywords)
        rw [Expr.trace]
        exact p.along_mention _ _
      · obtain ⟨hpositional, hkeywords⟩ := Spans.all_of_all_specialCall hQ
        exact Spans.all_append.mpr ⟨Spans.all_flatten.mpr hpositional,
          Spans.all_flatten.mpr hkeywords⟩
    · refine (Expr.tells_draft p function).append harguments fun Q => ?_
      simp [Spans.all_flatten]
  | .paren _ inner => by
    rw [Expr.draft, Expr.trace]
    exact (Expr.tells_draft p inner).mono (by simp)
  | .binary op left right => by
    rw [Expr.draft, Expr.trace]
    refine (Expr.tells_draft p left).append (Expr.tells_draft p right) fun Q => ?_
    split_ifs
    · exact Spans.all_format _
    · exact Spans.all_binary op _ _
  | .unary _ _ operand | .await _ operand => by
    rw [Expr.draft, Expr.trace]
    exact (Expr.tells_draft p operand).mono (by simp)
  | .boolean op left right => by
    rw [Expr.draft, Expr.trace]
    refine (Expr.tells_draft p left).append (Expr.tells_draft p right) fun Q => ?_
    rw [Draft.all_chain, List.forall_mem_append, Draft.all_operands, Draft.all_operands]
  | .comparison op left right => by
    rw [Expr.draft, Expr.trace]
    exact (Expr.tells_draft p left).append (Expr.tells_draft p right) fun _ =>
      Spans.all_comparison op _
  | .conditional body condition alternative => by
    rw [Expr.draft, Expr.trace]
    have hbranches := (Expr.tells_draft p body).append (Expr.tells_draft p alternative)
      fun _ => Spans.all_append
    exact (Expr.tells_draft p condition).append hbranches (by simp)
  | .lambda _ parameters body => by
    rw [Expr.draft, Expr.trace]
    have hbody := Expr.tells_draft (p.inFrame (declaredNames parameters)) body
    have hfunction :=
      ((tells_parameterBinds (declaredNames parameters)).append hbody fun _ =>
        Spans.all_append).inFunction
      (Scopes.outer_registerAll _ _)
    refine (tells_formalSpans p parameters).append hfunction fun Q => ?_
    rw [Draft.spans, Spans.all_arrow, Spans.all_formals, names_formalSpans,
      Spans.all_append, and_assoc]
  | .string token => by
    rw [Expr.draft, Expr.trace]
    split_ifs with hformat
    · exact (token.tells_spans p).mono (by simp)
    · rw [StringToken.trace_of_not_format (by simpa using hformat)]
      exact .nil (by simp)
  | .joined first rest => by
    rw [Expr.draft, Expr.trace]
    split_ifs with hformat
    · exact (first.tells_spans p).append (tells_tokenSpans p rest) (by simp)
    · simp only [Bool.or_eq_true, not_or, Bool.not_eq_true] at hformat
      rw [StringToken.trace_of_not_format hformat.1, tokenTrace_of_not_format hformat.2]
      exact .nil (by simp)
  | .number _ _ _ | .foreign _ _ => by
    rw [Expr.draft, Expr.trace]
    exact .nil (by simp)
  | .constant _ value => by
    cases value <;> rw [Expr.draft, Expr.trace] <;> exact .nil (by simp)
  | .sequence _ form items => by
    rw [Expr.draft, Expr.trace]
    exact (tells_itemSpans p items).mono fun _ =>
      (Spans.all_collection form).trans Spans.all_flatten.symm
  | .dictionary _ entries => by
    rw [Expr.draft, Expr.trace]
    split_ifs
    · have hentries := tells_entrySpans { p with nesting := p.nesting + 1 } entries
      exact hentries.mono fun _ => (Spans.all_tall _).trans Spans.all_flatten.symm
    · exact (tells_entrySpans p entries).mono (by simp [Spans.all_flatten])
  | .comprehension _ form body clauses => by
    rw [Expr.draft, Expr.trace]
    have hclauses := tells_clauseSpans (p.inFrame []) clauses
    have hbody := Expr.tells_draft { p with scopes := clauseScopes p.scopes.push clauses } body
    refine (hclauses.append hbody fun Q => ?_).inFunction (grows_clauseScopes _ clauses).outer
    simp [Spans.all_flatten]
  | .dictComprehension _ key value clauses => by
    rw [Expr.draft, Expr.trace]
    have hclauses := tells_clauseSpans (p.inFrame []) clauses
    have hentry :=
      (Expr.tells_draft { p with scopes := clauseScopes p.scopes.push clauses } key).append
      (Expr.tells_draft { p with scopes := clauseScopes p.scopes.push clauses } value) fun _ =>
        Spans.all_append
    refine (hclauses.append hentry fun Q => ?_).inFunction (grows_clauseScopes _ clauses).outer
    simp [Spans.all_flatten]
  | .splat _ operand => by
    rw [Expr.draft, Expr.trace]
    exact Expr.tells_draft p operand

theorem tells_optionalSpans (p : Place) :
    ∀ e : Option Expr, ((optionalSpans p e).getD []).Tells p.binding p.scopes p.scopes
    (optionalTrace e)
  | none => by
    rw [optionalSpans, optionalTrace]
    exact .nil (by simp)
  | some e => by
    rw [optionalSpans, optionalTrace]
    exact Expr.tells_draft p e

theorem tells_itemSpans (p : Place) :
    ∀ items : List Expr, Spans.Tells p.binding p.scopes p.scopes (itemTrace items)
    (itemSpans p items).flatten
  | [] => by
    rw [itemSpans, itemTrace]
    exact .nil (by simp)
  | e :: rest => by
    have he := Expr.tells_draft p e
    have hrest := tells_itemSpans p rest
    rw [itemTrace]
    by_cases hsplat : ∃ pos operand, e = .splat pos operand
    · obtain ⟨pos, operand, rfl⟩ := hsplat
      rw [Expr.draft] at he
      rw [itemSpans]
      exact he.append hrest (by simp)
    · rw [itemSpans]
      · exact he.append hrest (by simp)
      · exact fun pos operand heq => hsplat ⟨pos, operand, heq⟩

theorem tells_argumentSpans (p : Place) : ∀ arguments : List Argument,
    Spans.Tells p.binding p.scopes p.scopes (argumentTrace arguments)
      ((argumentSpans p arguments).positional.flatten ++
      (argumentSpans p arguments).keywords.flatten)
  | [] | .keywordSplat _ :: _ => by
    rw [argumentSpans, argumentTrace]
    exact .nil (by simp)
  | .positional e :: rest | .keyword _ _ e :: rest => by
    rw [argumentSpans, argumentTrace]
    exact (Expr.tells_draft p e).append (tells_argumentSpans p rest)
      (by simp [and_left_comm])

theorem tells_entrySpans (p : Place) :
    ∀ entries : List Entry, Spans.Tells p.binding p.scopes p.scopes (entryTrace entries)
    (entrySpans p entries).flatten
  | [] => by
    rw [entrySpans, entryTrace]
    exact .nil (by simp)
  | .pair key value :: rest => by
    rw [entrySpans, entryTrace]
    have hmore := (Expr.tells_draft p value).append (tells_entrySpans p rest)
      fun _ => Spans.all_append
    exact (Expr.tells_draft p key).append hmore (by simp)
  | .splat e :: rest => by
    rw [entrySpans, entryTrace]
    exact (Expr.tells_draft p e).append (tells_entrySpans p rest) (by simp)

theorem tells_clauseSpans (p : Place) :
    ∀ clauses : List Clause, Spans.Tells p.binding p.scopes (clauseScopes p.scopes clauses)
    (clauseTrace clauses)
      (clauseSpans p clauses).flatten
  | [] => by
    rw [clauseSpans, clauseTrace]
    exact .nil (by simp)
  | .loop _ _ target e :: rest => by
    rw [clauseSpans, clauseTrace]
    have hrest := tells_clauseSpans { p with scopes := target.boundIn p.scopes } rest
    have hmore := target.tells_binds.append hrest fun _ => Spans.all_append
    exact (Expr.tells_draft p e).append hmore (by simp [and_left_comm])
  | .guard e :: rest => by
    rw [clauseSpans, clauseTrace]
    exact (Expr.tells_draft p e).append (tells_clauseSpans p rest) (by simp)

theorem StringToken.tells_spans (p : Place) :
    ∀ token : StringToken, (token.spans p).Tells p.binding p.scopes p.scopes token.trace
  | .mk _ token pieces => by
    rw [StringToken.spans, StringToken.trace, Literal.isFormatString]
    cases Literal.splitString? token.toList with
    | none => exact .nil (by simp)
    | some parts =>
      dsimp only
      split_ifs
      · exact tells_pieceSpans p _ pieces
      · exact .nil (by simp)

theorem tells_tokenSpans (p : Place) :
    ∀ tokens : List StringToken, (tokenSpans p tokens).Tells p.binding p.scopes p.scopes
    (tokenTrace tokens)
  | [] => by
    rw [tokenSpans, tokenTrace]
    exact .nil (by simp)
  | token :: rest => by
    rw [tokenSpans, tokenTrace]
    exact (token.tells_spans p).append (tells_tokenSpans p rest) fun _ => Spans.all_append

theorem tells_pieceSpans (p : Place) (raw : Bool) :
    ∀ pieces : List Piece, (pieceSpans p raw pieces).Tells p.binding p.scopes p.scopes
    (pieceTrace pieces)
  | [] => by
    rw [pieceSpans, pieceTrace]
    exact .nil (by simp)
  | .text text :: rest => by
    rw [pieceSpans, pieceTrace]
    exact (tells_pieceSpans p raw rest).mono (by simp)
  | .hole _ _ e :: rest => by
    rw [pieceSpans, pieceTrace]
    exact (Expr.tells_draft p e).append (tells_pieceSpans p raw rest) (by simp)

theorem tells_formalSpans (p : Place) : ∀ parameters : List Parameter,
    (Spans.defaults (formalSpans p parameters)).Tells p.binding p.scopes p.scopes
    (defaultTrace parameters)
  | [] | .foreign _ _ :: _ => by
    rw [formalSpans]
    exact .nil (by simp [Spans.defaults])
  | .plain name :: rest => by
    exact tells_formalSpans p rest
  | .withDefault name e :: rest => by
    exact (Expr.tells_draft p e).append (tells_formalSpans p rest) fun _ => Spans.all_append

end

example : (Expr.name .first "a").trace.length = 1 := by decide +kernel

end ScriptCompiler
