import ScriptCompiler.Proofs.Drafting

/-!
# Drafts of expressions

The draft of an expression is read off its tree and the place where it stands. Lowering an
expression gives the text of its draft.
-/

namespace ScriptCompiler

/-- The draft of an expression. The operands of a chain are kept apart, as in a fragment. -/
inductive Draft where
  | plain (spans : Spans)
  | chain (op : BoolOp) (operands : List Spans)

namespace Draft

def spans : Draft → Spans
  | .plain spans => spans
  | .chain op operands => Spans.parens ([Span.text (" " ++ op.symbol ++ " ")].intercalate operands)

/-- The operands that a draft brings into a chain of an operator. -/
def operands (op : BoolOp) : Draft → List Spans
  | .chain op' operands => if op' = op then operands else [spans (.chain op' operands)]
  | .plain spans => [spans]

inductive Prints (ed : Edition) : Draft → Fragment → Prop
  | plain {spans : Spans} {text : String} (h : spans.Prints ed text) :
      Prints ed (.plain spans) (.plain text)
  | chain {op : BoolOp} {operands : List Spans} {texts : List String}
      (h : List.Forall₂ (Spans.Prints ed) operands texts) :
      Prints ed (.chain op operands) (.chain op texts)

variable {ed : Edition} {d d' : Draft} {f f' : Fragment}

theorem Prints.spans (h : d.Prints ed f) : d.spans.Prints ed f.text := by
  cases h with
  | plain h => exact h
  | chain h => exact Spans.prints_parens (Spans.prints_intercalate (by simp [Spans.Prints]) h)

theorem Prints.operands (h : d.Prints ed f) (op : BoolOp) :
    List.Forall₂ (Spans.Prints ed) (d.operands op) (f.operands op) := by
  cases h with
  | plain h => exact .cons h .nil
  | @chain op' operands texts h =>
    simp only [Draft.operands, Fragment.operands]
    split_ifs
    · exact h
    · exact .cons (Prints.chain h).spans .nil

end Draft

/-- The place of a name or of a chain of attributes in the text. -/
def Place.mention (p : Place) (e : Expr) : Span := .mention (.value p.binding p.scopes e)

def Expr.specialFunction? (binding : Option Binding) (scopes : Scopes) : Expr → Option String
  | .name _ id => if Script.hasSpecialCall id && scopes.leavesFree binding id then some id else none
  | _ => none

/-- A literal that was read without a fault. -/
def Span.literal (text : Except Fault (List Char)) :
    Span := .text (String.ofList (text.toOption.getD []))

/-- The variables of a comprehension clause. -/
def ClauseTarget.spans : ClauseTarget → Spans
  | .name id => [.introduction ⟨.comprehended, id⟩]
  | .names ids =>
    Spans.brackets (Spans.commas (ids.map fun id => [.introduction ⟨.comprehended, id⟩]))
  | .foreign _ _ => []

mutual

def Expr.draft (p : Place) : Expr → Draft
  | .name pos id => .plain [p.mention (.name pos id)]
  | .member object key =>
    if object.marksConstructor p.binding p.scopes then .plain [.text "new ",
      .mention (.constructed key)]
    else if ((Expr.member object key).contextMeaning? p.binding p.scopes).isSome then
      .plain [p.mention (.member object key)]
    else .plain (Spans.receiver object.kind (object.draft p).spans ++ [.text ("." ++ key)])
  | .subscript value [.item index] =>
    .plain (Spans.receiver value.kind (value.draft p).spans ++ Spans.brackets (index.draft p).spans)
  | .subscript value [.slice lower upper step] =>
    .plain (Spans.slice (Spans.receiver value.kind (value.draft p).spans)
      (Spans.sliceArguments (optionalSpans p lower) (optionalSpans p upper) (optionalSpans p step)))
  | .subscript _ _ => .plain []
  | .call function arguments =>
    match function.specialFunction? p.binding p.scopes with
    | some name =>
      .plain (Spans.specialCall [p.mention function] name (Lowering.firstKind? arguments)
        (argumentSpans p arguments))
    | none =>
      .plain (Spans.call (function.draft p).spans (argumentSpans p arguments).positional
        (argumentSpans p arguments).keywords)
  | .paren _ inner => .plain (Spans.grouped inner.kind (inner.draft p).spans)
  | .binary op left right =>
    if op = .mod && left.isPlainString then
      .plain (Spans.format right.kind (left.draft p).spans (right.draft p).spans)
    else .plain (Spans.binary op left.kind (left.draft p).spans right.kind (right.draft p).spans)
  | .unary _ op operand => .plain (.text op.symbol :: Spans.parens (operand.draft p).spans)
  | .boolean op left right => .chain op ((left.draft p).operands op ++ (right.draft p).operands op)
  | .comparison op left right =>
    .plain (Spans.comparison op (left.draft p).spans right.kind (right.draft p).spans)
  | .conditional body condition alternative =>
    .plain (Spans.parens ((condition.draft p).spans ++ .text " ? " :: (body.draft p).spans ++
      .text " : " :: (alternative.draft p).spans))
  | .lambda _ parameters body =>
    .plain (Spans.arrow p.depth (formalSpans p parameters)
      (body.draft (p.inFrame (declaredNames parameters))).spans)
  | .await _ operand => .plain (.text "await " :: (operand.draft p).spans)
  | .number _ _ token => .plain [.literal (Literal.lowerNumber token.toList)]
  | .string token =>
    if token.isFormat then .plain (Spans.template (token.spans p))
    else .plain [.literal (Literal.lowerString token.token.toList)]
  | .joined first rest =>
    if first.isFormat || rest.any (·.isFormat) then .plain
      (Spans.template (first.spans p ++ tokenSpans p rest))
    else .plain [.text (String.ofList (Literal.quoted ((first :: rest).flatMap fun t =>
      (Literal.stringValue t.token.toList).toOption.getD [])))]
  | .constant _ .true => .plain [.text "true"]
  | .constant _ .false => .plain [.text "false"]
  | .constant _ .none => .plain [.text "null"]
  | .sequence _ form items => .plain (Spans.collection form (itemSpans p items))
  | .dictionary _ entries =>
    if entries.length > 1 then
      .plain (Spans.tall (p.depth + p.nesting)
        (entrySpans { p with nesting := p.nesting + 1 } entries))
    else .plain (Spans.braces (Spans.commas (entrySpans p entries)))
  | .comprehension _ form body clauses =>
    .plain (Spans.collected form (Spans.generator (clauseSpans (p.inFrame []) clauses)
      (body.draft { p with scopes := clauseScopes p.scopes.push clauses }).spans))
  | .dictComprehension _ key value clauses =>
    .plain (.text "Object.fromEntries([..." :: Spans.generator (clauseSpans (p.inFrame []) clauses)
      (Spans.brackets ((key.draft { p with scopes := clauseScopes p.scopes.push clauses }).spans ++
        .text ", " ::
        (value.draft { p with scopes := clauseScopes p.scopes.push clauses }).spans)) ++ [.text
        "])"])
  | .splat _ operand => operand.draft p
  | .foreign _ _ => .plain []

def optionalSpans (p : Place) : Option Expr → Option Spans
  | none => none
  | some e => some (e.draft p).spans

def itemSpans (p : Place) : List Expr → List Spans
  | [] => []
  | .splat _ operand :: rest => (.text "..." :: (operand.draft p).spans) :: itemSpans p rest
  | e :: rest => (e.draft p).spans :: itemSpans p rest

def argumentSpans (p : Place) : List Argument → Spans.Arguments
  | [] => ⟨[], []⟩
  | .positional value :: rest =>
    { argumentSpans p rest with positional := (value.draft p).spans ::
      (argumentSpans p rest).positional }
  | .keyword _ name value :: rest =>
    { argumentSpans p rest with
      keywords := (.text (name ++ ": ") :: (value.draft p).spans) ::
        (argumentSpans p rest).keywords }
  | .keywordSplat _ :: _ => ⟨[], []⟩

def entrySpans (p : Place) : List Entry → List Spans
  | [] => []
  | .pair key value :: rest =>
    (Spans.propertyKey key.isLiteralKey (key.draft p).spans ++ .text ": " ::
      (value.draft p).spans) :: entrySpans p rest
  | .splat value :: rest => (.text "..." :: (value.draft p).spans) :: entrySpans p rest

/-- The openings of the loops and conditions of a comprehension. -/
def clauseSpans (p : Place) : List Clause → List Spans
  | [] => []
  | .loop _ _ target iterable :: rest =>
    (.text "for (const " :: target.spans ++ .text " of " ::
      (iterable.draft p).spans ++ [.text ") \x7b "]) ::
      clauseSpans { p with scopes := target.boundIn p.scopes } rest
  | .guard condition :: rest =>
    (.text "if (" :: (condition.draft p).spans ++ [.text ") \x7b "]) :: clauseSpans p rest

/-- A string token as part of a template. -/
def StringToken.spans (p : Place) : StringToken → Spans
  | .mk _ token pieces =>
    match Literal.splitString? token.toList with
    | some parts =>
      if parts.flags.format then pieceSpans p parts.flags.raw pieces
      else [.literal ((Literal.stringValue token.toList).map Literal.templateText)]
    | none => []

def tokenSpans (p : Place) : List StringToken → Spans
  | [] => []
  | token :: rest => token.spans p ++ tokenSpans p rest

def pieceSpans (p : Place) (raw : Bool) : List Piece → Spans
  | [] => []
  | .text text :: rest => .text ((Script.templateSegment raw text).toOption.getD "") ::
      pieceSpans p raw rest
  | .hole _ _ value :: rest => .text "$\x7b" :: (value.draft p).spans ++ .text "\x7d" ::
      pieceSpans p raw rest

/-- Parameters with the drafts of their defaults, which are evaluated outside the function. -/
def formalSpans (p : Place) : List Parameter → List Spans.Formal
  | [] => []
  | .plain name :: rest => ⟨name, none⟩ :: formalSpans p rest
  | .withDefault name value :: rest => ⟨name, some (value.draft p).spans⟩ :: formalSpans p rest
  | .foreign _ _ :: _ => []

end

/-! ## Names and the context -/

namespace Lowering

variable {α β : Type} {ed : Edition} {p q r : Place} {refs more : List Reference} {Q : β →
  List String → Prop}

theorem Shows.knowing {m : Lowering α} {f : α → Lowering β} {R P : α → Prop}
    (hm : Shows ed p m refs q P)
    (hR : ∀ s a t, m.run s = .ok a t → R a)
    (hf : ∀ a, R a → Drafts ed q (f a) more r fun b lines => P a → Q b lines) :
    Drafts ed p (m >>= f) (refs ++ more) r Q := by
  refine Drafts.bind_of hm (fun s a t _ => hR s a t) fun a ha => (hf a ha).weaken ?_
  rintro b later hQ _ ⟨rfl, hP⟩
  exact hQ hP

theorem shows_locate (pos : Position) {x : Except Fault α}
    (h : OnlyFaults (·.kind ≠ .cyclicContext) x) :
    Shows ed p (locate pos x) [] p fun a => x = .ok a := by
  cases x with
  | ok a => exact .pure rfl
  | error f => exact Drafts.fail (by rw [Fault.kind_reportAt]; exact h f rfl)

variable {s : LoweringState} {e : Expr}

theorem isFree_run (hs : s.place = p) (name : String) :
    (isFree name).run s = .ok (p.scopes.leavesFree p.binding name) s := by
  subst hs
  rfl

theorem isConstructorMark_run (hs : s.place = p) (e : Expr) :
    (isConstructorMark e).run s = .ok (e.marksConstructor p.binding p.scopes) s := by
  cases e with
  | name pos id =>
    simp only [isConstructorMark, Expr.marksConstructor]
    split_ifs with hnew
    · rw [isFree_run hs, hnew, Bool.true_and]
    · rw [Bool.eq_false_iff.mpr hnew]
      rfl
  | _ => rfl

/-- Looking a function up says whether its calls are special. -/
theorem specialFunction?_run (hs : s.place = p) (e : Expr) :
    (specialFunction? e).run s = .ok (e.specialFunction? p.binding p.scopes) s := by
  cases e with
  | name pos id =>
    simp only [specialFunction?, Expr.specialFunction?]
    rw [run_bind, isFree_run hs]
    dsimp only
    split_ifs <;> rfl
  | _ => rfl

theorem isSpecialFunction_eq_isSome (binding : Option Binding) (scopes : Scopes) (e : Expr) :
    e.isSpecialFunction binding scopes = (e.specialFunction? binding scopes).isSome := by
  cases e with
  | name pos id =>
    rw [Expr.specialFunction?]
    split_ifs with h
    · exact h
    · exact Bool.eq_false_iff.mpr h
  | _ => rfl

/-- A callable becomes the name that it has from then on, by one reference. Anything else leaves the
binder alone. -/
theorem render_bind {pos : Position} {hit : ContextHit} {f : Option String → Lowering β}
    (hsome : ∀ meaning text, hit.meaning? = some meaning →
      Drafts ed p (f (some text)) [] q fun b lines => meaning.text? ed.names =
      some text → Q b lines)
    (hnone : hit.meaning? = none → Drafts ed p (f none) refs q Q) :
    Drafts ed p (render pos hit.value hit.access hit.owner >>= f)
      (if hit.isWritten then hit.reference?.toList else refs) q Q := by
  obtain ⟨value, access, owner⟩ := hit
  -- Only the value of a callable reaches the binder; every other value is a literal or is left as
  -- it stands.
  by_cases hcallable : ∃ identity callable, value = .callable identity callable
  · obtain ⟨identity, callable, rfl⟩ := hcallable
    have hrender : Shows ed p (render pos (.callable identity callable) access owner)
        [⟨identity, callable, access, owner⟩] p fun text => ed.names.lookup identity = text := by
      rintro s rfl _
      rw [render_run, Binder.render]
      cases hschedule : s.binder.schedule identity callable access owner with
      | error f =>
        obtain ⟨hprogress, rfl⟩ := Binder.schedule_eq_error hschedule
        exact fun _ => ⟨_, List.mem_singleton_self _, hprogress, pos, rfl⟩
      | ok out =>
        obtain ⟨name, b⟩ := out
        have hall : s.binder.scheduleAll [⟨identity, callable, access, owner⟩] = .ok b :=
          Binder.scheduleAll_cons hschedule
        have hname := Binder.lookup_of_schedule hschedule
        refine ⟨[], ⟨?_, rfl, by simp, hall, fun b hsettles => ?_⟩,
          fun hnamed => ⟨rfl, hnamed hname⟩⟩
        · simp [LoweringState.place, Binder.scheduleAll_binding hall]
        · rw [render_run, Binder.render, Binder.schedule_of_lookup hsettles.idle
            (hsettles.names hname)]
          rfl
    refine hrender.knowing (R := fun text => text.isSome = true)
      (fun s text t hrun => ?_) fun text htext => ?_
    · rw [render_run, Binder.render] at hrun
      cases hschedule :
        s.binder.schedule identity callable access owner <;> rw [hschedule] at hrun <;> cases hrun
      rfl
    · obtain ⟨text, rfl⟩ := Option.isSome_iff_exists.mp htext
      exact hsome _ text rfl
  · have hother : ∀ identity callable, value ≠ .callable identity callable :=
      fun identity callable heq => hcallable ⟨identity, callable, heq⟩
    have hmeaning : ContextHit.meaning? ⟨value, access, owner⟩ = value.literal?.map .literal := by
      unfold ContextHit.meaning?
      split
      · next heq => exact absurd heq (hother _ _)
      · rfl
    have hreference : ContextHit.reference? ⟨value, access, owner⟩ = none := by
      unfold ContextHit.reference?
      split
      · next heq => exact absurd heq (hother _ _)
      · rfl
    have hwritten : ContextHit.isWritten ⟨value, access, owner⟩ = value.literal?.isSome := by
      unfold ContextHit.isWritten
      split
      · next heq => exact absurd heq (hother _ _)
      · rfl
    rw [hmeaning] at hsome hnone
    rw [hwritten, hreference]
    refine Drafts.known (a := value.literal?) (fun s _ => ?_) ?_
    · rw [render_run, Binder.render_of_ne_callable _ _ _ hother]
      cases value.literal? <;> rfl
    · cases hliteral : value.literal? with
      | none => exact hnone (by rw [hliteral]; rfl)
      | some text =>
        exact (hsome (.literal text) text (by rw [hliteral]; rfl)).weaken fun _ _ hQ => hQ rfl

theorem contextText?_bind {f : Option String → Lowering β}
    (hsome : ∀ meaning text, e.contextMeaning? p.binding p.scopes = some meaning →
      Drafts ed p (f (some text)) [] q fun b lines => meaning.text? ed.names =
      some text → Q b lines)
    (hnone : e.contextMeaning? p.binding p.scopes = none → Drafts ed p (f none) refs q Q) :
    Drafts ed p (contextText? e >>= f)
    ((e.contextReferences? p.binding p.scopes).getD refs) q Q := by
  unfold Expr.contextMeaning? at hsome hnone
  unfold contextText? Expr.contextReferences?
  rw [bind_assoc]
  refine Drafts.reading (fun s b hb => ?_) fun s hs _ => ?_
  · simp only [Expr.contextHit?_ofBinding _ b, Expr.contextHit?_ofBinding _ s.binder, hb]
  subst hs
  have hhit : e.contextHit? s.scopes s.binder = e.contextHit? s.place.scopes
      (.ofBinding s.place.binding) :=
    e.contextHit?_ofBinding s.scopes s.binder
  cases hfound : e.contextHit? s.place.scopes (.ofBinding s.place.binding) with
  | error d =>
    rw [hhit, hfound]
    exact .fail (by rw [Expr.kind_of_contextHit?_eq_error hfound]; simp)
  | ok found =>
    rw [hfound] at hsome hnone
    rw [hhit, hfound]
    cases found with
    | none => exact hnone rfl
    | some hit =>
      refine (render_bind hsome hnone).cast ?_
      dsimp only
      split_ifs <;> rfl

/-! ## Expressions -/

theorem shows_register (name : String) :
    Shows ed p (register name) [] (p.register name) fun _ => True := by
  refine Drafts.perform ⟨fun _ => rfl, fun _ => rfl, fun _ _ => rfl⟩ ?_ ⟨rfl, trivial⟩
  rintro s rfl
  rfl

theorem shows_registerAll : ∀ {p : Place} (names : List String),
    Shows ed p (names.forM register) [] (p.registerAll names) fun _ => True
  | _, [] => .pure trivial
  | _, name :: rest => (shows_register name).bind fun _ =>
    (shows_registerAll rest).weaken fun _ _ _ => trivial

theorem shows_registerFormals (formals : List Script.Formal) :
    Shows ed p (formals.forM (register ·.name)) [] (p.registerAll (formals.map (·.name))) fun _ =>
    True := by
  have h : Shows ed p ((formals.map (·.name)).forM register) [] _ fun _ => True :=
    shows_registerAll _
  rwa [List.forM_eq_forM, List.forM_map] at h

theorem shows_clauseTarget (target : ClauseTarget) :
    Shows ed p (clauseTarget target) [] { p with scopes := target.boundIn p.scopes }
    (target.spans.Prints ed) := by
  cases target with
  | name id =>
    refine (shows_register id).returning fun _ _ => ?_
    simp [Spans.Prints, ClauseTarget.spans, Introduction.text, BindingForm.respells]
  | names ids =>
    refine (shows_registerAll ids).returning fun _ _ => ?_
    refine Spans.prints_brackets (Spans.prints_commas ?_)
    simp [Spans.Prints, Introduction.text, BindingForm.respells]
  | foreign pos kind => exact Drafts.refuse _ pos

theorem shows_arrow {formals : List Script.Formal} {body : String} (drafts : List Spans.Formal)
    (spans : Spans) : Shows ed p (arrow formals body) [] p fun text =>
      List.Forall₂ (Spans.Formal.Prints ed) drafts formals → spans.Prints ed body →
        (Spans.arrow p.depth drafts spans).Prints ed text := by
  refine Drafts.reading (fun _ _ _ => rfl) fun s hs hwidth => Shows.pure fun hformals hbody => ?_
  subst hs
  have h := Spans.prints_arrow s.buffer.depth hformals hbody
  rw [← hwidth] at h
  exact h

theorem shows_tall {entries : List String} (drafts : List Spans) :
    Shows ed p (tall entries) [] p fun text =>
      List.Forall₂ (Spans.Prints ed) drafts entries →
        (Spans.tall (p.depth + p.nesting) drafts).Prints ed text := by
  refine Drafts.reading (fun _ _ _ => rfl) fun s hs hwidth => Shows.pure fun hentries => ?_
  subst hs
  have h := Spans.prints_tall (s.buffer.depth + s.dictNesting) hentries
  rw [← hwidth] at h
  exact h

/-- A function with special calls is mentioned as a free name. -/
theorem prints_mention_of_specialFunction? {name : String}
    (h : e.specialFunction? p.binding p.scopes = some name) :
    Spans.Prints ed [p.mention e] (Names.spell name) := by
  cases e with
  | name pos id =>
    simp only [Expr.specialFunction?, Scopes.leavesFree, Option.ite_none_right_eq_some,
      Option.some.injEq,
      Bool.and_eq_true, Bool.not_eq_true', Option.isNone_iff_eq_none] at h
    obtain ⟨⟨-, hbound, hlookup⟩, rfl⟩ := h
    have hmeaning : (Expr.name pos id).meaning? p.binding p.scopes = some (.free id) := by
      simp [Expr.meaning?, Expr.contextMeaning?, Expr.contextHit?, hbound, hlookup]
    simp [Spans.Prints, Place.mention, Mention.text?, hmeaning, Meaning.text?]
  | _ => cases h

theorem Span.literal_print? {x : Except Fault (List Char)} {cs : List Char} (h : x = .ok cs) :
    (Span.literal x).print? ed = some (String.ofList cs) := by
  subst h
  rfl

theorem mapM_locate_flatten (tokens : List StringToken) :
    Shows ed p (tokens.mapM fun t => locate t.pos (Literal.stringValue t.token.toList)) [] p
    fun values =>
      values.flatten = tokens.flatMap fun t =>
        (Literal.stringValue t.token.toList).toOption.getD [] := by
  induction tokens with
  | nil =>
    exact .pure rfl
  | cons t rest ih =>
    rw [List.mapM_cons]
    have hfaults := (Literal.onlyFlaws_stringValue t.token.toList).mono fun _ hf =>
      hf.kind_ne_cyclic
    refine (shows_locate t.pos hfaults).bind fun value =>
      ih.returning fun values hvalues hvalue => ?_
    rw [List.flatten_cons, List.flatMap_cons, hvalues, hvalue]
    rfl

mutual

theorem shows_fragment (p : Place) :
    ∀ e : Expr, Shows ed p (fragment e) (e.references p.binding p.scopes) p ((e.draft p).Prints ed)
  | .name pos id => by
    rw [fragment, Expr.draft, Expr.references]
    refine Drafts.reading (fun _ _ _ => rfl) fun s hs _ => ?_
    have hscopes : s.scopes = p.scopes := congrArg Place.scopes hs
    rw [hscopes]
    split_ifs with hbound
    · rw [Expr.contextReferences?_name_of_bound hbound]
      refine Shows.pure (.plain ?_)
      simp [Spans.Prints, Place.mention, Mention.text?, Expr.meaning?, hbound, Meaning.text?]
    · refine contextText?_bind (fun meaning text hmeaning => ?_) fun hmeaning => ?_
      · refine Drafts.pure fun htext => ⟨rfl, .plain ?_⟩
        simp [Spans.Prints, Place.mention, Mention.text?, Expr.meaning?, hbound, hmeaning, htext]
      · refine Shows.pure (.plain ?_)
        simp [Spans.Prints, Place.mention, Mention.text?, Expr.meaning?, hbound, hmeaning,
          Meaning.text?]
  | .member object key => by
    rw [fragment, Expr.draft, Expr.references]
    refine Drafts.known (fun s hs => isConstructorMark_run hs object) ?_
    split_ifs with hmark hcontext
    · exact Shows.pure (.plain (by simp [Spans.Prints, Mention.text?]))
    · refine contextText?_bind (fun meaning text hmeaning => ?_) fun hmeaning => ?_
      · refine Drafts.pure fun htext => ⟨rfl, .plain ?_⟩
        simp [Spans.Prints, Place.mention, Mention.text?, Expr.meaning?, hmeaning, htext]
      · rw [hmeaning] at hcontext
        cases hcontext
    · refine contextText?_bind (fun meaning text hmeaning => ?_) fun _ => ?_
      · rw [hmeaning] at hcontext
        exact absurd rfl hcontext
      · refine (shows_fragment p object).returning fun base hbase => .plain ?_
        simp [Spans.Prints, Spans.prints_receiver object.kind hbase.spans, String.append_assoc]
  | .subscript _ [] | .subscript _ (_ :: _ :: _) => by
    rw [fragment] <;> first | exact Drafts.refuse _ _ | simp
  | .subscript value [.item index] => by
    rw [fragment, Expr.draft, Expr.references, indexReferences, indexReferences, List.append_nil]
    refine (shows_fragment p value).bind fun base =>
      (shows_fragment p index).returning fun i hi hbase => .plain ?_
    simp [Spans.Prints, Spans.prints_receiver value.kind hbase.spans,
      Spans.prints_brackets hi.spans]
  | .subscript value [.slice lower upper step] => by
    rw [fragment, Expr.draft, Expr.references, indexReferences, indexReferences, List.append_nil,
      List.append_assoc]
    refine (shows_fragment p value).bind fun base => (shows_optional p lower).bind fun l =>
      (shows_optional p upper).bind fun u =>
        (shows_optional p step).returning fun st hst hu hl hbase => .plain ?_
    exact Spans.prints_slice (Spans.prints_receiver value.kind hbase.spans)
      (Spans.prints_sliceArguments hl hu hst)
  | .call function arguments => by
    rw [fragment, Expr.draft, Expr.references]
    refine Drafts.known (fun s hs => specialFunction?_run hs function) ?_
    rw [isSpecialFunction_eq_isSome]
    cases hspecial : function.specialFunction? p.binding p.scopes with
    | some name =>
      refine (shows_argumentTexts p arguments).returning fun texts htexts => .plain ?_
      exact Spans.prints_specialCall _ (prints_mention_of_specialFunction? hspecial)
        htexts.1 htexts.2
    | none =>
      refine (shows_fragment p function).bind fun callee =>
        (shows_argumentTexts p arguments).returning fun texts htexts hcallee => .plain ?_
      exact Spans.prints_call hcallee.spans htexts.1 htexts.2
  | .paren _ inner => by
    rw [fragment, Expr.draft, Expr.references]
    exact (shows_fragment p inner).returning fun f hf =>
      .plain (Spans.prints_grouped inner.kind hf.spans)
  | .binary op left right => by
    rw [fragment, Expr.draft, Expr.references]
    refine Drafts.afterRefusal ?_
    refine (shows_fragment p left).bind fun l => (shows_fragment p right).last fun r => ?_
    split_ifs
    · exact Shows.pure fun hr hl => .plain (Spans.prints_format right.kind hl.spans hr.spans)
    · exact Shows.pure fun hr hl =>
        .plain (Spans.prints_binary op left.kind right.kind hl.spans hr.spans)
  | .unary _ op operand => by
    rw [fragment, Expr.draft, Expr.references]
    exact (shows_fragment p operand).returning fun f hf =>
      .plain ((Spans.prints_parens hf.spans).text op.symbol)
  | .boolean op left right => by
    rw [fragment, Expr.draft, Expr.references]
    refine (shows_fragment p left).bind fun l => (shows_fragment p right).returning fun r hr hl =>
      .chain ?_
    exact List.rel_append (hl.operands op) (hr.operands op)
  | .comparison op left right => by
    rw [fragment, Expr.draft, Expr.references]
    refine Drafts.afterRefusal ?_
    refine (shows_fragment p left).bind fun l => (shows_fragment p right).returning fun r hr hl =>
      .plain ?_
    exact Spans.prints_comparison op right.kind hl.spans hr.spans
  | .conditional body condition alternative => by
    rw [fragment, Expr.draft, Expr.references, List.append_assoc]
    refine (shows_fragment p condition).bind fun c => (shows_fragment p body).bind fun b =>
      (shows_fragment p alternative).returning fun a ha hb hc => .plain (Spans.prints_parens ?_)
    simp [Spans.Prints, ha.spans, hb.spans, hc.spans, String.append_assoc]
  | .lambda _ parameters body => by
    rw [fragment, Expr.draft, Expr.references]
    refine (shows_formals p parameters).knowing (fun _ _ _ => names_of_formals) fun fs hfs => ?_
    have hregister :
        Shows ed (p.inFrame []) (fs.forM (register ·.name)) []
        (p.inFrame (declaredNames parameters)) fun _ => True := hfs ▸ shows_registerFormals fs
    have hbody := hregister.bind fun _ =>
      (shows_fragment (p.inFrame (declaredNames parameters)) body).weaken
      fun _ hf _ => hf
    have hpop := Scopes.pop_of_outer_eq (p.scopes.push.outer_registerAll (declaredNames parameters))
    have hframe : Shows ed p (inFrame do fs.forM (register ·.name); fragment body) _ p _ :=
      Drafts.inFrame (p.inFrame (declaredNames parameters)) hpop hbody
    refine Drafts.cast (hframe.before fun text => ?_) (List.append_nil _)
    refine (shows_arrow (formalSpans p parameters)
      (body.draft (p.inFrame (declaredNames parameters))).spans).before ?_
    exact fun out => Drafts.pure fun hout htext hformals =>
      ⟨rfl, .plain (hout hformals htext.spans)⟩
  | .await _ operand => by
    rw [fragment, Expr.draft, Expr.references]
    exact (shows_fragment p operand).returning fun f hf => .plain (hf.spans.text "await ")
  | .number pos _ token => by
    rw [fragment, Expr.draft, Expr.references]
    have hfaults := (Literal.onlyRefusals_lowerNumber token.toList).mono fun _ hf =>
      hf.kind_ne_cyclic
    refine (shows_locate pos hfaults).returning fun cs hcs => .plain ?_
    simp [Spans.Prints, Span.literal_print? hcs]
  | .string token => by
    rw [fragment, Expr.draft, Expr.references]
    split_ifs with hformat
    · exact (shows_templatePart p token).returning fun text htext =>
        .plain (Spans.prints_template htext)
    · rw [StringToken.references_of_not_format (Bool.eq_false_iff.mpr hformat)]
      have hfaults := (Literal.onlyFlaws_lowerString token.token.toList).mono fun _ hf =>
        hf.kind_ne_cyclic
      refine (shows_locate token.pos hfaults).returning fun cs hcs => .plain ?_
      simp [Spans.Prints, Span.literal_print? hcs]
  | .joined first rest => by
    rw [fragment, Expr.draft, Expr.references]
    have hapart := (Literal.onlyBroken_takeApart ((first :: rest).map (·.token.toList))).mono
      (Q := (·.kind ≠ .cyclicContext)) fun f hf => by simp [hf, Fault.kind]
    refine Shows.after (shows_locate first.pos hapart) fun _ => ?_
    split_ifs with hformat
    · refine (shows_templatePart p first).bind fun head =>
        (shows_templateParts p rest).returning fun tail htail hhead =>
          .plain (Spans.prints_template ?_)
      simp [Spans.Prints, hhead, htail]
    · -- Without a format string there is nothing to look up in any of the parts.
      obtain ⟨hfirst, hrest⟩ := Bool.or_eq_false_iff.mp (Bool.eq_false_iff.mpr hformat)
      rw [StringToken.references_of_not_format hfirst, tokenReferences_of_not_format hrest]
      refine (mapM_locate_flatten (first :: rest)).returning fun values hvalues => .plain ?_
      simp [Spans.Prints, hvalues]
  | .constant _ value => by
    rw [Expr.references]
    cases value <;> rw [fragment, Expr.draft] <;> exact Shows.pure (.plain (by simp [Spans.Prints]))
  | .sequence _ form items => by
    rw [fragment, Expr.draft, Expr.references]
    exact (shows_sequenceTexts p items).returning fun texts htexts =>
      .plain (Spans.prints_collection form htexts)
  | .dictionary _ entries => by
    rw [fragment, Expr.draft, Expr.references]
    split_ifs
    · refine Shows.last
        (Drafts.nested (shows_entryTexts { p with nesting := p.nesting + 1 } entries)) fun texts =>
        ?_
      exact (shows_tall _).returning fun text htext htexts => .plain (htext htexts)
    · refine (shows_entryTexts p entries).returning fun texts htexts => .plain ?_
      exact Spans.prints_braces (Spans.prints_commas htexts)
  | .comprehension _ form body clauses => by
    rw [fragment, Expr.draft, Expr.references]
    -- The clauses bind their variables one after the other; the body is lowered with all of them.
    have hinner := (shows_clauseTexts (p.inFrame []) clauses).bind fun openings =>
      (shows_fragment { p with scopes := clauseScopes p.scopes.push clauses } body).returning
        fun value hvalue hopenings =>
        Spans.prints_generator hopenings hvalue.spans
    have hpop := Scopes.pop_of_outer_eq (grows_clauseScopes p.scopes.push clauses).outer
    refine Shows.returning
      (Drafts.inFrame { p with scopes := clauseScopes p.scopes.push clauses } hpop hinner) ?_
    exact fun text htext => .plain (Spans.prints_collected form htext)
  | .dictComprehension _ key value clauses => by
    rw [fragment, Expr.draft, Expr.references]
    have hinner := (shows_clauseTexts (p.inFrame []) clauses).bind fun openings =>
      (shows_fragment { p with scopes := clauseScopes p.scopes.push clauses } key).bind fun k =>
        (shows_fragment { p with scopes := clauseScopes p.scopes.push clauses } value).returning
          fun v hv hk hopenings =>
          Spans.prints_generator hopenings
          (Spans.prints_brackets (Spans.prints_pair hk.spans hv.spans))
    have hpop := Scopes.pop_of_outer_eq (grows_clauseScopes p.scopes.push clauses).outer
    refine Shows.returning
      (Drafts.inFrame { p with scopes := clauseScopes p.scopes.push clauses } hpop hinner) ?_
    refine fun text htext => .plain ?_
    simp [Spans.Prints, htext, String.append_assoc]
  | .splat _ _ | .foreign _ _ => by
    rw [fragment]
    exact Drafts.refuse _ _

theorem shows_optional (p : Place) :
    ∀ e : Option Expr, Shows ed p (Lowering.optional e) (optionalReferences p.binding p.scopes e) p
      (Option.Rel (Spans.Prints ed) (optionalSpans p e))
  | none => by
    rw [Lowering.optional, optionalSpans, optionalReferences]
    exact .pure .none
  | some e => by
    rw [Lowering.optional, optionalSpans, optionalReferences]
    exact (shows_fragment p e).returning fun f hf => .some hf.spans

theorem shows_sequenceTexts (p : Place) :
    ∀ items : List Expr, Shows ed p (sequenceTexts items)
    (itemReferences p.binding p.scopes items) p
      (List.Forall₂ (Spans.Prints ed) (itemSpans p items))
  | [] => by
    rw [sequenceTexts, itemSpans, itemReferences]
    exact .pure .nil
  | e :: rest => by
    rw [itemReferences]
    cases e with
    | splat pos operand =>
      rw [sequenceTexts, itemSpans, Expr.references]
      refine (shows_fragment p operand).bind fun f =>
        (shows_sequenceTexts p rest).returning fun texts htexts hf => ?_
      exact .cons (hf.spans.text "...") htexts
    | _ =>
      rw [sequenceTexts, itemSpans]
      · refine (shows_fragment p _).bind fun f =>
          (shows_sequenceTexts p rest).returning fun texts htexts hf => ?_
        exact .cons hf.spans htexts
      all_goals simp

theorem shows_argumentTexts (p : Place) :
    ∀ arguments : List Argument,
      Shows ed p (argumentTexts arguments) (argumentReferences p.binding p.scopes arguments) p
      fun texts =>
        List.Forall₂ (Spans.Prints ed) (argumentSpans p arguments).positional texts.positional ∧
          List.Forall₂ (Spans.Prints ed) (argumentSpans p arguments).keywords texts.keywords
  | [] => by
    rw [argumentTexts, argumentSpans, argumentReferences]
    exact .pure ⟨.nil, .nil⟩
  | .positional e :: rest => by
    rw [argumentTexts, argumentSpans, argumentReferences]
    refine (shows_fragment p e).bind fun f =>
      (shows_argumentTexts p rest).returning fun texts htexts hf => ?_
    exact ⟨.cons hf.spans htexts.1, htexts.2⟩
  | .keyword _ name e :: rest => by
    rw [argumentTexts, argumentSpans, argumentReferences]
    refine (shows_fragment p e).bind fun f =>
      (shows_argumentTexts p rest).returning fun texts htexts hf => ?_
    exact ⟨htexts.1, .cons (hf.spans.text _) htexts.2⟩
  | .keywordSplat pos :: _ => by
    rw [argumentTexts]
    exact Drafts.refuse _ _

theorem shows_entryTexts (p : Place) :
    ∀ entries : List Entry, Shows ed p (entryTexts entries)
    (entryReferences p.binding p.scopes entries) p
      (List.Forall₂ (Spans.Prints ed) (entrySpans p entries))
  | [] => by
    rw [entryTexts, entrySpans, entryReferences]
    exact .pure .nil
  | .pair key value :: rest => by
    rw [entryTexts, entrySpans, entryReferences, List.append_assoc]
    refine (shows_fragment p key).bind fun k => (shows_fragment p value).bind fun v =>
      (shows_entryTexts p rest).returning fun texts htexts hv hk => .cons ?_ htexts
    simp [Spans.Prints, Spans.prints_propertyKey key.isLiteralKey hk.spans, hv.spans,
      String.append_assoc]
  | .splat e :: rest => by
    rw [entryTexts, entrySpans, entryReferences]
    refine (shows_fragment p e).bind fun f =>
      (shows_entryTexts p rest).returning fun texts htexts hf => ?_
    exact .cons (hf.spans.text "...") htexts

theorem shows_clauseTexts (p : Place) :
    ∀ clauses : List Clause, Shows ed p (clauseTexts clauses)
    (clauseReferences p.binding p.scopes clauses)
      { p with scopes := clauseScopes p.scopes clauses }
      (List.Forall₂ (Spans.Prints ed) (clauseSpans p clauses))
  | [] => by
    rw [clauseTexts, clauseSpans, clauseReferences, clauseScopes]
    exact .pure .nil
  | .loop pos isAsync target iterable :: rest => by
    rw [clauseTexts, clauseSpans, clauseReferences, clauseScopes]
    refine Drafts.afterRefusal ?_
    refine (shows_fragment p iterable).bind fun values =>
      (shows_clauseTarget target).bind fun name =>
      (shows_clauseTexts { p with scopes := target.boundIn p.scopes } rest).returning
        fun texts htexts hname hvalues => .cons ?_ htexts
    simp [Spans.Prints, hname, hvalues.spans, String.append_assoc]
  | .guard condition :: rest => by
    rw [clauseTexts, clauseSpans, clauseReferences, clauseScopes]
    refine (shows_fragment p condition).bind fun c =>
      (shows_clauseTexts p rest).returning fun texts htexts hc =>
      .cons ?_ htexts
    simp [Spans.Prints, hc.spans, String.append_assoc]

theorem shows_templatePart (p : Place) :
    ∀ t : StringToken, Shows ed p (templatePart t) (t.references p.binding p.scopes) p
    ((t.spans p).Prints ed)
  | .mk pos token pieces => by
    rw [templatePart, StringToken.spans, StringToken.references, Literal.isFormatString]
    have hfaults := (Literal.onlyFlaws_stringValue token.toList).mono fun _ hf => hf.kind_ne_cyclic
    cases Literal.splitString? token.toList with
    | none => exact Drafts.fail (by rw [Fault.kind_reportAt]; simp [Fault.kind])
    | some parts =>
      dsimp only
      by_cases hformat : parts.flags.format
      · rw [if_pos hformat, if_pos hformat, if_pos hformat]
        have hchecked := (Literal.onlyFlaws_checked token.toList parts).mono fun _ hf =>
          hf.kind_ne_cyclic
        exact Shows.after (shows_locate pos hchecked) fun _ => shows_templatePieces p _ pos pieces
      · rw [if_neg hformat, if_neg hformat, if_neg hformat]
        refine (shows_locate pos hfaults).returning fun value hvalue => ?_
        have hmap : (Literal.stringValue token.toList).map Literal.templateText =
            .ok (Literal.templateText value) := by
          rw [hvalue]
          rfl
        simp [Spans.Prints, Span.literal_print? hmap]

theorem shows_templateParts (p : Place) :
    ∀ tokens : List StringToken, Shows ed p (templateParts tokens)
    (tokenReferences p.binding p.scopes tokens) p
      ((tokenSpans p tokens).Prints ed)
  | [] => by
    rw [templateParts, tokenSpans, tokenReferences]
    exact .pure (by simp [Spans.Prints])
  | token :: rest => by
    rw [templateParts, tokenSpans, tokenReferences]
    refine (shows_templatePart p token).bind fun text => (shows_templateParts p rest).returning
      fun texts htexts htext => ?_
    simp [Spans.Prints, htext, htexts]

theorem shows_templatePieces (p : Place) (raw : Bool) (pos : Position) :
    ∀ pieces : List Piece, Shows ed p (templatePieces raw pos pieces)
    (pieceReferences p.binding p.scopes pieces) p
      ((pieceSpans p raw pieces).Prints ed)
  | [] => by
    rw [templatePieces, pieceSpans, pieceReferences]
    exact .pure (by simp [Spans.Prints])
  | .text text :: rest => by
    rw [templatePieces, pieceSpans, pieceReferences]
    have hfaults := (Script.onlyRefusals_templateSegment raw text).mono fun _ hf =>
      hf.kind_ne_cyclic
    refine (shows_locate pos hfaults).bind fun segment =>
      (shows_templatePieces p raw pos rest).returning
      fun texts htexts hsegment => ?_
    rw [hsegment]
    exact htexts.text segment
  | .hole holePos (some option) value :: rest => by
    rw [pieceSpans, pieceReferences]
    cases option with
    | beyondBody =>
      rw [templatePieces]
      exact (shows_fragment p value).bind fun _ =>
        Drafts.fail (by simp [Fault.kind_reportAt, Fault.kind])
    | _ =>
      rw [templatePieces]
      · exact Drafts.fail (by simp [Fault.kind_reportAt, holeFault, Fault.kind])
      · exact nofun
  | .hole holePos none value :: rest => by
    rw [templatePieces, pieceSpans, pieceReferences]
    refine (shows_fragment p value).bind fun f => (shows_templatePieces p raw pos rest).returning
      fun texts htexts hf => ?_
    simp [Spans.Prints, hf.spans, htexts, String.append_assoc]

theorem shows_formals (p : Place) : ∀ parameters : List Parameter,
    Shows ed p (formals parameters) (parameterReferences p.binding p.scopes parameters) p
      (List.Forall₂ (Spans.Formal.Prints ed) (formalSpans p parameters))
  | [] => by
    rw [formals, formalSpans, parameterReferences]
    exact .pure .nil
  | .plain name :: rest => by
    rw [formals, formalSpans, parameterReferences]
    exact (shows_formals p rest).returning fun fs hfs => .cons ⟨rfl, .none⟩ hfs
  | .withDefault name value :: rest => by
    refine (shows_fragment p value).bind fun f => (shows_formals p rest).returning fun fs hfs hf =>
      ?_
    exact .cons ⟨rfl, .some hf.spans⟩ hfs
  | .foreign pos construct :: _ => by
    exact Drafts.refuse _ _

end

example : ((Expr.name .first "a").draft (.start none)).spans.length = 1 := by decide +kernel

end Lowering

end ScriptCompiler
