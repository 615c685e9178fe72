import ScriptCompiler.Proofs.Identifiers
import ScriptCompiler.Proofs.Margins
import ScriptCompiler.Proofs.Effect
import ScriptCompiler.Proofs.Strings

/-!
# Lowerings side by side

Lowerings are put together from few actions: writing and reading parts of the state, sequences, and
actions that are ensured in the end. A relation between actions that putting them together keeps
thus relates the lowering of every expression, statement and program to itself, with results that
differ in margins only. A failure is a refusal or a fault of the context; the only defect that can
be reported is a string token without a quote.

The relation may be about two runs from different states, or forget the second one and be a property
of the first.
-/

namespace ScriptCompiler

/-- A failure that is no defect, or that reports one of the given string tokens as malformed. -/
def Diagnostic.Reports (tokens : List String) (d : Diagnostic) : Prop :=
  d.kind = .internal →
    ∃ token ∈ tokens, Literal.splitString? token.toList = none ∧
    d = (Fault.malformedString token).report

variable {tokens : List String} {f : Fault} {token : String} {items : List Expr} {e : Expr}
  {statements : List Stmt}
  {left : Target} {right : Assigned}

theorem Diagnostic.reports_of_kind_ne {d : Diagnostic} (h : d.kind ≠ .internal) :
    d.Reports tokens :=
  fun hkind => absurd hkind h

theorem Fault.IsRefusal.reports (h : f.IsRefusal) (pos : Position) :
    (f.reportAt pos).Reports tokens := by
  refine Diagnostic.reports_of_kind_ne ?_
  rw [Fault.kind_reportAt, h.kind]
  simp

theorem Fault.reports_brokenSlice (pos : Position) :
    (Fault.brokenSlice.reportAt pos).Reports tokens := by
  refine Diagnostic.reports_of_kind_ne ?_
  rw [Fault.kind_reportAt]
  simp [Fault.kind]

theorem Fault.IsFlawOf.reports (h : f.IsFlawOf token.toList)
    (hmem : token ∈ tokens) (pos : Position) : (f.reportAt pos).Reports tokens := by
  rcases h with hrefusal | rfl | ⟨hsplit, rfl⟩
  · exact hrefusal.reports pos
  · exact Fault.reports_brokenSlice pos
  · intro _
    refine ⟨token, hmem, hsplit, ?_⟩
    simp [Fault.reportAt, Fault.kind]

theorem StringToken.token_mem_strings (t : StringToken) (h : t.strings ⊆ tokens) :
    t.token ∈ tokens := by
  obtain ⟨pos, token, pieces⟩ := t
  exact h List.mem_cons_self

theorem token_mem_of_mem {parts : List StringToken} (h : tokenStrings parts ⊆ tokens)
    {t : StringToken} (ht : t ∈ parts) : t.token ∈ tokens := by
  induction parts with
  | nil => cases ht
  | cons first rest ih =>
    obtain ⟨hfirst, hrest⟩ := List.append_subset.mp h
    rcases List.mem_cons.mp ht with rfl | ht
    · exact t.token_mem_strings hfirst
    · exact ih hrest ht

theorem mem_itemStrings (he : e ∈ items) (h : token ∈ e.strings) :
    token ∈ itemStrings items := by
  induction items with
  | nil => cases he
  | cons first rest ih =>
    rw [itemStrings, List.mem_append]
    rcases List.mem_cons.mp he with rfl | he
    · exact .inl h
    · exact .inr (ih he)

theorem strings_firstFunction? {d : FunctionDef} (h : firstFunction? statements = some d) :
    d.strings ⊆ blockStrings statements := by
  induction statements with
  | nil => cases h
  | cons s rest ih =>
    cases s with
    | function decorators definition =>
      obtain ⟨pos, isAsync, namePos, name, parameters, body⟩ := definition
      cases h
      exact List.subset_append_left _ _
    | _ => exact List.subset_append_of_subset_right _ (ih h)

namespace Lowering

open Script

/-- The texts of the arguments of a call, that differ in margins only. -/
structure ArgumentTexts.Relaid (M : Nat → Nat → Prop) (texts texts' : ArgumentTexts) : Prop where
  positional : List.Forall₂ (Script.Relaid M) texts.positional texts'.positional
  keywords : List.Forall₂ (Script.Relaid M) texts.keywords texts'.keywords

section Reflexivity

variable {M : Nat → Nat → Prop} {α : Type} {ρ : α → α → Prop}

instance : Std.Refl (Script.Relaid M) := ⟨.same⟩

instance [Std.Refl ρ] : Std.Refl (List.Forall₂ ρ) := ⟨List.forall₂_refl⟩

instance [Std.Refl ρ] : Std.Refl (Option.Rel ρ) where
  refl o := by
    cases o with
    | none => exact .none
    | some a => exact .some (Std.Refl.refl a)

instance : Std.Refl (Formal.Relaid M) := ⟨fun p => ⟨rfl, Std.Refl.refl p.default⟩⟩

instance : Std.Refl (Fragment.Relaid M) where
  refl x := by
    cases x with
    | plain text => exact .plain (.same text)
    | chain op texts => exact .chain (Std.Refl.refl texts)

instance : Std.Refl (ArgumentTexts.Relaid M) := ⟨fun _ => ⟨Std.Refl.refl _, Std.Refl.refl _⟩⟩

end Reflexivity

/-- A relation between actions that run inside `n` frames of their own and write their lines at
depth `k`. It relates the actions that lowerings are put together from, and putting them together
keeps it. -/
structure Relates (M : Nat → Nat → Prop)
    (R : Nat → Nat → ∀ {α : Type}, (α → α → Prop) → Lowering α → Lowering α → Prop)
    (known : String → Prop) (tokens : List String) : Prop where
  pure : ∀ {n k : Nat} {α : Type} {ρ : α → α → Prop} {a a' : α}, ρ a a' →
    R n k ρ (Pure.pure a) (Pure.pure a')
  fail : ∀ {n k : Nat} {α : Type} {ρ : α → α → Prop} {d : Diagnostic}, d.Reports tokens →
    R n k ρ (Lowering.fail d) (Lowering.fail d)
  bind : ∀ {n k : Nat} {α β : Type} {ρ : α → α → Prop} [Std.Refl ρ] {τ : β → β →
    Prop} {m m' : Lowering α}
    {f f' : α → Lowering β}, R n k ρ m m' → (∀ a a', ρ a a' → R n k τ (f a) (f' a')) →
    R n k τ (m >>= f) (m' >>= f')
  /-- Looking at the class around. -/
  reading : ∀ {n k : Nat} {α : Type} {ρ : α → α → Prop} {f : LoweringState → Lowering α},
    (∀ s t, s.className = t.className → f s = f t) → (∀ s, R n k ρ (f s) (f s)) →
    R n k ρ (get >>= f) (get >>= f)
  write : ∀ {n k : Nat} {line line' : String}, Relaid M line line' →
    R n k Eq (Lowering.write line) (Lowering.write line')
  register : ∀ {n k : Nat} (name : String), R (n + 1) k Eq (Lowering.register name)
    (Lowering.register name)
  declare : ∀ {n k : Nat} (name : String), R (n + 1) k Eq (Lowering.declare name)
    (Lowering.declare name)
  temporary : ∀ {n k : Nat} (stem : String), R n k Eq (Lowering.temporary stem)
    (Lowering.temporary stem)
  inFrame : ∀ {n k : Nat} {α : Type} {ρ : α → α → Prop} {m m' : Lowering α}, R (n + 1) k ρ m m' →
    R n k ρ (Lowering.inFrame m) (Lowering.inFrame m')
  nested : ∀ {n k : Nat} {α : Type} {ρ : α → α → Prop} {m m' : Lowering α}, R n k ρ m m' →
    R n k ρ (Lowering.nested m) (Lowering.nested m')
  inClass : ∀ {n k : Nat} {m m' : Lowering Unit} (className : Option String), R n k Eq m m' →
    R n k Eq (Lowering.inClass className m) (Lowering.inClass className m')
  indented : ∀ {n k : Nat} {m m' : Lowering Unit}, R n (k + 1) Eq m m' →
    R n k Eq (Lowering.indented m) (Lowering.indented m')
  enclosed : ∀ {n k : Nat} {closer : String} {m m' : Lowering Unit}, R n (k + 1) Eq m m' →
    R n k Eq (Lowering.enclosed closer m) (Lowering.enclosed closer m')
  reserving : ∀ {n k : Nat} {m m' : Lowering Unit} (line : String), R n k Eq m m' →
    R n k Eq (Lowering.reserving line m) (Lowering.reserving line m')
  arrow : ∀ {n k : Nat} {formals formals' : List Formal} {body body' : String},
    List.Forall₂ (Formal.Relaid M) formals formals' → Relaid M body body' →
    R n k (Relaid M) (Lowering.arrow formals body) (Lowering.arrow formals' body')
  tall : ∀ {n k : Nat} {entries entries' : List String}, List.Forall₂ (Relaid M) entries entries' →
    R n k (Relaid M) (Lowering.tall entries) (Lowering.tall entries')
  name : ∀ {n k : Nat} (pos : Position) {id : String}, known id →
    R n k (Fragment.Relaid M) (fragment (.name pos id)) (fragment (.name pos id))
  contextText? : ∀ {n k : Nat} {e : Expr}, (∀ id ∈ e.names, known id) →
    R n k Eq (Lowering.contextText? e) (Lowering.contextText? e)
  specialFunction? : ∀ {n k : Nat} {e : Expr}, (∀ id ∈ e.names, known id) →
    R n k Eq (Lowering.specialFunction? e) (Lowering.specialFunction? e)
  isConstructorMark : ∀ {n k : Nat} {e : Expr}, (∀ id ∈ e.names, known id) →
    R n k Eq (Lowering.isConstructorMark e) (Lowering.isConstructorMark e)

/-- Names that may be looked up and string tokens that may be reported. -/
structure Leaves (known : String → Prop) (tokens names strings : List String) : Prop where
  names : ∀ id ∈ names, known id
  strings : strings ⊆ tokens

theorem leaves_append {known : String → Prop} {names names' strings strings' : List String} :
    Leaves known tokens (names ++ names') (strings ++ strings') ↔
      Leaves known tokens names strings ∧ Leaves known tokens names' strings' := by
  constructor
  · intro h
    obtain ⟨hnames, hnames'⟩ := List.forall_mem_append.mp h.names
    obtain ⟨hstrings, hstrings'⟩ := List.append_subset.mp h.strings
    exact ⟨⟨hnames, hstrings⟩, ⟨hnames', hstrings'⟩⟩
  · rintro ⟨h, h'⟩
    exact ⟨List.forall_mem_append.mpr ⟨h.names, h'.names⟩,
      List.append_subset.mpr ⟨h.strings, h'.strings⟩⟩

section Relation

variable {M : Nat → Nat → Prop} {known : String → Prop} {tokens : List String} {α β : Type}
  {n k : Nat}
  {R : Nat → Nat → ∀ {α : Type}, (α → α → Prop) → Lowering α → Lowering α → Prop} {ρ : α → α → Prop}

theorem onlyReports_of_flaws {x : Except Fault α} (hmem : token ∈ tokens) (pos : Position)
    (h : OnlyFaults (Fault.IsFlawOf token.toList) x) :
    OnlyFaults (fun f => (f.reportAt pos).Reports tokens) x :=
  h.mono fun _ hf => hf.reports hmem pos

variable (hR : Relates M @R known tokens)
include hR

/-! ## Actions -/

theorem Relates.same {τ : β → β → Prop} {m m' : Lowering α} {f f' : α → Lowering β}
    (h : R n k Eq m m')
    (hf : ∀ a, R n k τ (f a) (f' a)) : R n k τ (m >>= f) (m' >>= f') :=
  hR.bind h fun a _ ha => ha ▸ hf a

theorem Relates.line {line : String} {f f' : Unit → Lowering α} (h : R n k ρ (f ()) (f' ())) :
    R n k ρ (Lowering.write line >>= f) (Lowering.write line >>= f') :=
  hR.same (hR.write (.same line)) fun _ => h

theorem Relates.closed {closer : String} {m m' : Lowering Unit} (h : R n (k + 1) Eq m m') :
    R n k Eq (Lowering.indented m >>= fun _ => Lowering.write closer)
      (Lowering.indented m' >>= fun _ => Lowering.write closer) :=
  hR.same (hR.indented h) fun _ => hR.write (.same closer)

theorem related_refuse (construct : String) (pos : Position) :
    R n k ρ (refuse construct pos) (refuse construct pos) :=
  hR.fail (Diagnostic.reports_of_kind_ne (by simp [Diagnostic.unsupported]))

theorem related_refuseKind (kind : NodeKind) (pos : Position) :
    R n k ρ (refuseKind kind pos) (refuseKind kind pos) :=
  related_refuse hR kind.construct pos

theorem related_afterRefusal {c : Prop} [Decidable c] {construct : String} {pos : Position}
    {rest rest' : PUnit → Lowering α} (h : R n k ρ (rest ⟨⟩) (rest' ⟨⟩)) :
    R n k ρ (if c then refuse construct pos >>= rest else rest ⟨⟩)
      (if c then refuse construct pos >>= rest' else rest' ⟨⟩) := by
  split_ifs
  · exact hR.same (related_refuse hR construct pos) fun _ => h
  · exact h

theorem related_locate (pos : Position) {x : Except Fault α}
    (h : OnlyFaults (fun f => (f.reportAt pos).Reports tokens) x) :
    R n k Eq (locate pos x) (locate pos x) := by
  cases x with
  | ok a => exact hR.pure rfl
  | error f => exact hR.fail (h f rfl)

theorem related_forM {f : α → Lowering PUnit} (h : ∀ a, R n k Eq (f a) (f a)) (as : List α) :
    R n k Eq (as.forM f) (as.forM f) := by
  induction as with
  | nil => exact hR.pure rfl
  | cons a as ih => exact hR.same (h a) fun _ => ih

theorem related_mapM [Std.Refl ρ] {f : β → Lowering α} {as : List β}
    (h : ∀ a ∈ as, R n k ρ (f a) (f a)) : R n k (List.Forall₂ ρ) (as.mapM f) (as.mapM f) := by
  induction as with
  | nil => exact hR.pure .nil
  | cons a as ih =>
    rw [List.mapM_cons]
    refine hR.bind (h a List.mem_cons_self) fun b b' hb => ?_
    refine hR.bind (ih fun c hc => h c (List.mem_cons_of_mem _ hc)) fun bs bs' hbs => ?_
    exact hR.pure (.cons hb hbs)

theorem related_clauseTarget (target : ClauseTarget) :
    R (n + 1) k Eq (clauseTarget target) (clauseTarget target) := by
  cases target with
  | name id => exact hR.same (hR.register id) fun _ => hR.pure rfl
  | names ids => exact hR.same (related_forM hR hR.register ids) fun _ => hR.pure rfl
  | foreign pos kind => exact related_refuseKind hR kind pos

theorem related_registerFormals {formals formals' : List Formal}
    (h : List.Forall₂ (Formal.Relaid M) formals formals') :
    R (n + 1) k Eq (formals.forM (register ·.name)) (formals'.forM (register ·.name)) := by
  induction h with
  | nil => exact hR.pure rfl
  | @cons p p' _ _ hp _ ih =>
    have hfirst : R (n + 1) k Eq (register p.name) (register p'.name) := by
      rw [hp.name]
      exact hR.register _
    exact hR.same hfirst fun _ => ih

/-! ## Expressions -/

mutual

theorem related_fragment {n k : Nat} : ∀ e : Expr, Leaves known tokens e.names e.strings →
    R n k (Fragment.Relaid M) (fragment e) (fragment e)
  | .name pos id, h => hR.name pos (h.names id (by simp [Expr.names]))
  | .member object key, h => by
    have hobject : Leaves known tokens object.names object.strings := by
      rwa [Expr.names, Expr.strings] at h
    rw [fragment]
    refine hR.same (hR.isConstructorMark hobject.names) fun marked => ?_
    split_ifs
    · exact hR.pure (.plain (.same _))
    · refine hR.same (hR.contextText? h.names) fun text => ?_
      cases text with
      | some text => exact hR.pure (.plain (.same text))
      | none =>
        refine hR.bind (related_fragment object hobject) fun base base' hbase => hR.pure (.plain ?_)
        exact ((hbase.text.receiver object.kind).before ".").before key
  | .subscript _ [], _ | .subscript _ (_ :: _ :: _), _ => by
    rw [fragment] <;> first | exact related_refuse hR _ _ | simp
  | .subscript value [.item index], h => by
    rw [Expr.names, indexNames, indexNames, List.append_nil, Expr.strings, indexStrings,
      indexStrings,
      List.append_nil] at h
    obtain ⟨hvalue, hindex⟩ := leaves_append.mp h
    rw [fragment]
    refine hR.bind (related_fragment value hvalue) fun base base' hbase => ?_
    refine hR.bind (related_fragment index hindex) fun index index' hindex => hR.pure (.plain ?_)
    exact (hbase.text.receiver value.kind).append hindex.text.brackets
  | .subscript value [.slice lower upper step], h => by
    rw [Expr.names, indexNames, indexNames, List.append_nil, Expr.strings, indexStrings,
      indexStrings,
      List.append_nil] at h
    simp only [leaves_append] at h
    obtain ⟨hvalue, hlower, hupper, hstep⟩ := h
    rw [fragment]
    refine hR.bind (related_fragment value hvalue) fun base base' hbase => ?_
    refine hR.bind (related_optional lower hlower) fun lower lower' hlower => ?_
    refine hR.bind (related_optional upper hupper) fun upper upper' hupper => ?_
    refine hR.bind (related_optional step hstep) fun step step' hstep => hR.pure (.plain ?_)
    exact (hbase.text.receiver value.kind).slice (.sliceArguments hlower hupper hstep)
  | .call function arguments, h => by
    rw [Expr.names, Expr.strings] at h
    obtain ⟨hfunction, harguments⟩ := leaves_append.mp h
    rw [fragment]
    refine hR.same (hR.specialFunction? hfunction.names) fun name => ?_
    cases name with
    | some name =>
      refine hR.bind (related_argumentTexts arguments harguments) fun texts texts' htexts =>
        hR.pure (.plain ?_)
      exact .specialCall name _ htexts.positional htexts.keywords
    | none =>
      refine hR.bind (related_fragment function hfunction) fun callee callee' hcallee => ?_
      refine hR.bind (related_argumentTexts arguments harguments) fun texts texts' htexts =>
        hR.pure (.plain ?_)
      exact hcallee.text.call htexts.positional htexts.keywords
  | .paren _ inner, h => by
    rw [Expr.names, Expr.strings] at h
    rw [fragment]
    exact hR.bind (related_fragment inner h) fun _ _ htext =>
      hR.pure (.plain (htext.text.grouped inner.kind))
  | .binary op left right, h => by
    rw [Expr.names, Expr.strings] at h
    obtain ⟨hleft, hright⟩ := leaves_append.mp h
    rw [fragment]
    refine related_afterRefusal hR ?_
    refine hR.bind (related_fragment left hleft) fun l l' hl => ?_
    refine hR.bind (related_fragment right hright) fun r r' hr => ?_
    split_ifs
    · exact hR.pure (.plain (hl.text.format _ hr.text))
    · exact hR.pure (.plain (hl.text.binary op _ _ hr.text))
  | .unary _ op operand, h => by
    rw [Expr.names, Expr.strings] at h
    rw [fragment]
    exact hR.bind (related_fragment operand h) fun _ _ htext =>
      hR.pure (.plain (.behind _ htext.text.parens))
  | .boolean op left right, h => by
    rw [Expr.names, Expr.strings] at h
    obtain ⟨hleft, hright⟩ := leaves_append.mp h
    rw [fragment]
    refine hR.bind (related_fragment left hleft) fun l l' hl => ?_
    refine hR.bind (related_fragment right hright) fun r r' hr => hR.pure (.chain ?_)
    exact List.rel_append (hl.operands op) (hr.operands op)
  | .comparison op left right, h => by
    rw [Expr.names, Expr.strings] at h
    obtain ⟨hleft, hright⟩ := leaves_append.mp h
    rw [fragment]
    refine related_afterRefusal hR ?_
    refine hR.bind (related_fragment left hleft) fun l l' hl => ?_
    refine hR.bind (related_fragment right hright) fun r r' hr => ?_
    exact hR.pure (.plain (hl.text.comparison op _ hr.text))
  | .conditional body condition alternative, h => by
    rw [Expr.names, Expr.strings] at h
    simp only [leaves_append] at h
    obtain ⟨hbody, hcondition, halternative⟩ := h
    rw [fragment]
    refine hR.bind (related_fragment condition hcondition) fun c c' hc => ?_
    refine hR.bind (related_fragment body hbody) fun b b' hb => ?_
    refine hR.bind (related_fragment alternative halternative) fun a a' ha =>
      hR.pure (.plain (Relaid.parens ?_))
    exact (((hc.text.before " ? ").append hb.text).before " : ").append ha.text
  | .lambda _ parameters body, h => by
    rw [Expr.names, Expr.strings] at h
    obtain ⟨hparameters, hbody⟩ := leaves_append.mp h
    rw [fragment]
    refine hR.bind (related_formals parameters hparameters) fun formals formals' hformals => ?_
    have hinner :
        R n k (Fragment.Relaid M) (inFrame do formals.forM (register ·.name); fragment body)
        (inFrame do formals'.forM (register ·.name); fragment body) := by
      refine hR.inFrame (hR.same (related_registerFormals hR hformals) fun _ => ?_)
      exact related_fragment body hbody
    refine hR.bind hinner fun text text' htext => ?_
    exact hR.bind (hR.arrow hformals htext.text) fun _ _ harrow => hR.pure (.plain harrow)
  | .await _ operand, h => by
    rw [Expr.names, Expr.strings] at h
    rw [fragment]
    exact hR.bind (related_fragment operand h) fun _ _ htext =>
      hR.pure (.plain (.behind _ htext.text))
  | .number pos _ token, _ => by
    rw [fragment]
    have htoken := (Literal.onlyRefusals_lowerNumber token.toList).mono
      (Q := fun f => (f.reportAt pos).Reports tokens) fun f hf => hf.reports pos
    refine hR.same (related_locate hR pos htoken) fun cs => ?_
    exact hR.pure (.plain (.same _))
  | .string token, h => by
    rw [Expr.names, Expr.strings] at h
    rw [fragment]
    split_ifs
    · exact hR.bind (related_templatePart token h) fun _ _ htext => hR.pure (.plain htext.template)
    · have htoken :=
        onlyReports_of_flaws (token.token_mem_strings h.strings) token.pos
          (Literal.onlyFlaws_lowerString _)
      refine hR.same (related_locate hR _ htoken) fun cs => ?_
      exact hR.pure (.plain (.same _))
  | .joined first rest, h => by
    rw [Expr.names, Expr.strings] at h
    obtain ⟨hfirst, hrest⟩ := leaves_append.mp h
    rw [fragment]
    have hapart := (Literal.onlyBroken_takeApart ((first :: rest).map (·.token.toList))).mono
      (Q := fun f => (f.reportAt first.pos).Reports tokens) fun f hf =>
      hf ▸ Fault.reports_brokenSlice first.pos
    refine hR.same (related_locate hR first.pos hapart) fun _ => ?_
    split_ifs
    · refine hR.bind (related_templatePart first hfirst) fun head head' hhead => ?_
      refine hR.bind (related_templateParts rest hrest) fun tail tail' htail => hR.pure (.plain ?_)
      exact (hhead.append htail).template
    · refine hR.bind (related_mapM (ρ := Eq) hR fun t ht => ?_) fun values values' hvalues => ?_
      · have hmem : t.token ∈ tokens := by
          rcases List.mem_cons.mp ht with rfl | ht
          · exact t.token_mem_strings hfirst.strings
          · exact token_mem_of_mem hrest.strings ht
        exact related_locate hR _
          (onlyReports_of_flaws hmem t.pos (Literal.onlyFlaws_stringValue _))
      · rw [List.forall₂_eq_eq_eq] at hvalues
        subst hvalues
        exact hR.pure (.plain (.same _))
  | .constant _ value, _ => by
    cases value <;> rw [fragment] <;> exact hR.pure (.plain (.same _))
  | .sequence _ form items, h => by
    rw [Expr.names, Expr.strings] at h
    rw [fragment]
    exact hR.bind (related_sequenceTexts items h) fun _ _ htexts =>
      hR.pure (.plain (.collection form htexts))
  | .dictionary _ entries, h => by
    rw [Expr.names, Expr.strings] at h
    rw [fragment]
    split_ifs
    · refine hR.bind (hR.nested (related_entryTexts entries h)) fun texts texts' htexts => ?_
      exact hR.bind (hR.tall htexts) fun _ _ htall => hR.pure (.plain htall)
    · exact hR.bind (related_entryTexts entries h) fun _ _ htexts =>
        hR.pure (.plain (Relaid.commas htexts).braces)
  | .comprehension _ form body clauses, h => by
    rw [Expr.names, Expr.strings] at h
    obtain ⟨hbody, hclauses⟩ := leaves_append.mp h
    rw [fragment]
    refine hR.bind (hR.inFrame ?_) fun _ _ htext => hR.pure (.plain (.collected form htext))
    refine hR.bind (related_clauseTexts clauses hclauses) fun openings openings' hopenings => ?_
    refine hR.bind (related_fragment body hbody) fun value value' hvalue => ?_
    exact hR.pure (.generator hopenings hvalue.text)
  | .dictComprehension _ key value clauses, h => by
    rw [Expr.names, Expr.strings] at h
    simp only [leaves_append] at h
    obtain ⟨hkey, hvalue, hclauses⟩ := h
    rw [fragment]
    refine hR.bind (hR.inFrame ?_) fun _ _ htext => hR.pure (.plain (.between _ htext _))
    refine hR.bind (related_clauseTexts clauses hclauses) fun openings openings' hopenings => ?_
    refine hR.bind (related_fragment key hkey) fun k k' hk => ?_
    refine hR.bind (related_fragment value hvalue) fun v v' hv => hR.pure (.generator hopenings ?_)
    exact ((hk.text.before ", ").append hv.text).brackets
  | .splat pos _, _ | .foreign pos _, _ => by
    rw [fragment]
    exact related_refuseKind hR _ pos

theorem related_optional {n k : Nat} :
    ∀ e : Option Expr, Leaves known tokens (optionalNames e) (optionalStrings e) →
    R n k (Option.Rel (Relaid M)) (Lowering.optional e) (Lowering.optional e)
  | none, _ => by
    rw [Lowering.optional]
    exact hR.pure .none
  | some e, h => by
    rw [optionalNames, optionalStrings] at h
    rw [Lowering.optional]
    exact hR.bind (related_fragment e h) fun _ _ htext => hR.pure (.some htext.text)

theorem related_sequenceTexts {n k : Nat} : ∀ items : List Expr,
    Leaves known tokens (itemNames items) (itemStrings items) →
    R n k (List.Forall₂ (Relaid M)) (sequenceTexts items) (sequenceTexts items)
  | [], _ => by
    rw [sequenceTexts]
    exact hR.pure .nil
  | e :: rest, h => by
    rw [itemNames, itemStrings] at h
    obtain ⟨hfirst, hrest⟩ := leaves_append.mp h
    cases e with
    | splat pos operand =>
      rw [Expr.names, Expr.strings] at hfirst
      rw [sequenceTexts]
      refine hR.bind (related_fragment operand hfirst) fun _ _ htext => ?_
      exact hR.bind (related_sequenceTexts rest hrest) fun _ _ htexts =>
        hR.pure (.cons (.behind _ htext.text) htexts)
    | _ =>
      rw [sequenceTexts]
      · refine hR.bind (related_fragment _ hfirst) fun _ _ htext => ?_
        exact hR.bind (related_sequenceTexts rest hrest) fun _ _ htexts =>
          hR.pure (.cons htext.text htexts)
      · simp

theorem related_argumentTexts {n k : Nat} : ∀ arguments : List Argument,
    Leaves known tokens (argumentNames arguments) (argumentStrings arguments) →
    R n k (ArgumentTexts.Relaid M) (argumentTexts arguments) (argumentTexts arguments)
  | [], _ => by
    rw [argumentTexts]
    exact hR.pure ⟨.nil, .nil⟩
  | .positional e :: rest, h => by
    rw [argumentNames, argumentStrings] at h
    obtain ⟨hfirst, hrest⟩ := leaves_append.mp h
    rw [argumentTexts]
    refine hR.bind (related_fragment e hfirst) fun _ _ htext => ?_
    exact hR.bind (related_argumentTexts rest hrest) fun _ _ htexts =>
      hR.pure ⟨.cons htext.text htexts.positional, htexts.keywords⟩
  | .keyword _ name e :: rest, h => by
    rw [argumentNames, argumentStrings] at h
    obtain ⟨hfirst, hrest⟩ := leaves_append.mp h
    rw [argumentTexts]
    refine hR.bind (related_fragment e hfirst) fun _ _ htext => ?_
    exact hR.bind (related_argumentTexts rest hrest) fun _ _ htexts =>
      hR.pure ⟨htexts.positional, .cons (.behind _ htext.text) htexts.keywords⟩
  | .keywordSplat pos :: _, _ => by
    rw [argumentTexts]
    exact related_refuseKind hR _ pos

theorem related_entryTexts {n k : Nat} : ∀ entries : List Entry,
    Leaves known tokens (entryNames entries) (entryStrings entries) →
    R n k (List.Forall₂ (Relaid M)) (entryTexts entries) (entryTexts entries)
  | [], _ => by
    rw [entryTexts]
    exact hR.pure .nil
  | .pair key value :: rest, h => by
    rw [entryNames, entryStrings] at h
    simp only [leaves_append] at h
    obtain ⟨hkey, hvalue, hrest⟩ := h
    rw [entryTexts]
    refine hR.bind (related_fragment key hkey) fun k k' hk => ?_
    refine hR.bind (related_fragment value hvalue) fun v v' hv => ?_
    refine hR.bind (related_entryTexts rest hrest) fun _ _ htexts => hR.pure (.cons ?_ htexts)
    exact ((hk.text.propertyKey _).before ": ").append hv.text
  | .splat e :: rest, h => by
    rw [entryNames, entryStrings] at h
    obtain ⟨hfirst, hrest⟩ := leaves_append.mp h
    rw [entryTexts]
    refine hR.bind (related_fragment e hfirst) fun _ _ htext => ?_
    exact hR.bind (related_entryTexts rest hrest) fun _ _ htexts =>
      hR.pure (.cons (.behind _ htext.text) htexts)

theorem related_clauseTexts {n k : Nat} : ∀ clauses : List Clause,
    Leaves known tokens (clauseNames clauses) (clauseStrings clauses) →
    R (n + 1) k (List.Forall₂ (Relaid M)) (clauseTexts clauses) (clauseTexts clauses)
  | [], _ => by
    rw [clauseTexts]
    exact hR.pure .nil
  | .loop pos isAsync target iterable :: rest, h => by
    rw [clauseNames, clauseStrings] at h
    obtain ⟨hfirst, hrest⟩ := leaves_append.mp h
    rw [clauseTexts]
    refine related_afterRefusal hR ?_
    refine hR.bind (related_fragment iterable hfirst) fun values values' hvalues => ?_
    refine hR.same (related_clauseTarget hR target) fun name => ?_
    exact hR.bind (related_clauseTexts rest hrest) fun _ _ htexts =>
      hR.pure (.cons (.between _ hvalues.text _) htexts)
  | .guard condition :: rest, h => by
    rw [clauseNames, clauseStrings] at h
    obtain ⟨hfirst, hrest⟩ := leaves_append.mp h
    rw [clauseTexts]
    refine hR.bind (related_fragment condition hfirst) fun _ _ htext => ?_
    exact hR.bind (related_clauseTexts rest hrest) fun _ _ htexts =>
      hR.pure (.cons (.between _ htext.text _) htexts)

theorem related_templatePart {n k : Nat} :
    ∀ t : StringToken, Leaves known tokens t.names t.strings →
    R n k (Relaid M) (templatePart t) (templatePart t)
  | .mk pos token pieces, h => by
    rw [StringToken.names, StringToken.strings] at h
    obtain ⟨hmem, hstrings⟩ := List.cons_subset.mp h.strings
    have hpieces : Leaves known tokens (pieceNames pieces) (pieceStrings pieces) :=
      ⟨h.names, hstrings⟩
    rw [templatePart]
    cases hsplit : Literal.splitString? token.toList with
    | none =>
      have hflaw : (Fault.malformedString token).IsFlawOf token.toList :=
        .inr (.inr ⟨hsplit, by simp⟩)
      exact hR.fail (hflaw.reports hmem pos)
    | some parts =>
      dsimp only
      split_ifs
      · have hchecked :=
          onlyReports_of_flaws hmem pos (Literal.onlyFlaws_checked token.toList parts)
        refine hR.same (related_locate hR pos hchecked) fun _ => ?_
        exact related_templatePieces _ pos pieces hpieces
      · have htoken := onlyReports_of_flaws hmem pos (Literal.onlyFlaws_stringValue _)
        refine hR.same (related_locate hR pos htoken) fun cs => ?_
        exact hR.pure (.same _)

theorem related_templateParts {n k : Nat} : ∀ parts : List StringToken,
    Leaves known tokens (tokenNames parts) (tokenStrings parts) →
    R n k (Relaid M) (templateParts parts) (templateParts parts)
  | [], _ => by
    rw [templateParts]
    exact hR.pure (.same "")
  | t :: rest, h => by
    rw [tokenNames, tokenStrings] at h
    obtain ⟨hfirst, hrest⟩ := leaves_append.mp h
    rw [templateParts]
    refine hR.bind (related_templatePart t hfirst) fun _ _ htext => ?_
    exact hR.bind (related_templateParts rest hrest) fun _ _ hmore => hR.pure (htext.append hmore)

theorem related_templatePieces (raw : Bool) (pos : Position) {n k : Nat} : ∀ pieces : List Piece,
    Leaves known tokens (pieceNames pieces) (pieceStrings pieces) →
    R n k (Relaid M) (templatePieces raw pos pieces) (templatePieces raw pos pieces)
  | [], _ => by
    rw [templatePieces]
    exact hR.pure (.same "")
  | .text text :: rest, h => by
    rw [pieceNames, pieceStrings] at h
    rw [templatePieces]
    have hsegment := (Script.onlyRefusals_templateSegment raw text).mono
      (Q := fun f => (f.reportAt pos).Reports tokens) fun f hf => hf.reports pos
    refine hR.same (related_locate hR pos hsegment) fun segment => ?_
    exact hR.bind (related_templatePieces raw pos rest h) fun _ _ hmore => hR.pure (.behind _ hmore)
  | .hole holePos (some option) value :: rest, h => by
    rw [pieceNames, pieceStrings] at h
    cases option with
    | beyondBody =>
      rw [templatePieces]
      refine hR.bind (related_fragment value (leaves_append.mp h).1) fun _ _ _ => ?_
      exact hR.fail (Fault.reports_brokenSlice holePos)
    | beforeBody =>
      rw [templatePieces]
      · exact hR.fail (Fault.reports_brokenSlice holePos)
      · exact nofun
    | _ =>
      rw [templatePieces]
      · exact hR.fail (Fault.IsRefusal.reports ⟨_, rfl⟩ holePos)
      · exact nofun
  | .hole holePos none value :: rest, h => by
    rw [pieceNames, pieceStrings] at h
    obtain ⟨hfirst, hrest⟩ := leaves_append.mp h
    rw [templatePieces]
    refine hR.bind (related_fragment value hfirst) fun _ _ htext => ?_
    exact hR.bind (related_templatePieces raw pos rest hrest) fun _ _ hmore =>
      hR.pure ((Relaid.between _ htext.text _).append hmore)

theorem related_formals {n k : Nat} : ∀ parameters : List Parameter,
    Leaves known tokens (defaultNames parameters) (parameterStrings parameters) →
    R n k (List.Forall₂ (Formal.Relaid M)) (formals parameters) (formals parameters)
  | [], _ => by
    rw [formals]
    exact hR.pure .nil
  | .plain name :: rest, h => by
    rw [defaultNames, parameterStrings] at h
    rw [formals]
    exact hR.bind (related_formals rest h) fun _ _ hrest => hR.pure (.cons ⟨rfl, .none⟩ hrest)
  | .withDefault name value :: rest, h => by
    rw [defaultNames, parameterStrings] at h
    obtain ⟨hfirst, hrest⟩ := leaves_append.mp h
    rw [formals]
    refine hR.bind (related_fragment value hfirst) fun _ _ htext => ?_
    exact hR.bind (related_formals rest hrest) fun _ _ hmore =>
      hR.pure (.cons ⟨rfl, .some htext.text⟩ hmore)
  | .foreign pos construct :: _, _ => by
    exact related_refuse hR construct pos

end

example : (LoweringState.start (.ofBinding none) 4).buffer.depth = 0 := by decide +kernel

theorem related_text (h : Leaves known tokens e.names e.strings) :
    R n k (Relaid M) (text e) (text e) :=
  hR.bind (related_fragment hR e h) fun _ _ htext => hR.pure htext.text

theorem related_texts (h : Leaves known tokens (itemNames items) (itemStrings items)) :
    R n k (List.Forall₂ (Relaid M)) (items.mapM text) (items.mapM text) := by
  refine related_mapM hR fun e he =>
    related_text hR ⟨fun id hid => h.names id ?_, fun token htoken => h.strings ?_⟩
  · exact mem_itemNames he hid
  · exact mem_itemStrings he htoken

/-! ## Functions -/

section Functions

variable {formals formals' : List Formal} {body body' : Lowering Unit}

theorem related_defaults (h : List.Forall₂ (Formal.Relaid M) formals formals') :
    R n k Eq
      (formals.forM fun p => match p.default with
        | some default => write (defaultLine p.name default)
        | none => Pure.pure ())
      (formals'.forM fun p => match p.default with
        | some default => write (defaultLine p.name default)
        | none => Pure.pure ()) := by
  induction h with
  | nil => exact hR.pure rfl
  | @cons p p' _ _ hp _ ih =>
    obtain ⟨name, default⟩ := p
    obtain ⟨name', default'⟩ := p'
    obtain ⟨hname, hdefault⟩ := hp
    subst hname
    cases hdefault with
    | none => exact hR.same (hR.pure rfl) fun _ => ih
    | some hdefault => exact hR.same (hR.write (hdefault.defaultLine name)) fun _ => ih

theorem related_functionBody {header closer : String} (receiver : Receiver)
    (hformals : List.Forall₂ (Formal.Relaid M) formals formals')
    (hbody : R (n + 1) (k + 1) Eq body body') :
    R n k Eq (functionBody header formals receiver closer body)
      (functionBody header formals' receiver closer body') := by
  refine hR.inClass none (hR.same (hR.write (.same header)) fun _ => hR.enclosed (hR.inFrame ?_))
  refine hR.same (related_registerFormals hR hformals) fun _ =>
    hR.same (related_defaults hR hformals) fun _ => ?_
  cases receiver with
  | bound name =>
    refine hR.same (hR.register name) fun _ => ?_
    split_ifs
    · exact hR.line hbody
    · exact hbody
  | absent => exact hbody
  | unbound => exact hbody

omit hR in
theorem parameterNames_eq (h : List.Forall₂ (Formal.Relaid M) formals formals') :
    parameterNames formals = parameterNames formals' := by
  rw [parameterNames, parameterNames, Formal.Relaid.map_name h]

omit hR in
theorem relaid_splitSelf (h : List.Forall₂ (Formal.Relaid M) formals formals') :
    (splitSelf formals).1 = (splitSelf formals').1 ∧
      List.Forall₂ (Formal.Relaid M) (splitSelf formals).2 (splitSelf formals').2 := by
  cases h with
  | nil => exact ⟨rfl, .nil⟩
  | @cons p p' rest rest' hp hrest =>
    unfold splitSelf
    dsimp only
    rw [hp.name]
    by_cases hself : p'.name = selfName
    · rw [if_pos hself, if_pos hself]
      exact ⟨rfl, hrest⟩
    · rw [if_neg hself, if_neg hself]
      exact ⟨rfl, .cons hp hrest⟩

theorem related_plainFunction (isAsync : Bool) (name : String)
    (hformals : List.Forall₂ (Formal.Relaid M) formals formals')
    (hbody : R (n + 1) (k + 1) Eq body body') :
    R n k Eq (plainFunction isAsync name formals body)
    (plainFunction isAsync name formals' body') := by
  obtain ⟨hreceiver, hrest⟩ := relaid_splitSelf hformals
  unfold plainFunction
  generalize splitSelf formals = split at hreceiver hrest
  generalize splitSelf formals' = split' at hreceiver hrest
  obtain ⟨receiver, rest⟩ := split
  obtain ⟨receiver', rest'⟩ := split'
  subst hreceiver
  cases receiver <;>
    simp only [functionHeader, shorthandHeader, parameterNames_eq hrest] <;>
    exact related_functionBody hR _ hrest hbody

theorem related_namedFunction (isAsync : Bool) (name : String)
    (hformals : List.Forall₂ (Formal.Relaid M) formals formals')
    (hbody : R (n + 1) (k + 1) Eq body body') :
    R n k Eq (namedFunction isAsync name formals body)
    (namedFunction isAsync name formals' body') := by
  obtain ⟨hreceiver, hrest⟩ := relaid_splitSelf hformals
  unfold namedFunction functionHeader
  dsimp only
  rw [hreceiver, parameterNames_eq hrest]
  exact related_functionBody hR _ hrest hbody

theorem related_staticMethod (className : String) (isAsync : Bool) (name : String)
    (hformals : List.Forall₂ (Formal.Relaid M) formals formals')
    (hbody : R (n + 1) (k + 1) Eq body body') :
    R n k Eq (staticMethod className isAsync name formals body)
      (staticMethod className isAsync name formals' body') := by
  unfold staticMethod prototypeHeader
  rw [parameterNames_eq hformals]
  exact hR.same (related_functionBody hR _ hformals hbody) fun _ => hR.write (.same _)

theorem related_instanceMethod (className : String) (pos : Position) (isAsync : Bool)
    (name : String)
    (hformals : List.Forall₂ (Formal.Relaid M) formals formals')
    (hbody : R (n + 1) (k + 1) Eq body body') :
    R n k Eq (instanceMethod className pos isAsync name formals body)
      (instanceMethod className pos isAsync name formals' body') := by
  cases hformals with
  | nil => exact related_refuse hR _ pos
  | @cons p p' rest rest' hp hrest =>
    unfold instanceMethod prototypeHeader
    dsimp only
    rw [parameterNames_eq hrest, hp.name]
    refine hR.same (related_functionBody hR _ hrest hbody) fun _ => hR.line ?_
    exact hR.closed (hR.write (.same _))

theorem related_nativeMethod (isAsync : Bool) (name : String)
    (hformals : List.Forall₂ (Formal.Relaid M) formals formals')
    (hbody : R (n + 1) (k + 1) Eq body body') :
    R n k Eq (nativeMethod isAsync name formals body)
    (nativeMethod isAsync name formals' body') := by
  unfold nativeMethod shorthandHeader
  cases hformals with
  | nil =>
    exact related_functionBody hR .absent .nil hbody
  | @cons p p' rest rest' hp hrest =>
    dsimp only
    rw [parameterNames_eq hrest, hp.name]
    exact related_functionBody hR _ hrest hbody

end Functions

/-! ## Statements -/

theorem related_classBase (bases : Option (Position × List Argument)) :
    R n k Eq (classBase bases) (classBase bases) := by
  unfold classBase
  split
  · exact hR.pure rfl
  · exact hR.pure rfl
  · exact hR.pure rfl
  · exact related_refuse hR _ _
  · exact related_refuse hR _ _

theorem related_constructor (hasBase : Bool) :
    R n k Eq (constructor hasBase) (constructor hasBase) := by
  refine hR.line (hR.closed ?_)
  split_ifs
  · exact hR.line (hR.write (.same _))
  · exact hR.write (.same _)

theorem related_target {t : Target} (h : Leaves known tokens t.names t.strings) :
    R n k (Relaid M) (target t) (target t) := by
  unfold target
  cases t with
  | name pos id => exact hR.pure (.same _)
  | member object key =>
    exact hR.bind (related_text hR h) fun _ _ htext => hR.pure ((htext.before ".").before key)
  | subscript value indices =>
    refine related_afterRefusal hR (related_text hR ?_)
    exact h
  | foreign pos kind => exact related_refuseKind hR kind pos

theorem related_declaring (id : String) : R (n + 1) k Eq (declaring id) (declaring id) := by
  refine hR.same (hR.declare id) fun declaration => ?_
  cases declaration <;> exact hR.pure rfl

theorem related_assign (hleft : Leaves known tokens left.names left.strings)
    (hright : Leaves known tokens right.names right.strings) :
    R (n + 1) k Eq (assign left right) (assign left right) := by
  cases right with
  | chained => exact related_refuse hR _ _
  | nothing =>
    cases left with
    | name pos id =>
      refine hR.same (hR.declare id) fun declaration => ?_
      cases declaration with
      | fresh => exact hR.write (.same _)
      | reused => exact hR.pure rfl
    | _ => exact hR.pure rfl
  | value right =>
    refine hR.bind (related_text hR hright) fun value value' hvalue => ?_
    have hline : ∀ {name name'}, Relaid M name name' →
        R (n + 1) k Eq (write (name ++ " = " ++ value ++ ";"))
        (write (name' ++ " = " ++ value' ++ ";")) :=
      fun hname => hR.write (((hname.before " = ").append hvalue).before ";")
    cases left with
    | name pos id =>
      refine hR.same (related_declaring hR id) fun name => ?_
      exact hline (.same name)
    | member | subscript
    | foreign => exact hR.bind (related_target hR hleft) fun _ _ htarget => hline htarget

theorem related_augment {op : BinaryOp} {right : Expr}
    (hleft : Leaves known tokens left.names left.strings)
    (hright : Leaves known tokens right.names right.strings) :
    R n k Eq (augment left op right) (augment left op right) := by
  refine hR.bind (related_target hR hleft) fun name name' hname => ?_
  refine hR.bind (related_text hR hright) fun value value' hvalue => ?_
  cases op.symbol? with
  | some symbol =>
    exact hR.write (((((hname.before " ").before symbol).before "= ").append hvalue).before ";")
  | none =>
    cases op with
    | power =>
      exact hR.write
        (((((hname.before " = Math.pow(").append hname).before ", ").append hvalue).before ");")
    | floorDiv =>
      have hquotient := ((hname.before " = Math.floor(").append hname).before " / "
      exact hR.write ((hquotient.append (hvalue.grouped right.kind)).before ");")
    | _ => exact related_refuse hR _ _

theorem related_classAttribute (className : String)
    (hright : Leaves known tokens right.names right.strings) :
    R n k Eq (classAttribute className left right) (classAttribute className left right) := by
  cases left with
  | name pos id =>
    cases right with
    | nothing => exact hR.pure rfl
    | chained => exact related_refuse hR _ _
    | value e =>
      refine hR.bind (related_text hR hright) fun value value' hvalue => ?_
      exact hR.same (hR.write (.between _ hvalue _)) fun _ => hR.write (.same _)
  | _ => exact related_refuse hR _ _

theorem related_whileElse {condition condition' : String}
    {body body' otherwise otherwise' : Lowering Unit}
    (hcondition : Relaid M condition condition') (hbody : R n (k + 1) Eq body body')
    (hotherwise : R n (k + 1) Eq otherwise otherwise') :
    R n k Eq (whileElse condition body otherwise) (whileElse condition' body' otherwise') := by
  rw [whileElse_eq, whileElse_eq]
  refine hR.same (hR.temporary "orelse") fun sentinel => ?_
  refine hR.same (hR.reserving _ ?_) fun _ => ?_
  · refine hR.line (hR.closed ?_)
    refine hR.same (hR.write (.between _ hcondition _)) fun _ => ?_
    refine hR.same (hR.indented (hR.line (hR.write (.same _)))) fun _ => ?_
    exact hR.line hbody
  · exact hR.line (hR.closed hotherwise)

theorem related_formOf (decorators : List Decorator) :
    R n k Eq (formOf decorators) (formOf decorators) := by
  unfold formOf
  cases hform : methodForm decorators with
  | ok form => exact hR.pure rfl
  | error d =>
    refine hR.fail (Diagnostic.reports_of_kind_ne ?_)
    rw [kind_of_methodForm_eq_error hform]
    simp

mutual

theorem related_statement {n k : Nat} : ∀ s : Stmt, Leaves known tokens s.names s.strings →
    R (n + 1) k Eq (statement s) (statement s)
  | .evaluate _ [], h | .evaluate _ (_ :: _ :: _), h => by
    rw [Stmt.names, Stmt.strings] at h
    rw [statement]
    · exact hR.bind (related_sequenceTexts hR _ h) fun _ _ htexts =>
        hR.write ((Relaid.commas htexts).brackets.before ";")
    · simp
  | .evaluate _ [e], h => by
    rw [Stmt.names, itemNames, itemNames, List.append_nil, Stmt.strings, itemStrings, itemStrings,
      List.append_nil] at h
    rw [statement]
    exact hR.bind (related_text hR h) fun _ _ htext => hR.write (htext.before ";")
  | .assign left right, h => by
    rw [Stmt.names, Stmt.strings] at h
    obtain ⟨hleft, hright⟩ := leaves_append.mp h
    rw [statement]
    exact related_assign hR hleft hright
  | .augment left op right, h => by
    rw [Stmt.names, Stmt.strings] at h
    obtain ⟨hleft, hright⟩ := leaves_append.mp h
    rw [statement]
    exact related_augment hR hleft hright
  | .returns _ none, _ | .pass _, _ | .breaks _, _ | .continues _, _ => by
    rw [statement]
    exact hR.write (.same _)
  | .returns _ (some e), h => by
    rw [Stmt.names, optionalNames, Stmt.strings, optionalStrings] at h
    rw [statement]
    exact hR.bind (related_text hR h) fun _ _ htext => hR.write (.between _ htext _)
  | .outer _ _ _ names, _ => by
    rw [statement]
    exact related_forM hR hR.register names
  | .asserts _ _, h | .prints _ none _, h => by
    rw [Stmt.names, Stmt.strings] at h
    rw [statement]
    exact hR.bind (related_texts hR h) fun _ _ htexts => hR.write (.between _ (.commas htexts) _)
  | .raises pos _ (some _), _ | .raises pos none none, _ | .prints _ (some pos) _, _ => by
    rw [statement]
    exact related_refuse hR _ pos
  | .raises _ (some e) none, h => by
    rw [Stmt.names, optionalNames, optionalNames, List.append_nil, Stmt.strings, optionalStrings,
      optionalStrings,
      List.append_nil] at h
    rw [statement]
    exact hR.bind (related_text hR h) fun _ _ htext => hR.write (.between _ htext _)
  | .branch _ condition body more otherwise, h => by
    rw [Stmt.names, Stmt.strings] at h
    simp only [leaves_append] at h
    obtain ⟨hcondition, hbody, hmore, hotherwise⟩ := h
    rw [statement]
    refine hR.bind (related_text hR hcondition) fun _ _ htext =>
      hR.same (hR.write (.between _ htext _)) fun _ => ?_
    refine hR.same (hR.indented (related_block body hbody)) fun _ => ?_
    refine hR.same (related_branches more hmore) fun _ => ?_
    cases otherwise with
    | none => exact hR.write (.same _)
    | some otherwise =>
      rw [otherwiseNames, otherwiseStrings] at hotherwise
      exact hR.line (hR.closed (related_block otherwise hotherwise))
  | .forLoop pos isAsync left iterable body otherwise, h => by
    rw [Stmt.names, Stmt.strings] at h
    simp only [leaves_append] at h
    obtain ⟨-, hiterable, hbody, -⟩ := h
    cases left with
    | name _ id =>
      rw [statement]
      refine related_afterRefusal hR (related_afterRefusal hR ?_)
      refine hR.bind (related_text hR hiterable) fun values values' hvalues => ?_
      refine hR.same (related_declaring hR id) fun name => ?_
      exact hR.same (hR.write (.between _ hvalues _)) fun _ =>
        hR.closed (related_block body hbody)
    | _ =>
      rw [statement]
      · exact related_afterRefusal hR (related_afterRefusal hR (related_refuse hR _ _))
      · simp
  | .whileLoop _ condition body none, h => by
    rw [Stmt.names, Stmt.strings] at h
    simp only [leaves_append] at h
    obtain ⟨hcondition, hbody, -⟩ := h
    rw [statement]
    refine hR.bind (related_text hR hcondition) fun _ _ htext =>
      hR.same (hR.write (.between _ htext _)) fun _ => ?_
    exact hR.closed (related_block body hbody)
  | .whileLoop _ condition body (some otherwise), h => by
    rw [Stmt.names, otherwiseNames, Stmt.strings, otherwiseStrings] at h
    simp only [leaves_append] at h
    obtain ⟨hcondition, hbody, hotherwise⟩ := h
    rw [statement]
    exact hR.bind (related_text hR hcondition) fun _ _ htext => related_whileElse hR htext
      (related_block body hbody) (related_block otherwise hotherwise)
  | .function decorators (.mk pos isAsync namePos name parameters body), h => by
    rw [Stmt.names, Stmt.strings] at h
    obtain ⟨hparameters, hbody⟩ := leaves_append.mp h
    rw [statement]
    refine hR.same (related_formOf hR decorators) fun form => ?_
    refine hR.reading (fun s t hclass => by rw [hclass]) fun s => ?_
    have hformals := related_formals (n := n + 1) (k := k) hR parameters hparameters
    have hblock := related_block (n := n + 1) (k := k + 1) body hbody
    cases s.className with
    | none =>
      cases form with
      | static => exact related_refuse hR _ pos
      | ordinary | native =>
        exact hR.same (hR.register name) fun _ => hR.bind hformals fun _ _ hformals =>
          related_plainFunction hR isAsync name hformals hblock
    | some className =>
      cases form with
      | native => exact hR.pure rfl
      | static => exact hR.bind hformals fun _ _ hformals =>
        related_staticMethod hR className isAsync name hformals hblock
      | ordinary =>
        exact hR.bind hformals fun _ _ hformals =>
          related_instanceMethod hR className pos isAsync name hformals hblock
  | .classDef [] (.mk pos namePos name bases body), h => by
    rw [Stmt.names, Stmt.strings] at h
    obtain ⟨-, hbody⟩ := leaves_append.mp h
    rw [statement]
    refine hR.bind (related_classBase hR bases) fun base _ hbase =>
      hR.same (hR.register name) fun _ => ?_
    subst hbase
    refine hR.line (hR.same (hR.indented ?_) fun _ => ?_)
    · split_ifs
      · exact hR.same (related_constructor hR _) fun _ => related_nativeMethods body hbody
      · exact related_nativeMethods body hbody
    · exact hR.line (hR.inClass (some name) (related_members name body hbody))
  | .classDef (d :: _) _, _ => by
    rw [statement]
    exact related_refuse hR _ d.pos
  | .foreign pos kind _, _ => by
    rw [statement]
    exact related_refuseKind hR kind pos

theorem related_block {n k : Nat} :
    ∀ body : List Stmt, Leaves known tokens (blockNames body) (blockStrings body) →
    R (n + 1) k Eq (block body) (block body)
  | [], _ => by
    rw [block]
    exact hR.pure rfl
  | s :: rest, h => by
    rw [blockNames, blockStrings] at h
    obtain ⟨hfirst, hrest⟩ := leaves_append.mp h
    rw [block]
    exact hR.same (related_statement s hfirst) fun _ => related_block rest hrest

theorem related_branches {n k : Nat} : ∀ more : List Branch,
    Leaves known tokens (branchNames more) (branchStrings more) →
    R (n + 1) k Eq (branches more) (branches more)
  | [], _ => by
    rw [branches]
    exact hR.pure rfl
  | .mk condition body :: rest, h => by
    rw [branchNames, branchStrings] at h
    simp only [leaves_append] at h
    obtain ⟨hcondition, hbody, hrest⟩ := h
    rw [branches]
    refine hR.bind (related_text hR hcondition) fun _ _ htext =>
      hR.same (hR.write (.between _ htext _)) fun _ => ?_
    exact hR.same (hR.indented (related_block body hbody)) fun _ => related_branches rest hrest

theorem related_nativeMethods {n k : Nat} : ∀ body : List Stmt,
    Leaves known tokens (blockNames body) (blockStrings body) →
    R (n + 1) k Eq (nativeMethods body) (nativeMethods body)
  | [], _ => by
    rw [nativeMethods]
    exact hR.pure rfl
  | s :: rest, h => by
    rw [blockNames, blockStrings] at h
    obtain ⟨hfirst, hrest⟩ := leaves_append.mp h
    cases s with
    | function decorators d =>
      obtain ⟨pos, isAsync, namePos, name, parameters, body⟩ := d
      rw [Stmt.names, Stmt.strings] at hfirst
      obtain ⟨hparameters, hbody⟩ := leaves_append.mp hfirst
      rw [nativeMethods]
      refine hR.same (related_formOf hR decorators) fun form => ?_
      split_ifs
      · refine hR.bind (related_formals hR parameters hparameters) fun _ _ hformals => ?_
        exact hR.same
          (related_nativeMethod hR isAsync name hformals (related_block body hbody)) fun _ =>
          related_nativeMethods rest hrest
      · exact related_nativeMethods rest hrest
    | _ =>
      rw [nativeMethods]
      · exact related_nativeMethods rest hrest
      · simp

theorem related_members (className : String) {n k : Nat} : ∀ body : List Stmt,
    Leaves known tokens (blockNames body) (blockStrings body) →
    R (n + 1) k Eq (members className body) (members className body)
  | [], _ => by
    exact hR.pure rfl
  | s :: rest, h => by
    obtain ⟨hfirst, hrest⟩ := leaves_append.mp h
    cases s with
    | assign left right =>
      obtain ⟨-, hright⟩ := leaves_append.mp hfirst
      exact hR.same (related_classAttribute hR className hright) fun _ =>
        related_members className rest hrest
    | _ =>
      rw [members]
      · exact hR.same (related_statement _ hfirst) fun _ => related_members className rest hrest
      · simp

end

example : (LoweringState.start (.ofBinding none) 2).buffer.unit = "  " := by decide +kernel

/-! ## Programs -/

/-- The entry points other than the module need a function, with its parameters and its body. -/
theorem related_firstFunction {f : FunctionDef → Lowering Unit}
    (h : Leaves known tokens (blockNames statements) (blockStrings statements))
    (hf : ∀ d : FunctionDef, Leaves known tokens (defaultNames d.parameters)
    (parameterStrings d.parameters) →
      Leaves known tokens (blockNames d.body) (blockStrings d.body) → R n k Eq (f d) (f d)) :
    R n k Eq (firstFunction statements >>= f) (firstFunction statements >>= f) := by
  unfold firstFunction
  cases hfirst : firstFunction? statements with
  | none => exact hR.fail (Diagnostic.reports_of_kind_ne (by simp [Fault.report, Fault.kind]))
  | some d =>
    have hnames := names_firstFunction? hfirst
    obtain ⟨hparameters, hbody⟩ := leaves_append.mp
      ⟨fun id hid => h.names id (hnames hid), List.Subset.trans
      (strings_firstFunction? hfirst) h.strings⟩
    exact hf d hparameters hbody

/-- Every entry point lowers a program alike. -/
theorem related_program (entry : EntryPoint)
    (h : Leaves known tokens (blockNames statements) (blockStrings statements)) :
    R (n + 1) k Eq (program statements entry) (program statements entry) := by
  cases entry with
  | module => exact related_block hR statements h
  | body =>
    refine related_firstFunction hR h fun d hparameters hbody => ?_
    refine hR.bind (related_formals hR d.parameters hparameters) fun _ _ hformals => ?_
    exact hR.same (related_registerFormals hR (relaid_splitSelf hformals).2) fun _ =>
      related_block hR d.body hbody
  | callable name =>
    refine related_firstFunction hR h fun d hparameters hbody => ?_
    refine hR.bind (related_formals hR d.parameters hparameters) fun _ _ hformals => ?_
    exact related_namedFunction hR d.isAsync name hformals (related_block hR d.body hbody)

end Relation

end Lowering

end ScriptCompiler
