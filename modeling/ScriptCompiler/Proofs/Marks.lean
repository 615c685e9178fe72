import ScriptCompiler.Proofs.StatementDraft

/-!
# Marks of drafts

The marks of a draft are the places that have to do with names, without the text around them.
Putting spans together keeps their marks; the lemmas of this module say so for each way to do it, as
a property of all marks.
-/

namespace ScriptCompiler

/-- A place of a draft that has to do with names. -/
inductive Mark where
  | mention (m : Mention)
  | introduction (i : Introduction)

mutual

def Span.marks : Span → List Mark
  | .mention m => [.mention m]
  | .introduction i => [.introduction i]
  | .guarded inner | .function inner => allMarks inner
  | .text _ | .margin _ => []

/-- The marks of a draft in the order of its text. -/
def allMarks : List Span → List Mark
  | [] => []
  | s :: rest => s.marks ++ allMarks rest

end

theorem allMarks_append (xs ys : Spans) : allMarks (xs ++ ys) = allMarks xs ++ allMarks ys := by
  induction xs with
  | nil => simp [allMarks]
  | cons s rest ih => simp [allMarks, ih]

namespace Spans

variable {Q : Mark → Prop} {xs ys zs : Spans} {xss yss : List Spans}

def All (Q : Mark → Prop) (xs : Spans) : Prop := ∀ mark ∈ allMarks xs, Q mark

theorem mem_allMarks_of_all {mark : Mark} (h : ∀ Q, All Q xs → Q mark) : mark ∈ allMarks xs :=
  h (· ∈ allMarks xs) fun _ hmark => hmark

@[simp] theorem all_nil : All Q [] := by simp [All, allMarks]

@[simp] theorem all_append : All Q (xs ++ ys) ↔ All Q xs ∧ All Q ys := by
  simp only [All, allMarks_append, List.forall_mem_append]

@[simp] theorem all_text (t : String) : All Q (.text t :: xs) ↔ All Q xs := by
  simp [All, allMarks, Span.marks]

@[simp] theorem all_margin (depth : Nat) : All Q (.margin depth :: xs) ↔ All Q xs := by
  simp [All, allMarks, Span.marks]

@[simp] theorem all_mention (m : Mention) :
    All Q (.mention m :: xs) ↔ Q (.mention m) ∧ All Q xs := by
  simp [All, allMarks, Span.marks]

@[simp] theorem all_introduction (i : Introduction) :
    All Q (.introduction i :: xs) ↔ Q (.introduction i) ∧ All Q xs := by
  simp [All, allMarks, Span.marks]

@[simp] theorem all_guarded (inner : Spans) :
    All Q (.guarded inner :: xs) ↔ All Q inner ∧ All Q xs := by
  simp only [All, allMarks, Span.marks, List.forall_mem_append]

@[simp] theorem all_function (inner : Spans) :
    All Q (.function inner :: xs) ↔ All Q inner ∧ All Q xs := by
  simp only [All, allMarks, Span.marks, List.forall_mem_append]

@[simp] theorem all_literal (text : Except Fault (List Char)) :
    All Q (.literal text :: xs) ↔ All Q xs := all_text _

theorem all_flatten : All Q xss.flatten ↔ ∀ ys ∈ xss, All Q ys := by
  induction xss with
  | nil => simp
  | cons first rest ih => simp [ih]

theorem all_intercalate (hxs : ∀ R, All R xs) :
    All Q (xs.intercalate xss) ↔ ∀ ys ∈ xss, All Q ys := by
  induction xss with
  | nil => simp
  | cons first rest ih =>
    cases rest with
    | nil => simp
    | cons second rest =>
      rw [List.intercalate_cons_cons, all_append, ih]
      simp [hxs]

@[simp] theorem all_commas : All Q (commas xss) ↔ ∀ ys ∈ xss, All Q ys := all_intercalate (by simp)

@[simp] theorem all_parens : All Q (parens xs) ↔ All Q xs := by simp [parens]

@[simp] theorem all_braces : All Q (braces xs) ↔ All Q xs := by simp [braces]

@[simp] theorem all_brackets : All Q (brackets xs) ↔ All Q xs := by simp [brackets]

@[simp] theorem all_grouped (kind : NodeKind) : All Q (grouped kind xs) ↔ All Q xs := by
  unfold grouped
  split_ifs <;> simp

@[simp] theorem all_receiver (kind : NodeKind) :
    All Q (receiver kind xs) ↔ All Q xs := by simp [receiver]

@[simp] theorem all_line (depth : Nat) : All Q (line depth xs) ↔ All Q xs := by simp [line]

@[simp] theorem all_textLine (depth : Nat) (text : String) :
    All Q (textLine depth text) := by simp [textLine]

@[simp] theorem all_template : All Q (template xs) ↔ All Q xs := by simp [template]

@[simp] theorem all_propertyKey (isLiteral : Bool) :
    All Q (propertyKey isLiteral xs) ↔ All Q xs := by
  unfold propertyKey
  split_ifs <;> simp

@[simp] theorem all_collected (form : ComprehensionForm) :
    All Q (collected form xs) ↔ All Q xs := by
  cases form <;> simp [collected]

@[simp] theorem all_collection (form : SequenceForm) :
    All Q (collection form xss) ↔ ∀ ys ∈ xss, All Q ys := by
  cases form <;> simp [collection]

@[simp] theorem all_slice {lower upper step : Option Spans} :
    All Q (slice xs (sliceArguments lower upper step)) ↔ All Q xs ∧
    (∀ ys, lower = some ys → All Q ys) ∧
      (∀ ys, upper = some ys → All Q ys) ∧ ∀ ys, step = some ys → All Q ys := by
  cases lower <;> cases upper <;> cases step <;> simp [slice, sliceArguments]

@[simp] theorem all_call :
    All Q (call xs xss yss) ↔ All Q xs ∧ (∀ ys ∈ xss, All Q ys) ∧ ∀ ys ∈ yss, All Q ys := by
  unfold call
  split_ifs with hempty
  · obtain rfl : yss = [] := by simpa using hempty
    simp
  · simp

@[simp] theorem all_format (kind : NodeKind) :
    All Q (format kind xs ys) ↔ All Q xs ∧ All Q ys := by simp [format]

@[simp] theorem all_binary (op : BinaryOp) (leftKind rightKind : NodeKind) :
    All Q (binary op leftKind xs rightKind ys) ↔ All Q xs ∧ All Q ys := by
  unfold binary
  split
  · simp
  · split <;> simp

@[simp] theorem all_comparison (op : CompareOp) (rightKind : NodeKind) :
    All Q (comparison op xs rightKind ys) ↔ All Q xs ∧ All Q ys := by
  unfold comparison
  split
  · simp
  · split_ifs <;> simp [and_comm]

@[simp] theorem all_generator : All Q (generator xss xs) ↔ (∀ ys ∈ xss, All Q ys) ∧ All Q xs := by
  simp [generator, all_flatten]

@[simp] theorem all_tall (depth : Nat) : All Q (tall depth xss) ↔ ∀ ys ∈ xss, All Q ys := by
  have hentries : All Q ([Span.text ",\n", .margin (depth + 1)].intercalate xss) ↔
      ∀ ys ∈ xss, All Q ys :=
    all_intercalate (by simp)
  simp [tall, hentries]

/-! ## Special calls -/

variable {function : String} {p : Formal} {depth : Nat} {receiver : Lowering.Receiver}

theorem all_specialArguments {firstKind : Option NodeKind} :
    (∀ ys ∈ specialArguments function firstKind xss, All Q ys) ↔ ∀ ys ∈ xss, All Q ys := by
  unfold specialArguments
  split <;> simp

/-- A special call may have a counter of its own, besides the names of its arguments. -/
theorem all_specialCall? (hcounter : ∀ id, Q (.introduction ⟨.synthesized, id⟩))
    (hcall : specialCall? function xss = some xs) : All Q xs ↔ ∀ ys ∈ xss, All Q ys := by
  unfold specialCall? at hcall
  split at hcall <;> cases hcall <;> simp [counting, hcounter] <;> tauto

theorem all_of_all_specialCall? (hcall : specialCall? function xss = some xs) (h : All Q xs) :
    ∀ ys ∈ xss, All Q ys := by
  unfold specialCall? at hcall
  split at hcall <;> cases hcall <;> simp_all [counting]

variable {function : String} {firstKind : Option NodeKind} {arguments : Arguments}

theorem all_specialCall (hcounter : ∀ id, Q (.introduction ⟨.synthesized, id⟩)) (h : All Q xs)
    (hpositional : ∀ ys ∈ arguments.positional, All Q ys)
    (hkeywords : ∀ ys ∈ arguments.keywords, All Q ys) :
    All Q (specialCall xs function firstKind arguments) := by
  have hspecial : ∀ ys ∈ specialArguments function firstKind arguments.positional, All Q ys :=
    all_specialArguments.mpr hpositional
  unfold specialCall
  split_ifs
  · dsimp only
    cases hcall :
      specialCall? function (specialArguments function firstKind arguments.positional) with
    | none => exact all_call.mpr ⟨h, hspecial, fun ys hys => by cases hys⟩
    | some ys => exact (all_specialCall? hcounter hcall).mpr hspecial
  · exact all_call.mpr ⟨h, hpositional, hkeywords⟩

/-- No argument of a special call is left out. -/
theorem all_of_all_specialCall (h : All Q (specialCall xs function firstKind arguments)) :
    (∀ ys ∈ arguments.positional, All Q ys) ∧ ∀ ys ∈ arguments.keywords, All Q ys := by
  unfold specialCall at h
  split_ifs at h with hempty
  · have hkeywords : arguments.keywords = [] := by simpa using hempty
    have hspecial : ∀ ys ∈ specialArguments function firstKind arguments.positional, All Q ys := by
      dsimp only at h
      cases hcall :
        specialCall? function (specialArguments function firstKind arguments.positional) with
      | none =>
        rw [hcall] at h
        exact (all_call.mp h).2.1
      | some ys =>
        rw [hcall] at h
        exact all_of_all_specialCall? hcall h
    rw [hkeywords]
    exact ⟨all_specialArguments.mp hspecial, fun ys hys => by cases hys⟩
  · exact ⟨(all_call.mp h).2.1, (all_call.mp h).2.2⟩

/-! ## Functions -/

def Formal.All (Q : Mark → Prop) (p : Formal) : Prop :=
  Q (.introduction ⟨.parameter, p.name⟩) ∧ ∀ ys, p.default = some ys → Spans.All Q ys

variable {formals : List Formal}

@[simp] theorem all_parameter (name : String) :
    All Q (parameter name :: xs) ↔ Q (.introduction ⟨.parameter, name⟩) ∧ All Q xs :=
    all_introduction _

theorem all_arrow (depth : Nat) :
    All Q (arrow depth formals xs) ↔ (∀ p ∈ formals, p.All Q) ∧ All Q xs := by
  have hsignature : All Q (arrowSignature formals) ↔ ∀ p ∈ formals, p.All Q := by
    unfold arrowSignature
    rw [all_commas, List.forall_mem_map]
    refine forall₂_congr fun p _ => ?_
    obtain ⟨name, default⟩ := p
    cases default <;> simp [Formal.All]
  simp [arrow, hsignature]

theorem all_defaultLine (depth : Nat) (h : p.All Q) : All Q (defaultLine depth p) := by
  obtain ⟨name, default⟩ := p
  cases default with
  | none => simp [defaultLine]
  | some default => simp [defaultLine, h.1, h.2 default rfl]

theorem all_of_all_defaultLine (h : All Q (defaultLine depth p)) :
    ∀ ys, p.default = some ys → All Q ys := by
  rintro ys hdefault
  simp_all [defaultLine]

theorem all_signature :
    All Q (signature formals) ↔ ∀ p ∈ formals, Q (.introduction ⟨.parameter, p.name⟩) := by
  simp [signature]

theorem all_receiverLine (depth : Nat) :
    All Q (receiverLine depth receiver) ↔
      ∀ name, receiver = .bound name → name ≠ Lowering.selfName →
      Q (.introduction ⟨.receiver, name⟩) := by
  cases receiver with
  | bound name =>
    simp only [receiverLine]
    by_cases hself : name = Lowering.selfName
    · simp [hself]
    · simp [hself]
  | absent | unbound => simp [receiverLine]

/-- The marks of a function are those of its head, its parameters, its receiver and its body. -/
theorem all_functionSpans {head : Spans} {closer : String} :
    All Q (Spans.function depth head formals receiver closer xs) ↔ All Q head ∧
    (∀ p ∈ formals, p.All Q) ∧
      (∀ name, receiver = .bound name → name ≠ Lowering.selfName →
      Q (.introduction ⟨.receiver, name⟩)) ∧ All Q xs := by
  simp only [Spans.function, List.cons_append, all_margin, all_append, all_function, all_text,
    all_nil, and_true,
    all_signature, all_receiverLine]
  constructor
  · rintro ⟨hhead, ⟨⟨hnames, hdefaults⟩, hreceiver⟩, hbody⟩
    refine ⟨hhead, fun p hp => ⟨hnames p hp, ?_⟩, hreceiver, hbody⟩
    exact all_of_all_defaultLine (all_flatten.mp hdefaults _ (List.mem_map_of_mem hp))
  · rintro ⟨hhead, hformals, hreceiver, hbody⟩
    refine ⟨hhead, ⟨⟨fun p hp => (hformals p hp).1, all_flatten.mpr fun ys hys => ?_⟩, hreceiver⟩,
      hbody⟩
    obtain ⟨p, hp, rfl⟩ := List.mem_map.mp hys
    exact all_defaultLine _ (hformals p hp)

theorem all_constructor (depth : Nat) (hasBase : Bool) :
    All Q (Spans.constructor depth hasBase) := by
  unfold Spans.constructor
  split_ifs <;> simp

end Spans

namespace Draft

variable {Q : Mark → Prop}

@[simp] theorem spans_plain (xs : Spans) : (Draft.plain xs).spans = xs := rfl

theorem all_chain {op : BoolOp} {operands : List Spans} :
    (Draft.chain op operands).spans.All Q ↔ ∀ xs ∈ operands, xs.All Q := by
  have hoperator : ∀ R, Spans.All R [.text (" " ++ op.symbol ++ " ")] := by simp
  exact Spans.all_parens.trans (Spans.all_intercalate hoperator)

theorem all_operands (op : BoolOp) (d : Draft) :
    (∀ xs ∈ d.operands op, xs.All Q) ↔ d.spans.All Q := by
  cases d with
  | plain xs => simp [operands]
  | chain op' xss =>
    simp only [operands]
    split_ifs
    · exact all_chain.symm
    · simp

end Draft

end ScriptCompiler
