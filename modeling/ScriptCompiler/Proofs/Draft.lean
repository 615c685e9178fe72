import ScriptCompiler.Proofs.Reference
import Mathlib.Data.List.Forall2
import Mathlib.Tactic.SplitIfs

/-!
# Drafts

The text of a script as a list of spans: fixed pieces of text, margins, places where the program
mentions a name, and places where it introduces one. A draft does not depend on the names that a
session generates nor on the width of the indentation; an edition settles both. `printAll?` is the
text of a draft in an edition. It is missing only if a callable that is mentioned has no name.
-/

namespace ScriptCompiler

/-- Where something is lowered, as far as its text depends on it. -/
structure Place where
  binding : Option Binding
  scopes : Scopes
  depth : Nat
  /-- The number of dictionaries on several lines around. -/
  nesting : Nat
  className : Option String
  /-- The number of names synthesized before. -/
  temporaries : Nat

namespace Place

def start (binding : Option Binding) : Place := ⟨binding, .empty, 0, 0, none, 0⟩

def register (p : Place) (name : String) : Place := { p with scopes := p.scopes.register name }

def registerAll (p : Place) (names : List String) :
    Place := { p with scopes := p.scopes.registerAll names }

/-- In a frame of its own, with variables. -/
def inFrame (p : Place) (names : List String) :
    Place := { p with scopes := p.scopes.push.registerAll names }

def deeper (p : Place) : Place := { p with depth := p.depth + 1 }

/-- In a function, which is no part of the class around it. -/
def inFunction (p : Place) (names : List String) :
    Place := { (p.inFrame names).deeper with className := none }

end Place

/-! ## Mentions and introductions -/

/-- What a name, or a chain of attributes, stands for. -/
inductive Meaning where
  /-- A variable of a frame around. -/
  | variable (id : String)
  /-- The function made from a callable of the context. -/
  | callable (reference : Reference)
  /-- Plain data of the context. -/
  | literal (text : String)
  /-- A name that neither a frame nor the context gives a meaning. -/
  | free (id : String)

/-- The text of a meaning; a callable has the name that the table gives it. -/
def Meaning.text? (names : List (Nat × String)) : Meaning → Option String
  | .variable id => some (Names.variableName id)
  | .callable reference => names.lookup reference.identity
  | .literal text => some text
  | .free id => some (Names.spell id)

/-- What a value of the context stands for, if it has a text of its own. -/
def ContextHit.meaning? (hit : ContextHit) : Option Meaning :=
  match hit.value with
  | .callable identity callable => some (.callable ⟨identity, callable, hit.access, hit.owner⟩)
  | value => value.literal?.map .literal

namespace Expr

/-- What the context makes of an expression. -/
def contextMeaning? (binding : Option Binding) (scopes : Scopes) (e : Expr) : Option Meaning :=
  match e.contextHit? scopes (.ofBinding binding) with
  | .ok (some hit) => hit.meaning?
  | _ => none

/-- What a name or a chain of attributes stands for. Frames come first, then the context; a chain
that is not in the context stands for nothing as a whole. -/
def meaning? (binding : Option Binding) (scopes : Scopes) : Expr → Option Meaning
  | .name pos id =>
    some (if scopes.isBound id then .variable id else
      ((Expr.name pos id).contextMeaning? binding scopes).getD (.free id))
  | e => e.contextMeaning? binding scopes

end Expr

/-- A place where the text refers to something by a name. -/
inductive Mention where
  /-- A name or a chain of attributes, with the frames that are open there. -/
  | value (binding : Option Binding) (scopes : Scopes) (e : Expr)
  /-- The base of a class. -/
  | base (id : String)
  /-- The class of a new object. -/
  | constructed (key : String)

def Mention.text? (names : List (Nat × String)) : Mention → Option String
  | .value binding scopes e => (e.meaning? binding scopes).bind (·.text? names)
  | .base id => some id
  | .constructed key => some key

/-- The ways to introduce a name. -/
inductive BindingForm where
  | parameter
  /-- The variable for the object that a method is called on. -/
  | receiver
  | function
  | className
  /-- A variable of an assignment or a loop, where it is declared. -/
  | declared
  /-- A variable that is assigned to after it was declared, or without being declared. -/
  | reassigned
  /-- A variable of a comprehension. -/
  | comprehended
  /-- A variable that the program does not have. -/
  | synthesized
deriving DecidableEq, Repr

/-- Whether a reserved identifier is respelled where it is introduced. -/
def BindingForm.respells : BindingForm → Bool
  | .declared | .reassigned | .comprehended => true
  | .parameter | .receiver | .function | .className | .synthesized => false

structure Introduction where
  form : BindingForm
  id : String
deriving DecidableEq, Repr

def Introduction.text (i : Introduction) :
    String := if i.form.respells then Names.variableName i.id else i.id

/-! ## Spans -/

inductive Span where
  | text (text : String)
  /-- The indentation of a line. -/
  | margin (depth : Nat)
  | mention (m : Mention)
  | introduction (i : Introduction)
  /-- The object of a member access, enclosed if it is a number. -/
  | guarded (inner : List Span)
  /-- A function, which has names of its own. -/
  | function (inner : List Span)

abbrev Spans := List Span

/-- What a draft is printed with. -/
structure Edition where
  width : Nat
  names : List (Nat × String)

/-- The text of the object of a member access. -/
def Script.guarded (text : String) : String := if isNumeral text then parens text else text

mutual

def Span.print? (ed : Edition) : Span → Option String
  | .text text => some text
  | .margin depth => some (Buffer.spaces (depth * ed.width))
  | .mention m => m.text? ed.names
  | .introduction i => some i.text
  | .guarded inner => (printAll? ed inner).map Script.guarded
  | .function inner => printAll? ed inner

/-- The text of spans one after the other. -/
def printAll? (ed : Edition) : List Span → Option String
  | [] => some ""
  | s :: rest => (s.print? ed).bind fun text => (printAll? ed rest).map (text ++ ·)

end

abbrev Spans.Prints (ed : Edition) (spans : Spans) (text : String) :
    Prop := printAll? ed spans = some text

variable (ed : Edition) (depth : Nat) (kind : NodeKind)
  (function : String) {texts : List Script.Formal}

@[simp] theorem printAll?_nil : printAll? ed [] = some "" := by
  rw [printAll?]

@[simp] theorem printAll?_cons (s : Span) (rest : Spans) :
    printAll? ed (s :: rest) = (s.print? ed).bind fun text =>
    (printAll? ed rest).map (text ++ ·) := by
  rw [printAll?]

@[simp] theorem printAll?_append (xs ys : Spans) :
    printAll? ed (xs ++ ys) = (printAll? ed xs).bind fun text =>
    (printAll? ed ys).map (text ++ ·) := by
  induction xs with
  | nil => cases hys : printAll? ed ys <;> simp [hys]
  | cons s rest ih =>
    rw [List.cons_append, printAll?_cons, printAll?_cons, ih]
    cases s.print? ed <;> cases printAll? ed rest <;> cases printAll? ed ys <;>
      simp [String.append_assoc]

@[simp] theorem Span.print?_text (t : String) : (Span.text t).print? ed = some t := by
  rw [Span.print?]

@[simp] theorem Span.print?_margin (depth : Nat) :
    (Span.margin depth).print? ed = some (Buffer.spaces (depth * ed.width)) := by
  rw [Span.print?]

@[simp] theorem Span.print?_introduction (i : Introduction) :
    (Span.introduction i).print? ed = some i.text := by
  rw [Span.print?]

@[simp] theorem Span.print?_mention (m : Mention) :
    (Span.mention m).print? ed = m.text? ed.names := by
  rw [Span.print?]

@[simp] theorem Span.print?_guarded (inner : Spans) :
    (Span.guarded inner).print? ed = (printAll? ed inner).map Script.guarded := by
  rw [Span.print?]

@[simp] theorem Span.print?_function (inner : Spans) :
    (Span.function inner).print? ed = printAll? ed inner := by
  rw [Span.print?]

/-! ## Putting spans together -/

namespace Spans

def parens (inner : Spans) : Spans := .text "(" :: inner ++ [.text ")"]

def braces (inner : Spans) : Spans := .text "\x7b" :: inner ++ [.text "\x7d"]

def brackets (inner : Spans) : Spans := .text "[" :: inner ++ [.text "]"]

def commas (parts : List Spans) : Spans := [Span.text ", "].intercalate parts

def grouped (kind : NodeKind) (inner : Spans) :
    Spans := if Script.isOpen kind then parens inner else inner

/-- The object of a member access. -/
def receiver (kind : NodeKind) (inner : Spans) : Spans := [.guarded (grouped kind inner)]

def sliceArguments : Option Spans → Option Spans → Option Spans → Spans
  | none, none, none => [.text "null"]
  | some lower, none, none => lower ++ [.text ", null"]
  | none, some upper, none => upper
  | some lower, some upper, none => lower ++ .text ", " :: upper
  | lower, upper, some step =>
    lower.getD [.text "null"] ++ .text ", " :: upper.getD [.text "null"] ++ .text ", " :: step

def slice (base arguments : Spans) : Spans :=
  base ++ .text (".__getitem__(" ++ Names.helper ++ ".slice(") :: arguments ++ [.text "))"]

/-- A counter in an arrow function with two parameters. -/
def counting (start tail : Spans) : Span :=
  .function ([.text "(", .introduction ⟨.synthesized, "_"⟩, .text ", ",
    .introduction ⟨.synthesized, "i"⟩,
    .text ") => "] ++ start ++ tail)

def specialCall? (function : String) (arguments : List Spans) : Option Spans :=
  match function, arguments with
  | "len", [value] => some (value ++ [.text ".length"])
  | "range", [stop] => some (.text "[...Array(" :: stop ++ [.text ").keys()]"])
  | "range", [start, stop] =>
    some (.text "Array.from(\x7blength: Math.max(0, " :: stop ++ .text " - " :: start ++
      [.text ")\x7d, ", counting start [.text " + i"], .text ")"])
  | "range", [start, stop, step] =>
    some (.text "Array.from(\x7blength: Math.max(0, Math.ceil((" :: stop ++ .text " - " :: start ++
      .text ") / " :: step ++
      [.text "))\x7d, ", counting start (.text " + i * " :: step), .text ")"])
  | _, _ => none

def call (function : Spans) (positional keywords : List Spans) : Spans :=
  if keywords.isEmpty then function ++ parens (commas positional)
  else function ++ .text ".args(" :: brackets (commas positional) ++ .text ", " ::
    braces (commas keywords) ++ [.text ")"]

/-- The drafts of the arguments of a call. -/
structure Arguments where
  positional : List Spans
  keywords : List Spans

def specialArguments (function : String) (firstKind : Option NodeKind) (positional : List Spans) :
    List Spans :=
  match function, firstKind, positional with
  | "len", some kind, first :: rest => receiver kind first :: rest
  | _, _, positional => positional

/-- A call of a function that has special calls. Where a call of it is not special, it is mentioned
as any other. -/
def specialCall (mention : Spans) (function : String) (firstKind : Option NodeKind)
    (arguments : Arguments) : Spans :=
  if arguments.keywords.isEmpty then
    let positional := specialArguments function firstKind arguments.positional
    (specialCall? function positional).getD (call mention positional [])
  else call mention arguments.positional arguments.keywords

def format (argumentKind : NodeKind) (template argument : Spans) : Spans :=
  let function := match argumentKind with
    | .tuple | .list => "vsprintf"
    | _ => "sprintf"
  .text function :: parens (template ++ .text ", " :: argument)

def binary (op : BinaryOp) (leftKind : NodeKind) (left : Spans) (rightKind : NodeKind)
    (right : Spans) : Spans :=
  match op.symbol? with
  | some symbol => parens (left ++ .text (" " ++ symbol ++ " ") :: right)
  | none =>
    match op with
    | .power => .text "Math.pow" :: parens (left ++ .text ", " :: right)
    | _ => .text "Math.floor" ::
        parens (grouped leftKind left ++ .text " / " :: grouped rightKind right)

def comparison (op : CompareOp) (left : Spans) (rightKind : NodeKind) (right : Spans) : Spans :=
  match op.symbol? with
  | some symbol => left ++ .text (" " ++ symbol ++ " ") :: right
  | none =>
    let test := receiver rightKind right ++ .text ".includes" :: parens left
    if op = .isIn then test else .text "!" :: parens test

/-- A parameter with the draft of its default. -/
structure Formal where
  name : String
  default : Option Spans

def parameter (name : String) : Span := .introduction ⟨.parameter, name⟩

def arrowSignature (formals : List Formal) : Spans :=
  commas (formals.map fun p => match p.default with
    | some default => parameter p.name :: .text " = " :: default
    | none => [parameter p.name])

/-- An arrow function, on a line of its own. -/
def arrow (depth : Nat) (formals : List Formal) (body : Spans) : Spans :=
  [.text "\n", .margin (depth + 1),
    .function (parens (arrowSignature formals) ++ .text " => " :: braces (.text "return " :: body)),
    .text "\n", .margin depth]

def generator (openings : List Spans) (value : Spans) : Spans :=
  [.text "(", .function (.text "function* () \x7b " :: openings.flatten ++
    .text "yield " :: value ++
    [.text (" " ++ String.join (openings.map fun _ => "\x7d ") ++ "\x7d")]), .text ").call(this)"]

def collected : ComprehensionForm → Spans → Spans
  | .list, generator | .generator, generator => brackets (.text "..." :: generator)
  | .set, generator => .text "new Set([..." :: generator ++ [.text "])"]

def collection : SequenceForm → List Spans → Spans
  | .set, items => .text "new Set([" :: commas items ++ [.text "])"]
  | _, items => brackets (commas items)

def propertyKey (isLiteral : Bool) (key : Spans) : Spans := if isLiteral then key else brackets key

def template (body : Spans) : Spans := .text "\x60" :: body ++ [.text "\x60"]

/-- A dictionary with one entry a line. -/
def tall (depth : Nat) (entries : List Spans) : Spans :=
  [.text "\x7b\n", .margin (depth + 1)] ++ [Span.text ",\n",
    .margin (depth + 1)].intercalate entries ++
    [.text "\n", .margin depth, .text "\x7d"]

/-- A line of its own. -/
def line (depth : Nat) (spans : Spans) : Spans := .margin depth :: spans ++ [.text "\n"]

def textLine (depth : Nat) (text : String) : Spans := line depth [.text text]

/-! ## Their texts -/

section Texts

variable {ed : Edition} {xs ys zs : Spans} {x y z : String} {xss yss : List Spans}
  {ts us : List String}

theorem Prints.text (t : String) (h : Prints ed xs x) : Prints ed (.text t :: xs) (t ++ x) := by
  simp [Prints, h]

theorem Prints.append (hx : Prints ed xs x) (hy : Prints ed ys y) :
    Prints ed (xs ++ ys) (x ++ y) := by
  simp [Prints, hx, hy]

theorem prints_parens (h : Prints ed xs x) : Prints ed (parens xs) (Script.parens x) := by
  simp [Prints, parens, Script.parens, h, String.append_assoc]

theorem prints_line (h : Prints ed xs x) :
    Prints ed (line depth xs) (Buffer.spaces (depth * ed.width) ++ x ++ "\n") := by
  simp [Prints, line, h, String.append_assoc]

theorem prints_braces (h : Prints ed xs x) : Prints ed (braces xs) (Script.braces x) := by
  simp [Prints, braces, Script.braces, h, String.append_assoc]

theorem prints_brackets (h : Prints ed xs x) : Prints ed (brackets xs) (Script.brackets x) := by
  simp [Prints, brackets, Script.brackets, h, String.append_assoc]

theorem prints_intercalate (hx : Prints ed xs x) (h : List.Forall₂ (Prints ed) xss ts) :
    Prints ed (xs.intercalate xss) (x.intercalate ts) := by
  induction h with
  | nil => simp [Prints]
  | @cons first t rest ts hfirst hrest ih =>
    cases hrest with
    | nil => simpa using hfirst
    | @cons second u more us hsecond hmore =>
      simp [Prints, hfirst, hx, ih, String.append_assoc]

theorem prints_commas (h : List.Forall₂ (Prints ed) xss ts) :
    Prints ed (commas xss) (Script.commas ts) :=
  prints_intercalate (by simp [Prints]) h

theorem prints_grouped (h : Prints ed xs x) :
    Prints ed (grouped kind xs) (Script.grouped kind x) := by
  unfold grouped Script.grouped
  split_ifs
  · exact prints_parens h
  · exact h

theorem prints_receiver (h : Prints ed xs x) :
    Prints ed (receiver kind xs) (Script.receiver kind x) := by
  have hgrouped : printAll? ed (grouped kind xs) = some (Script.grouped kind x) :=
    prints_grouped kind h
  simp [Prints, receiver, Script.receiver, Script.guarded, hgrouped]

theorem prints_sliceArguments {lower upper step : Option Spans}
    {lower' upper' step' : Option String}
    (hlower : Option.Rel (Prints ed) lower lower') (hupper : Option.Rel (Prints ed) upper upper')
    (hstep : Option.Rel (Prints ed) step step') :
    Prints ed (sliceArguments lower upper step) (Script.sliceArguments lower' upper' step') := by
  cases hlower <;> cases hupper <;> cases hstep <;>
    simp_all [-String.reduceAppend, Prints, sliceArguments, Script.sliceArguments,
    String.append_assoc]

theorem prints_slice (hx : Prints ed xs x) (hy : Prints ed ys y) :
    Prints ed (slice xs ys) (Script.slice x y) := by
  simp [Prints, slice, Script.slice, hx, hy, String.append_assoc]

theorem prints_call (h : Prints ed xs x) (hpositional : List.Forall₂ (Prints ed) xss ts)
    (hkeywords : List.Forall₂ (Prints ed) yss us) :
    Prints ed (call xs xss yss) (Script.call x ts us) := by
  have hlist := prints_brackets (prints_commas hpositional)
  have hrecord := prints_braces (prints_commas hkeywords)
  have htuple := prints_parens (prints_commas hpositional)
  unfold call Script.call
  cases hkeywords with
  | nil => simp [Prints, h, htuple]
  | cons hfirst hrest => simp [Prints, h, hlist, hrecord, String.append_assoc]

theorem prints_counting (hx : Prints ed xs x) (hy : Prints ed ys y) :
    (counting xs ys).print? ed = some ("(_, i) => " ++ x ++ y) := by
  have hunderscore : Introduction.text ⟨.synthesized, "_"⟩ = "_" := rfl
  have hindex : Introduction.text ⟨.synthesized, "i"⟩ = "i" := rfl
  simp [counting, hx, hy, hunderscore, hindex, String.append_assoc]
  rfl

theorem prints_specialArguments (firstKind : Option NodeKind)
    (h : List.Forall₂ (Prints ed) xss ts) :
    List.Forall₂ (Prints ed) (specialArguments function firstKind xss)
      (Lowering.specialArguments function firstKind ts) := by
  unfold specialArguments Lowering.specialArguments
  cases h with
  | nil => split <;> split <;> simp_all
  | cons hfirst hrest =>
    split
    · rename_i kind first rest heq
      cases heq
      exact .cons (prints_receiver kind hfirst) hrest
    · split
      · simp_all
      · exact .cons hfirst hrest

/-- A call is special in the draft if it is in the text. -/
theorem prints_specialCall? (h : List.Forall₂ (Prints ed) xss ts) :
    Option.Rel (Prints ed) (specialCall? function xss) (Script.specialCall? function ts) := by
  by_cases hlen : function = "len"
  · subst hlen
    cases h with
    | nil => exact .none
    | cons hfirst hrest =>
      cases hrest with
      | nil => exact .some (by simp [Prints, hfirst])
      | cons => exact .none
  by_cases hrange : function = "range"
  · subst hrange
    cases h with
    | nil => exact .none
    | cons hfirst hrest =>
      cases hrest with
      | nil => exact .some (by simp [Prints, hfirst, String.append_assoc])
      | cons hsecond hrest =>
        cases hrest with
        | nil =>
          have htail : Prints ed [.text " + i"] " + i" := by simp [Prints]
          have hcounting := prints_counting hfirst htail
          refine .some ?_
          simp only [Prints, printAll?_append, printAll?_cons, printAll?_nil, Span.print?_text,
            hfirst, hsecond,
            hcounting, Option.bind_some, Option.map_some, Option.some.injEq]
          exact String.toList_injective (by simp)
        | cons hthird hrest =>
          cases hrest with
          | nil =>
            have hcounting := prints_counting hfirst (hthird.text " + i * ")
            refine .some ?_
            simp only [Prints, printAll?_append, printAll?_cons, printAll?_nil,
              Span.print?_text, hfirst,
              hsecond, hthird, hcounting, Option.bind_some, Option.map_some, Option.some.injEq]
            exact String.toList_injective (by simp)
          | cons => exact .none
  · have hspans : specialCall? function xss = none := by
      unfold specialCall?
      split <;> simp_all
    have htexts : Script.specialCall? function ts = none := by
      unfold Script.specialCall?
      split <;> simp_all
    rw [hspans, htexts]
    exact .none

theorem prints_specialCall {function : String} (firstKind : Option NodeKind) {arguments : Arguments}
    {texts : Lowering.ArgumentTexts} (hmention : Prints ed xs (Names.spell function))
    (hpositional : List.Forall₂ (Prints ed) arguments.positional texts.positional)
    (hkeywords : List.Forall₂ (Prints ed) arguments.keywords texts.keywords) :
    Prints ed (specialCall xs function firstKind arguments)
    (Lowering.specialCall function firstKind texts) := by
  have hempty : arguments.keywords.isEmpty = texts.keywords.isEmpty := by
    rw [Bool.eq_iff_iff, List.isEmpty_iff_length_eq_zero, List.isEmpty_iff_length_eq_zero,
      hkeywords.length_eq]
  unfold specialCall Lowering.specialCall
  rw [hempty]
  split_ifs
  · have hspecial := prints_specialArguments function firstKind hpositional
    have hcall := prints_specialCall? function hspecial
    dsimp only
    generalize specialCall? function (specialArguments function firstKind arguments.positional) =
      d at hcall ⊢
    generalize Script.specialCall? function
      (Lowering.specialArguments function firstKind texts.positional) = t
      at hcall ⊢
    cases hcall with
    | some h => exact h
    | none => exact prints_call hmention hspecial .nil
  · exact prints_call hmention hpositional hkeywords

theorem prints_pair (hx : Prints ed xs x) (hy : Prints ed ys y) :
    Prints ed (xs ++ .text ", " :: ys) (x ++ ", " ++ y) := by
  simp [Prints, hx, hy, String.append_assoc]

theorem prints_format (hx : Prints ed xs x) (hy : Prints ed ys y) :
    Prints ed (format kind xs ys) (Script.format kind x y) := by
  exact (prints_parens (prints_pair hx hy)).text _

theorem prints_binary (op : BinaryOp) (leftKind rightKind : NodeKind) (hx : Prints ed xs x)
    (hy : Prints ed ys y) :
    Prints ed (binary op leftKind xs rightKind ys) (Script.binary op leftKind x rightKind y) := by
  unfold binary Script.binary
  cases op.symbol? with
  | some symbol =>
    refine prints_parens ?_
    simp [Prints, hx, hy, String.append_assoc]
  | none =>
    have hfloor : Prints ed (grouped leftKind xs ++ .text " / " :: grouped rightKind ys)
        (Script.grouped leftKind x ++ " / " ++ Script.grouped rightKind y) := by
      simp [Prints, prints_grouped leftKind hx, prints_grouped rightKind hy, String.append_assoc]
    by_cases hpower : op = .power
    · subst hpower
      exact (prints_parens (prints_pair hx hy)).text _
    · cases op <;> first | exact absurd rfl hpower | exact (prints_parens hfloor).text _

theorem prints_comparison (op : CompareOp) (rightKind : NodeKind) (hx : Prints ed xs x)
    (hy : Prints ed ys y) :
    Prints ed (comparison op xs rightKind ys) (Script.comparison op x rightKind y) := by
  unfold comparison Script.comparison
  cases op.symbol? with
  | some symbol => simp [Prints, hx, hy, String.append_assoc]
  | none =>
    have htest : Prints ed (receiver rightKind ys ++ .text ".includes" :: parens xs)
        (Script.receiver rightKind y ++ ".includes" ++ Script.parens x) := by
      simp [Prints, prints_receiver rightKind hy, prints_parens hx, String.append_assoc]
    split_ifs
    · exact htest
    · exact (prints_parens htest).text _

theorem prints_collected (form : ComprehensionForm) (h : Prints ed xs x) :
    Prints ed (collected form xs) (Script.collected form x) := by
  cases form with
  | list | generator => exact prints_brackets (h.text "...")
  | set => simp [Prints, collected, Script.collected, h, String.append_assoc]

theorem prints_collection (form : SequenceForm) (h : List.Forall₂ (Prints ed) xss ts) :
    Prints ed (collection form xss) (Script.collection form ts) := by
  have hcommas := prints_commas h
  cases form with
  | set => simp [Prints, collection, Script.collection, hcommas, String.append_assoc]
  | list | tuple | bare => exact prints_brackets hcommas

theorem prints_propertyKey (isLiteral : Bool) (h : Prints ed xs x) :
    Prints ed (propertyKey isLiteral xs) (Script.propertyKey isLiteral x) := by
  unfold propertyKey Script.propertyKey
  split_ifs
  · exact h
  · exact prints_brackets h

theorem prints_template (h : Prints ed xs x) : Prints ed (template xs) (Script.template x) := by
  simp [Prints, template, Script.template, h, String.append_assoc]

theorem prints_flatten (h : List.Forall₂ (Prints ed) xss ts) :
    Prints ed xss.flatten (String.join ts) := by
  induction h with
  | nil => simp [Prints]
  | cons hfirst _ ih => simp [Prints, hfirst, ih]

theorem prints_generator (hopenings : List.Forall₂ (Prints ed) xss ts) (h : Prints ed xs x) :
    Prints ed (generator xss xs) (Script.generator ts x) := by
  have hflatten := prints_flatten hopenings
  have hclosers : (xss.map fun _ => "\x7d ") = ts.map fun _ => "\x7d " := by
    simp [List.map_const', hopenings.length_eq]
  unfold generator Script.generator
  simp only [Prints, printAll?_append, printAll?_cons, printAll?_nil, Span.print?_text,
    Span.print?_function, hflatten, h,
    Option.bind_some, Option.map_some, Option.some.injEq, hclosers]
  exact String.toList_injective (by simp)

/-- A parameter of a draft is one of a text. -/
structure Formal.Prints (ed : Edition) (p : Formal) (q : Script.Formal) : Prop where
  name : p.name = q.name
  default : Option.Rel (Spans.Prints ed) p.default q.default

theorem parameter_print? (name : String) : (parameter name).print? ed = some name := by
  rfl

variable {formals : List Formal}

theorem prints_arrowSignature
    (h : List.Forall₂ (Formal.Prints ed) formals texts) :
    Prints ed (arrowSignature formals) (Script.arrowSignature texts) := by
  refine prints_commas ?_
  rw [List.forall₂_map_left_iff, List.forall₂_map_right_iff]
  refine h.imp fun p q hpq => ?_
  obtain ⟨name, default⟩ := p
  obtain ⟨name', default'⟩ := q
  obtain ⟨rfl, hdefault⟩ := hpq
  cases hdefault with
  | some h => simp [Spans.Prints, parameter_print?, h, String.append_assoc]
  | none => simp [Spans.Prints, parameter_print?]

theorem prints_arrow
    (hformals : List.Forall₂ (Formal.Prints ed) formals texts) (h : Prints ed xs x) :
    Prints ed (arrow depth formals xs) ("\n" ++ Buffer.spaces ((depth + 1) * ed.width) ++
      Script.parens (Script.arrowSignature texts) ++ " => " ++
      Script.braces ("return " ++ x) ++ "\n" ++
        Buffer.spaces (depth * ed.width)) := by
  have hsignature := prints_parens (prints_arrowSignature hformals)
  have hbody := prints_braces (h.text "return ")
  simp [Prints, arrow, hsignature, hbody, String.append_assoc]

theorem prints_tall (h : List.Forall₂ (Prints ed) xss ts) :
    Prints ed (tall depth xss) ("\x7b\n" ++ Buffer.spaces ((depth + 1) * ed.width) ++
      (",\n" ++ Buffer.spaces ((depth + 1) * ed.width)).intercalate ts ++ "\n" ++
      Buffer.spaces (depth * ed.width) ++
        "\x7d") := by
  have hseparator :
      Prints ed [.text ",\n", .margin (depth + 1)]
      (",\n" ++ Buffer.spaces ((depth + 1) * ed.width)) := by
    simp [Prints]
  have hentries := prints_intercalate hseparator h
  simp [Prints, tall, hentries, String.append_assoc]

end Texts

end Spans

end ScriptCompiler
