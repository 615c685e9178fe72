import ScriptCompiler.Proofs.Copies
import ScriptCompiler.Proofs.PropertyKeys

/-!
# Member accesses

A point behind a number belongs to the number, so an object whose member is taken must not be
written as one. Where an object is read from, its text is put into parentheses if its characters are
those of a number; every number has such characters. Two kinds of accesses are written without that
test: members that are assigned to, and the members for calls with keywords.
-/

namespace ScriptCompiler

open Spans (Inside)

/-! ## Numbers have the characters of numbers -/

namespace Script

/-- Whether a text is a number, with or without a sign before it. -/
def isSignedNumber : List Char → Bool
  | '-' :: cs => isNumber cs
  | cs => isNumber cs

variable {c : Char} {cs rest : List Char} {p : Char → Bool}

theorem isNumeralChar_of_isDigit (h : c.isDigit = true) : isNumeralChar c = true := by
  simp [isNumeralChar, Char.isAlphanum, h]

theorem all_of_dropWhile (hp : ∀ c, p c = true → isNumeralChar c = true)
    (h : (cs.dropWhile p).all isNumeralChar = true) : cs.all isNumeralChar = true := by
  rw [← List.takeWhile_append_dropWhile (p := p) (l := cs), List.all_append, h, Bool.and_true,
    List.all_eq_true]
  exact fun c hc => hp c (List.mem_takeWhile_imp hc)

theorem all_of_skipExponent (h : Lexer.skipExponent cs = some []) :
    cs.all isNumeralChar = true := by
  have hdigits :
      ∀ ds : List Char,
      (if ds.head?.any Char.isDigit then some (ds.dropWhile Char.isDigit) else none) =
      some [] → ds.all isNumeralChar = true := by
    intro ds h
    split_ifs at h
    exact all_of_dropWhile (fun c => isNumeralChar_of_isDigit) (by rw [Option.some.inj h]; rfl)
  unfold Lexer.skipExponent at h
  split at h
  · rename_i e rest
    split_ifs at h with he
    · have he : isNumeralChar e = true := by
        have hcases : e = 'e' ∨ e = 'E' := by simpa using he
        rcases hcases with rfl | rfl <;> decide
      rw [List.all_cons, he]
      split at h
      · rw [List.all_cons, hdigits _ h]
        rfl
      · rw [List.all_cons, hdigits _ h]
        rfl
      · exact hdigits _ h
    · cases h
  · rfl

theorem all_of_skipDecimal (h : Lexer.skipDecimal cs = some []) : cs.all isNumeralChar = true := by
  refine all_of_dropWhile (p := Char.isDigit) (fun c => isNumeralChar_of_isDigit) ?_
  unfold Lexer.skipDecimal at h
  split at h
  · rename_i rest hrest
    have hfraction := all_of_dropWhile (fun c => isNumeralChar_of_isDigit) (all_of_skipExponent h)
    rw [hrest, List.all_cons, hfraction]
    decide
  · exact all_of_skipExponent h

theorem all_of_isNumber (h : isNumber cs = true) : cs.all isNumeralChar = true := by
  have hend : ∀ {x : Option (List Char)}, (x.bind fun rest =>
      if rest.head?.any (fun c => Lexer.isWordStart c || c.isDigit) then none else some rest) =
        some [] → x = some [] := by
    intro x hx
    obtain ⟨rest, rfl, h⟩ := Option.bind_eq_some_iff.mp hx
    split_ifs at h
    exact h
  have hdigits : ∀ {p : Char → Bool} {ds : List Char}, (∀ c, p c = true → isNumeralChar c = true) →
      some (ds.dropWhile p) = some [] → ds.all isNumeralChar = true := by
    intro p ds hp h
    exact all_of_dropWhile hp (by rw [Option.some.inj h]; rfl)
  have hskip := of_decide_eq_true (Bool.and_eq_true_iff.mp h).2
  unfold Lexer.skipNumber at hskip
  split at hskip
  · rename_i mark digits
    split at hskip
    · rename_i p hp
      split_ifs at hskip
      · have hall :=
          hdigits (fun c hc => by
            simp [isNumeralChar, (isHexDigit_plain ((baseDigit?_lower hp).1 c hc).1).2.1])
          (hend hskip)
        have hmark :
            isNumeralChar mark = true := by simp [isNumeralChar, (baseDigit?_lower hp).2.2.1]
        rw [List.all_cons, List.all_cons, hmark, hall]
        rfl
      · cases hskip
    · split_ifs at hskip
      · have hzero := hend hskip
        unfold Lexer.skipZeroFirst at hzero
        split_ifs at hzero
        · exact hdigits (fun c => isNumeralChar_of_isDigit) hzero
        · exact all_of_skipDecimal hzero
      · exact all_of_skipDecimal (hend hskip)
  · exact all_of_skipDecimal (hend hskip)

variable {text : String} {ed : Edition}

theorem isNumeral_of_isSignedNumber (h : isSignedNumber text.toList = true) :
    isNumeral text = true := by
  unfold isSignedNumber at h
  split at h
  · rename_i cs heq
    rw [isNumeral, heq]
    exact all_of_isNumber h
  · rename_i hsign
    have hstart : text.toList.head?.any (fun c => c.isDigit || c = '.') = true := by
      obtain ⟨hstart, -⟩ := Bool.and_eq_true_iff.mp h
      unfold Lexer.startsNumber at hstart
      split at hstart <;> simp_all
    unfold isNumeral
    split
    · rename_i cs heq
      exact absurd heq (hsign cs)
    · rw [all_of_isNumber h, hstart]
      rfl

theorem isSignedNumber_guarded (text : String) : isSignedNumber (guarded text).toList = false := by
  unfold guarded
  split_ifs with hnumeral
  · have hstart : ∃ cs, (parens text).toList = '(' :: cs := ⟨text.toList ++ [')'], by simp [parens]⟩
    obtain ⟨cs, hcs⟩ := hstart
    rw [hcs]
    rfl
  · exact Bool.eq_false_iff.mpr fun h => hnumeral (isNumeral_of_isSignedNumber h)

end Script

/-! ## The accesses of a phrase -/

/-- A member that is taken of an object, up to where the selector of the member names it. -/
structure Access where
  object : Spans
  selector : String
  /-- Whether the object is written as it is, even if it is a number. -/
  isBare : Bool

namespace Access

def reading (p : Place) (object : Expr) (selector : String) : Access :=
  ⟨Spans.grouped object.kind (object.draft p).spans, selector, false⟩

def receiver (a : Access) : Spans := if a.isBare then a.object else [.guarded a.object]

def spans (a : Access) : Spans := a.receiver ++ [.text a.selector]

end Access

/-- The accesses that the text of an expression itself has, and not those of its operands. -/
def Expr.accesses (p : Place) : Expr → List Access
  | .member object key =>
    if object.marksConstructor p.binding p.scopes then []
    else if ((Expr.member object key).contextMeaning? p.binding p.scopes).isSome then []
    else [.reading p object ("." ++ key)]
  | .subscript value [.item _] => [.reading p value "["]
  | .subscript value [.slice _ _ _] => [.reading p value
      (".__getitem__(" ++ Names.helper ++ ".slice(")]
  | .comparison op _ right => if op.symbol?.isSome then [] else [.reading p right ".includes"]
  | .call function arguments =>
    if (argumentValues arguments).keywords.isEmpty then
      match function.specialFunction? p.binding p.scopes, (argumentValues arguments).positional with
      | some "len", [value] => [.reading p value ".length"]
      | _, _ => []
    else
      match function.specialFunction? p.binding p.scopes with
      | some _ => [⟨[p.mention function], ".args(", true⟩]
      | none => [⟨(function.draft p).spans, ".args(", true⟩]
  | _ => []

/-- A member that is assigned to. Other targets are read as expressions. -/
def Target.accesses (p : Place) : Target → List Access
  | .member object key => [⟨(object.draft p).spans, "." ++ key, true⟩]
  | _ => []

def Phrase.accesses (p : Place) : Phrase → List Access
  | .expression e => e.accesses p
  | .statement (.assign left (.value _)) | .statement (.augment left _ _)
  | .statement (.forLoop _ _ left _ _ _) =>
    left.accesses p
  | .statement _ => []

/-! ## Accesses stand in drafts -/

variable {p : Place} {a : Access}

theorem Spans.inside_call {function : Spans} {positional keywords : List Spans}
    (hkeywords : keywords.isEmpty = false) :
    Inside [] (function ++ [.text ".args("]) (Spans.call function positional keywords) := by
  have hcall : Spans.call function positional keywords = (function ++ [.text ".args("]) ++
      (brackets (commas positional) ++ .text ", " :: braces (commas keywords) ++ [.text ")"]) := by
    simp [Spans.call, hkeywords]
  rw [hcall]
  exact (Inside.refl _).left _

theorem Spans.inside_includes {op : CompareOp} {left right : Spans} {kind : NodeKind}
    (hop : op.symbol? = none) :
    Inside [] (Spans.receiver kind right ++ [.text ".includes"])
    (Spans.comparison op left kind right) := by
  have htest : Inside [] (Spans.receiver kind right ++ [.text ".includes"])
      (Spans.receiver kind right ++ .text ".includes" :: parens left) := by
    exact (Inside.refl _).left _
  rw [Spans.comparison, hop]
  split_ifs
  · exact htest
  · exact ((htest.cons _).left _).cons _

theorem Expr.inside_access (e : Expr) :
    ∀ a ∈ e.accesses p, Inside [] a.spans (e.draft p).spans := by
  intro a ha
  unfold Expr.accesses at ha
  split at ha
  · split_ifs at ha with hconstructor hcontext
    · cases ha
    · cases ha
    · obtain rfl := List.mem_singleton.mp ha
      rw [Expr.draft, if_neg hconstructor, if_neg hcontext]
      exact .refl _
  · obtain rfl := List.mem_singleton.mp ha
    exact ((Inside.refl _).left _).left _
  · obtain rfl := List.mem_singleton.mp ha
    exact ((Inside.refl _).left _).left _
  · split_ifs at ha with hop
    · cases ha
    · obtain rfl := List.mem_singleton.mp ha
      exact Spans.inside_includes (by simpa using hop)
  · rename_i function arguments
    rw [Expr.draft, argumentSpans_eq]
    split_ifs at ha with hkeywords
    · split at ha
      · rename_i value hspecial hpositional
        obtain rfl := List.mem_singleton.mp ha
        rw [List.isEmpty_iff.mp hkeywords, hspecial, hpositional]
        rw [firstKind?_of_positional hkeywords hpositional]
        exact .refl _
      · cases ha
    · have hspans : ((argumentValues arguments).keywords.map fun k =>
          Span.text (k.1 ++ ": ") :: (k.2.draft p).spans).isEmpty = false := by
            simpa using hkeywords
      cases hspecial : specialFunction? p.binding p.scopes function with
      | some name =>
        rw [hspecial] at ha
        obtain rfl := List.mem_singleton.mp ha
        dsimp only
        rw [Spans.specialCall, if_neg (by simpa using hkeywords)]
        exact Spans.inside_call hspans
      | none =>
        rw [hspecial] at ha
        obtain rfl := List.mem_singleton.mp ha
        exact Spans.inside_call hspans
  · cases ha

theorem Target.inside_access (t : Target) : ∀ a ∈ t.accesses p, Inside [] a.spans (t.spans p) ∧
    Inside [] a.spans (p.assigning t) := by
  intro a ha
  unfold Target.accesses at ha
  split at ha
  · obtain rfl := List.mem_singleton.mp ha
    exact ⟨.refl _, .refl _⟩
  · cases ha

/-- The accesses of a phrase stand in its draft. -/
theorem Phrase.inside_access (x : Phrase) : ∀ a ∈ x.accesses p, Inside [] a.spans (x.spans p) := by
  intro a ha
  unfold Phrase.accesses at ha
  split at ha
  · exact Expr.inside_access _ a ha
  · rename_i left right
    exact (((left.inside_access a ha).2.left _).left _).line _
  · rename_i left op right
    rw [Phrase.spans, Stmt.spans]
    unfold Place.augment
    have hline : ∀ rest, Inside [] a.spans (Spans.line p.depth (left.spans p ++ rest)) :=
      fun rest => ((left.inside_access a ha).1.left rest).line _
    split
    · simpa using hline _
    · split
      · simpa using hline _
      · simpa using hline _
  · rename_i left iterable body otherwise
    have htarget := (left.inside_access a ha).2.cons (.text "for (")
    exact ((((htarget.left _).left _).line _).left _).left _
  · cases ha

/-! ## Accesses of numbers -/

/-- The object of an access is a number in the text exactly if it is written as it is and is one. -/
def SourceText.SeparatesNumbers (t : SourceText) (binding : Option Binding) (ed : Edition) : Prop :=
  ∀ c ∈ t.parts binding, ∀ around ∈ c.copies, ∀ a ∈ c.phrase.accesses c.place,
    Inside around a.spans (t.spans binding) ∧
    ∃ before object receiver after, a.object.Prints ed object ∧ a.receiver.Prints ed receiver ∧
      t.text = before ++ receiver ++ a.selector ++ after ∧
      (Script.isSignedNumber receiver.toList = true ↔ a.isBare = true ∧
      Script.isSignedNumber object.toList = true)

theorem Access.exists_receiver (h : a.spans.Prints ed text) :
    ∃ object receiver, a.object.Prints ed object ∧ a.receiver.Prints ed receiver ∧
    text = receiver ++ a.selector ∧
      (Script.isSignedNumber receiver.toList = true ↔ a.isBare = true ∧
      Script.isSignedNumber object.toList = true) := by
  obtain ⟨object, selector, isBare⟩ := a
  cases isBare with
  | true =>
    simp only [Spans.Prints, spans, receiver, if_true, printAll?_append,
      Option.bind_eq_some_iff] at h ⊢
    obtain ⟨text, htext, h⟩ := h
    refine ⟨text, text, htext, htext, ?_, ?_⟩
    · simpa using h.symm
    · simp
  | false =>
    simp only [Spans.Prints, spans, receiver, Bool.false_eq_true, if_false, List.singleton_append,
      printAll?_cons,
      Span.print?_guarded, Option.bind_eq_some_iff, Option.map_eq_some_iff] at h
    obtain ⟨_, ⟨text, htext, rfl⟩, _, ⟨_, hselector, _, hnil, rfl⟩, rfl⟩ := h
    obtain rfl : selector = _ := by simpa using hselector
    obtain rfl : "" = _ := by simpa using hnil
    refine ⟨text, Script.guarded text, htext, ?_, ?_, ?_⟩
    · have hprints : printAll? ed object = some text := htext
      simp [Spans.Prints, receiver, hprints]
    · rw [String.append_empty]
    · simp [Script.isSignedNumber_guarded]

theorem SourceText.separatesNumbers {t : SourceText} {binding : Option Binding}
    (h : t.PrintedIn binding ed) : t.SeparatesNumbers binding ed := by
  intro c hc around haround a ha
  have hinside : Inside around a.spans (t.spans binding) :=
    (c.phrase.inside_access a ha).within (SourceText.standsIn_parts hc around haround)
  obtain ⟨before, inner, after, hinner, htext⟩ := hinside.exists_text h.printed
  obtain ⟨object, receiver, hobject, hreceiver, rfl, hnumber⟩ := Access.exists_receiver hinner
  exact ⟨hinside, before, object, receiver, after, hobject, hreceiver, by
    simpa [String.append_assoc] using htext, hnumber⟩

/-- In every text of a unit or a bundle, the object of a member access is never a number where the
member is read, taken by index or slice, or asked for its length or what it includes. Where a member
is assigned to, or taken for a call with keywords, the object is a number exactly if that is what it
is lowered to. -/
theorem receiver_is_number_iff (options : Options) :
    (∀ (unit : SourceUnit) (output : String), unit.compile options = .ok output →
      unit.TextsHave options output SourceText.SeparatesNumbers) ∧
    ∀ (bundle : Bundle) (output : String), bundle.compile options = .ok output →
      bundle.TextsHave options output SourceText.SeparatesNumbers :=
  textsHave (fun _ _ _ hprinted _ => SourceText.separatesNumbers hprinted) options

def accessSource : String :=
  "class A:\n    pass\nx = 0x1F.real + len(n)\ny = x in n[1:2]\nx.y = 2 .real\nn.y += f(k=n)\n"

def accessOutput : String :=
  "class A \x7b\n\x7d\n/* pass */\nvar x = ((0x1f).real + (-5).length);\n" ++
    "var y = (-5).__getitem__(py_builtins.slice(1, 2)).includes(x);\nx.y = (2).real;\n" ++
    "-5.y += f.args([], \x7bk: -5\x7d);\n"

def accessContext : Binding := ⟨[("n", .integer (-5))]⟩

def accessUnit : SourceUnit := ⟨accessSource, some accessContext, .module⟩

def accessBundle : Bundle := ⟨[(.element accessSource none none none, none)], some accessContext⟩

theorem receiver_is_number_iff_for_negative :
    (accessUnit.compile {} = .ok accessOutput ∧
    accessUnit.TextsHave {} accessOutput SourceText.SeparatesNumbers ∧
      (((SourceText.mk accessSource .module accessOutput).parts accessContext).flatMap fun c =>
        (c.phrase.accesses c.place).map fun a => (a.selector, a.isBare)) =
          [(".real", false), (".length", false), (".includes", false),
          (".__getitem__(py_builtins.slice(", false),
            (".y", true), (".real", false), (".y", true), (".args(", true)]) ∧
    accessBundle.compile {} = .ok accessOutput ∧
      accessBundle.TextsHave {} accessOutput SourceText.SeparatesNumbers := by
  have hunit : accessUnit.compile {} = .ok accessOutput := by decide +kernel
  have hbundle : accessBundle.compile {} = .ok accessOutput := by decide +kernel
  exact ⟨⟨hunit, (receiver_is_number_iff {}).1 accessUnit _ hunit, by decide +kernel⟩,
    hbundle, (receiver_is_number_iff {}).2 accessBundle _ hbundle⟩

/-- A point behind the number belongs to it. -/
theorem assigned_member_of_number :
    (SourceUnit.mk "n.x = 1\n" (some ⟨[("n", .integer 5)]⟩) .module).compile {} =
    .ok "5.x = 1;\n" := by
  decide +kernel

end ScriptCompiler
