import ScriptCompiler.Proofs.NameResolution

/-!
# Capture of generated names

A reference to a callable is written as the name that the session has generated for it. Generated
names differ from each other, but they are not compared with the names that programs bind: a name
that a text declares around the reference, or at the top of the script, may be the same, and then
the reference is to something else. This module says what a reference can be mistaken for: names
that the sources themselves bind, those of the functions that were asked for, and names that are
synthesized.
-/

namespace ScriptCompiler

variable {i : Introduction} {ed : Edition} {m : Mention} {reference : Reference}
  {binding : Option Binding}
  {name : String} {t : SourceText} {x : Extraction} {width : Nat} {names : List (Nat × String)}
  {compilations : List Compilation} {c : Compilation}

/-! ## Scopes of scripts -/

mutual

def Span.declarations : Span → List Introduction
  | .introduction i => if i.form = .reassigned then [] else [i]
  | .guarded inner => declarations inner
  | .text _ | .margin _ | .mention _ | .function _ => []

/-- The names that spans declare, except for those of the functions in them. -/
def declarations : List Span → List Introduction
  | [] => []
  | s :: rest => s.declarations ++ declarations rest

end

/-- A place where a script refers to something, with the names that the functions around it
declare. -/
structure Site where
  mention : Mention
  around : List Introduction

mutual

def Span.sites (around : List Introduction) : Span → List Site
  | .mention m => [⟨m, around⟩]
  | .guarded inner => sites around inner
  | .function inner => sites (declarations inner ++ around) inner
  | .text _ | .margin _ | .introduction _ => []

/-- All references in spans. A function declares its names for the whole of it. -/
def sites (around : List Introduction) : List Span → List Site
  | [] => []
  | s :: rest => s.sites around ++ sites around rest

end

mutual

theorem Span.mem_marks_of_mem_declarations : ∀ {s : Span}, i ∈ s.declarations →
    i.form ≠ .reassigned ∧ .introduction i ∈ s.marks
  | .introduction j, h => by
    rw [Span.declarations] at h
    split_ifs at h with hform
    · cases h
    · obtain rfl := List.mem_singleton.mp h
      exact ⟨hform, by simp [Span.marks]⟩
  | .guarded inner, h => by
    exact mem_allMarks_of_mem_declarations h
  | .text _, h | .margin _, h | .mention _, h | .function _, h => by
    cases h

theorem mem_allMarks_of_mem_declarations : ∀ {xs : List Span}, i ∈ declarations xs →
    i.form ≠ .reassigned ∧ .introduction i ∈ allMarks xs
  | [], h => by
    cases h
  | s :: rest, h => by
    rcases List.mem_append.mp h with h | h
    · obtain ⟨hform, hmark⟩ := Span.mem_marks_of_mem_declarations h
      exact ⟨hform, List.mem_append_left _ hmark⟩
    · obtain ⟨hform, hmark⟩ := mem_allMarks_of_mem_declarations h
      exact ⟨hform, List.mem_append_right _ hmark⟩

end

mutual

theorem Span.mem_marks_of_mem_sites {site : Site} :
    ∀ {around : List Introduction} {s : Span}, site ∈ s.sites around →
    .mention site.mention ∈ s.marks ∧
      ∀ i ∈ site.around, i ∈ around ∨ i.form ≠ .reassigned ∧ .introduction i ∈ s.marks
  | around, .mention m, h => by
    obtain rfl := List.mem_singleton.mp h
    exact ⟨by simp [Span.marks], fun i hi => .inl hi⟩
  | around, .guarded inner, h => by
    exact mem_allMarks_of_mem_sites h
  | around, .function inner, h => by
    obtain ⟨hmention, haround⟩ := mem_allMarks_of_mem_sites h
    refine ⟨hmention, fun i hi => ?_⟩
    -- What the function declares is new; what was declared around it stays.
    rcases haround i hi with hi | hi
    · rcases List.mem_append.mp hi with hi | hi
      · exact .inr (mem_allMarks_of_mem_declarations hi)
      · exact .inl hi
    · exact .inr hi
  | around, .text _, h | around, .margin _, h | around, .introduction _, h => by
    cases h

theorem mem_allMarks_of_mem_sites {site : Site} : ∀ {around : List Introduction} {xs : List Span},
    site ∈ sites around xs → .mention site.mention ∈ allMarks xs ∧
      ∀ i ∈ site.around, i ∈ around ∨ i.form ≠ .reassigned ∧ .introduction i ∈ allMarks xs
  | around, [], h => by
    cases h
  | around, s :: rest, h => by
    rcases List.mem_append.mp h with h | h
    · obtain ⟨hmention, haround⟩ := Span.mem_marks_of_mem_sites h
      refine ⟨List.mem_append_left _ hmention, fun i hi => ?_⟩
      exact (haround i hi).imp_right fun hdeclared =>
        ⟨hdeclared.1, List.mem_append_left _ hdeclared.2⟩
    · obtain ⟨hmention, haround⟩ := mem_allMarks_of_mem_sites h
      refine ⟨List.mem_append_right _ hmention, fun i hi => ?_⟩
      exact (haround i hi).imp_right fun hdeclared =>
        ⟨hdeclared.1, List.mem_append_right _ hdeclared.2⟩

end

mutual

theorem Span.exists_text?_of_print? : ∀ {s : Span} {text : String},
    s.print? ed = some text → .mention m ∈ s.marks → ∃ name, m.text? ed.names = some name
  | .mention m', text, hprint, hm => by
    obtain rfl : m = m' := by simpa [Span.marks] using hm
    exact ⟨text, hprint⟩
  | .guarded inner, text, hprint, hm => by
    rw [Span.print?_guarded, Option.map_eq_some_iff] at hprint
    obtain ⟨text', hinner, -⟩ := hprint
    exact exists_text?_of_prints hinner hm
  | .function inner, text, hprint, hm => by
    exact exists_text?_of_prints hprint hm
  | .text _, _, _, hm | .margin _, _, _, hm
  | .introduction _, _, _, hm => by simp [Span.marks] at hm

/-- Everything that a printed draft mentions has a text. -/
theorem exists_text?_of_prints : ∀ {xs : List Span} {text : String},
    printAll? ed xs = some text → .mention m ∈ allMarks xs → ∃ name, m.text? ed.names = some name
  | [], text, hprints, hm => by
    cases hm
  | s :: rest, text, hprints, hm => by
    rw [printAll?_cons, Option.bind_eq_some_iff] at hprints
    obtain ⟨first, hfirst, hrest⟩ := hprints
    obtain ⟨more, hmore, -⟩ := Option.map_eq_some_iff.mp hrest
    rcases List.mem_append.mp hm with hm | hm
    · exact Span.exists_text?_of_print? hfirst hm
    · exact exists_text?_of_prints hmore hm

end

/-! ## References to callables -/

namespace Mention

/-- The callable that is referred to. -/
def callable? : Mention → Option Reference
  | .value binding scopes e =>
    match e.meaning? binding scopes with
    | some (.callable reference) => some reference
    | _ => none
  | .base _ | .constructed _ => none

theorem exists_of_callable? (h : m.callable? = some reference) :
    ∃ binding scopes e, m = .value binding scopes e ∧ e.meaning? binding scopes =
    some (.callable reference) := by
  cases m with
  | value binding scopes e =>
    refine ⟨binding, scopes, e, rfl, ?_⟩
    simp only [callable?] at h
    split at h
    · rwa [← Option.some_inj.mp h]
    · cases h
  | base id => cases h
  | constructed key => cases h

/-- A callable is written as its name in the table. -/
theorem text?_of_callable? (names : List (Nat × String))
    (h : m.callable? = some reference) : m.text? names = names.lookup reference.identity := by
  obtain ⟨binding, scopes, e, rfl, hmeaning⟩ := exists_of_callable? h
  rw [Mention.text?, hmeaning]
  rfl

end Mention

theorem Expr.exists_root_of_callable {scopes : Scopes} {e : Expr}
    (h : e.meaning? binding scopes = some (.callable reference)) :
    ∃ id, e.root? = some id ∧ scopes.isBound id = false := by
  have hmeaning : e.contextMeaning? binding scopes = some (.callable reference) := by
    cases e with
    | name pos id =>
      rw [Expr.meaning?, Option.some_inj] at h
      split_ifs at h
      cases hcontext : (Expr.name pos id).contextMeaning? binding scopes with
      | none => simp [hcontext] at h
      | some meaning => simpa [hcontext] using h
    | _ => exact h
  exact exists_root_of_contextMeaning? hmeaning

/-! ## Sessions -/

theorem Lowering.IsFunctionText.ne_empty {text : String} (h : IsFunctionText name text) :
    text ≠ "" := by
  obtain ⟨isAsync, formals, body, rfl⟩ := h
  intro hempty
  have hlength := congrArg String.length hempty
  simp at hlength

/-- A function that is written under a name is declared by it. -/
theorem SourceText.mem_declarations
    (hentry : t.entry = .callable name) (hprinted : t.PrintedIn binding ed) (htext : t.text ≠ "") :
    ⟨.function, name⟩ ∈ declarations (t.spans binding) := by
  have hprints := hprinted.printed
  rw [SourceText.spans, hentry, programSpans] at hprints ⊢
  cases hfirst : firstFunction? t.program with
  | none =>
    rw [hfirst] at hprints
    exact absurd (by simpa [Spans.Prints] using hprints.symm) htext
  | some d =>
    simp [Spans.namedFunction, Spans.function, Spans.functionHead, declarations, Span.declarations]

namespace WrittenOnce

variable {width : Nat} {names : List (Nat × String)} {compilations : List Compilation}

theorem exists_extraction (h : WrittenOnce width names compilations) {identity : Nat}
    (hname : names.lookup identity = some name) :
    ∃ x ∈ extractionsOf compilations, x.identity = identity ∧ x.name = name := by
  have hmem : (identity, name) ∈ names := by
    obtain ⟨before, after, hsplit, -⟩ := List.lookup_eq_some_iff.mp hname
    rw [hsplit]
    exact List.mem_append_right _ List.mem_cons_self
  obtain ⟨x, hx, hkey⟩ := List.mem_map.mp (h.table.mem_iff.mp hmem)
  obtain ⟨hidentity, hname⟩ := Prod.mk.inj hkey
  exact ⟨x, hx, hidentity, hname⟩

theorem eq_of_name_eq (h : WrittenOnce width names compilations) {x' : Extraction}
    (hx : x ∈ extractionsOf compilations) (hx' : x' ∈ extractionsOf compilations)
    (hname : x'.name = x.name) : x' = x :=
  List.inj_on_of_nodup_map h.generated hx' hx hname

/-- A callable is compiled to a function, which its text declares. -/
theorem exists_turn (h : WrittenOnce width names compilations)
    (hx : x ∈ extractionsOf compilations) :
    ∃ c ∈ compilations, ∃ turn ∈ c.turns, turn.extraction = x ∧
    Lowering.IsFunctionText x.name turn.text ∧
      ⟨.function, x.name⟩ ∈ declarations (turn.sourceText.spans c.binding) := by
  obtain ⟨c, hc, hx⟩ := List.mem_flatMap.mp hx
  obtain ⟨turn, hturn, rfl⟩ := List.mem_map.mp hx
  have htext := ((h.texts c hc).2 turn hturn).2
  have hprinted :=
    (Compilation.printedIn_of_mem (h.texts c hc)
      (List.mem_append_left _ (List.mem_map_of_mem hturn))).1
  exact ⟨c, hc, turn, hturn, rfl, htext, SourceText.mem_declarations rfl hprinted htext.ne_empty⟩

end WrittenOnce

/-- The names that are declared in scope at a site of a text, each with the text that declares it:
those of the functions around, and those at the top of any text of the session. -/
inductive DeclaredAt (compilations : List Compilation) (t : SourceText) (site : Site) :
    SourceText → Introduction → Prop
  | around {i : Introduction} (h : i ∈ site.around) : DeclaredAt compilations t site t i
  | top {c : Compilation} {t' : SourceText} {i : Introduction} (hc : c ∈ compilations)
      (ht : t' ∈ c.sourceTexts)
      (h : i ∈ declarations (t'.spans c.binding)) : DeclaredAt compilations t site t' i

/-- A reference to a callable is written as the name of its function, which no other callable
has. -/
structure RefersTo (compilations : List Compilation) (names : List (Nat × String)) (t : SourceText)
    (site : Site)
    (x : Extraction) : Prop where
  written : site.mention.text? names = some x.name
  unique : ∀ x' ∈ extractionsOf compilations, x'.name = x.name → x' = x
  /-- The function is declared at the top of its own text. -/
  function : ∃ c ∈ compilations, ∃ turn ∈ c.turns, turn.extraction = x ∧
    Lowering.IsFunctionText x.name turn.text ∧
    ⟨.function, x.name⟩ ∈ declarations (turn.sourceText.spans c.binding)
  /-- The name that the program reaches the callable by is not bound where it does so. The generated
  name may be. -/
  frames : ∃ (before after : NameTrace) (binding : Option Binding) (e : Expr) (id : String),
    t.trace = before ++ .mention e :: after ∧ site.mention =
    .value binding (Scopes.empty.replay before) e ∧
      e.root? = some id ∧ ¬before.Binds id ∧
        ((Scopes.empty.replay before).isBound x.name = true ↔ before.Binds x.name)
  /-- A declaration of the generated name in scope is the function itself, or it is one of the
  program of a text, or of a function that was asked for under that name, or it is synthesized. -/
  declared : ∀ t' i, DeclaredAt compilations t site t' i → i.text = x.name →
    (∃ c ∈ compilations, ∃ turn ∈ c.turns, turn.extraction = x ∧ t' = turn.sourceText) ∨
      .bind i.form i.id ∈ t'.trace ∨
      (∃ c ∈ compilations, t' = c.ownText ∧ c.entry = .callable x.name) ∨
        i.form = .synthesized

/-- What a text declares its program binds, unless it is synthesized or the name that a function is
written under. -/
theorem SourceText.bind_of_mem_allMarks
    (hform : i.form ≠ .reassigned) (h : .introduction i ∈ allMarks (t.spans binding)) :
    i.form = .synthesized ∨ .bind i.form i.id ∈ t.trace ∨ t.entry = .callable i.text := by
  rcases fromTrace_of_mem_programSpans h with (hsynthesized | hreassigned | hbind) | ⟨name,
    hentry, hhead⟩
  · exact .inl hsynthesized
  · exact absurd hreassigned hform
  · exact .inr (.inl hbind)
  · cases hhead
    exact .inr (.inr hentry)

/-- A text that is written under the name of a callable is the text of the callable, or was asked
for. -/
theorem WrittenOnce.of_entry_eq (h : WrittenOnce width names compilations)
    (hx : x ∈ extractionsOf compilations) (hc : c ∈ compilations) (ht : t ∈ c.sourceTexts)
    (hentry : t.entry = .callable x.name) :
    (∃ c ∈ compilations, ∃ turn ∈ c.turns, turn.extraction = x ∧ t = turn.sourceText) ∨
      ∃ c ∈ compilations, t = c.ownText ∧ c.entry = .callable x.name := by
  rcases List.mem_append.mp ht with ht | ht
  · obtain ⟨turn, hturn, rfl⟩ := List.mem_map.mp ht
    have hmem : turn.extraction ∈ extractionsOf compilations :=
      List.mem_flatMap.mpr ⟨c, hc, List.mem_map_of_mem hturn⟩
    have hname : turn.extraction.name = x.name := EntryPoint.callable.inj hentry
    exact .inl ⟨c, hc, turn, hturn, h.eq_of_name_eq hx hmem hname, rfl⟩
  · obtain rfl := List.mem_singleton.mp ht
    exact .inr ⟨c, hc, rfl, hentry⟩

theorem WrittenOnce.exists_refersTo (h : WrittenOnce width names compilations) {site : Site}
    (hc : c ∈ compilations) (ht : t ∈ c.sourceTexts) (hsite : site ∈ sites [] (t.spans c.binding))
    (hreference : site.mention.callable? = some reference) :
    ∃ x ∈ extractionsOf compilations, x.identity = reference.identity ∧
    RefersTo compilations names t site x := by
  obtain ⟨hmark, haround⟩ := mem_allMarks_of_mem_sites hsite
  have hprinted := (Compilation.printedIn_of_mem (h.texts c hc) ht).1.printed
  obtain ⟨name, hname⟩ := exists_text?_of_prints hprinted hmark
  have hlookup : names.lookup reference.identity = some name := by
    rw [← hname, Mention.text?_of_callable? _ hreference]
  obtain ⟨x, hx, hidentity, rfl⟩ := h.exists_extraction hlookup
  refine ⟨x, hx, hidentity, hname, fun x' hx' => h.eq_of_name_eq hx hx', h.exists_turn hx, ?_, ?_⟩
  · obtain ⟨binding, scopes, e, hmention, hmeaning⟩ := Mention.exists_of_callable? hreference
    obtain ⟨id, hroot, hbound⟩ := Expr.exists_root_of_callable hmeaning
    rw [hmention] at hmark
    rcases fromTrace_of_mem_programSpans hmark with ⟨-, before, after, htrace, rfl⟩ | ⟨_, -, hhead⟩
    · have hopen : before.StaysOpen := staysOpen_of_programTrace htrace
      refine ⟨before, after, binding, e, id, htrace, hmention, hroot, ?_,
        NameTrace.isBound_replay_iff hopen⟩
      rw [← NameTrace.isBound_replay_iff hopen, hbound]
      exact Bool.false_ne_true
    · cases hhead
  · intro t' i hdeclared htext
    -- Both kinds of declarations are marks of a text of the session.
    obtain ⟨c', hc', ht', hform, hi⟩ : ∃ c' ∈ compilations, t' ∈ c'.sourceTexts ∧
        i.form ≠ .reassigned ∧
        .introduction i ∈ allMarks (t'.spans c'.binding) := by
      cases hdeclared with
      | around hi => exact ⟨c, hc, ht, (haround i hi).resolve_left List.not_mem_nil⟩
      | top hc' ht' hi => exact ⟨_, hc', ht', mem_allMarks_of_mem_declarations hi⟩
    rcases SourceText.bind_of_mem_allMarks hform hi with hsynthesized | hbind | hentry
    · exact .inr (.inr (.inr hsynthesized))
    · exact .inr (.inl hbind)
    · rw [htext] at hentry
      rcases h.of_entry_eq hx hc' ht' hentry with hturn | hasked
      · exact .inl hturn
      · exact .inr (.inr (.inl hasked))

/-- In every text of a unit or a bundle, a reference to a callable is written as the name of the one
function that the callable is compiled to, and only names of the sources themselves, or synthesized
ones, can come between. -/
theorem captured_by_own_names_only (options : Options) :
    (∀ (unit : SourceUnit) (output : String), unit.compile options = .ok output →
      ∃ (c : Compilation) (names : List (Nat × String)),
        c.binding = unit.context ∧ c.source = unit.source ∧ c.entry = unit.entry ∧
          output = String.join (c.sourceTexts.map (·.text)) ∧
          ∀ t ∈ c.sourceTexts, t.PrintedIn c.binding ⟨options.indentWidth, names⟩ ∧
            ∀ site ∈ sites [] (t.spans c.binding), ∀ reference, site.mention.callable? =
            some reference →
              ∃ x ∈ extractionsOf [c], x.identity = reference.identity ∧
              RefersTo [c] names t site x) ∧
    ∀ (bundle : Bundle) (output : String), bundle.compile options = .ok output →
      ∃ (compilations : List Compilation) (names : List (Nat × String)),
        List.Forall₂ (Bundle.Gives bundle.context) bundle.components compilations ∧
          output = "\n".intercalate
            (compilations.flatMap fun c => String.join (c.sourceTexts.map (·.text)) :: c.tail) ∧
          ∀ c ∈ compilations, ∀ t ∈ c.sourceTexts, t.PrintedIn c.binding
          ⟨options.indentWidth, names⟩ ∧
            ∀ site ∈ sites [] (t.spans c.binding), ∀ reference, site.mention.callable? =
            some reference →
              ∃ x ∈ extractionsOf compilations, x.identity = reference.identity ∧
                RefersTo compilations names t site x := by
  constructor
  · intro unit output h
    obtain ⟨c, names, hbinding, hsource, hentry, houtput, honce⟩ := SourceUnit.exists_writtenOnce h
    refine ⟨c, names, hbinding, hsource, hentry, houtput, fun t ht => ?_⟩
    refine ⟨(Compilation.printedIn_of_mem (honce.texts c List.mem_cons_self) ht).1, ?_⟩
    exact fun site hsite reference => honce.exists_refersTo List.mem_cons_self ht hsite
  · intro bundle output h
    obtain ⟨compilations, names, hgives, houtput, honce⟩ := Bundle.exists_writtenOnce h
    refine ⟨compilations, names, hgives, houtput, fun c hc t ht => ?_⟩
    refine ⟨(Compilation.printedIn_of_mem (honce.texts c hc) ht).1, ?_⟩
    exact fun site hsite reference => honce.exists_refersTo hc ht hsite

/-- An object with a method. -/
def robotContext : Option Binding :=
  some ⟨[("robot",
    .object "Robot" [("go", .callable 0 ⟨"go", none, "def go():\n    return 1\n"⟩)])]⟩

def robotUnit : SourceUnit := ⟨"def f(x):\n    return robot.go() + x\n", robotContext, .module⟩

def robotOutput : String :=
  "function Robot_go() \x7b\n    return 1;\n\x7d\nfunction f(x) \x7b\n" ++
  "    return (Robot_go() + x);\n\x7d\n"

/-- The second component is a function under the name that the session has generated. -/
def robotBundle : Bundle :=
  ⟨[(.function "def f():\n    return robot.go()\n" none, none),
    (.function "def g():\n    return 2\n" (some "Robot_go"), none)], robotContext⟩

def robotBundleOutput : String :=
  "function Robot_go() \x7b\n    return 1;\n\x7d\nfunction f() \x7b\n    return Robot_go();\n" ++
  "\x7d\n\n" ++
    "function Robot_go() \x7b\n    return 2;\n\x7d\n"

theorem robot_captured_by_own_names_only : (robotUnit.compile {} = .ok robotOutput ∧
      ∃ (c : Compilation) (names : List (Nat × String)),
        c.binding = robotUnit.context ∧ c.source = robotUnit.source ∧ c.entry = robotUnit.entry ∧
          robotOutput = String.join (c.sourceTexts.map (·.text)) ∧
          ∀ t ∈ c.sourceTexts, t.PrintedIn c.binding ⟨Buffer.defaultWidth, names⟩ ∧
            ∀ site ∈ sites [] (t.spans c.binding), ∀ reference, site.mention.callable? =
            some reference →
              ∃ x ∈ extractionsOf [c], x.identity = reference.identity ∧
              RefersTo [c] names t site x) ∧
    robotBundle.compile {} = .ok robotBundleOutput ∧
      ∃ (compilations : List Compilation) (names : List (Nat × String)),
        List.Forall₂ (Bundle.Gives robotBundle.context) robotBundle.components compilations ∧
          robotBundleOutput = "\n".intercalate
            (compilations.flatMap fun c => String.join (c.sourceTexts.map (·.text)) :: c.tail) ∧
          ∀ c ∈ compilations, ∀ t ∈ c.sourceTexts, t.PrintedIn c.binding
          ⟨Buffer.defaultWidth, names⟩ ∧
            ∀ site ∈ sites [] (t.spans c.binding), ∀ reference, site.mention.callable? =
            some reference →
              ∃ x ∈ extractionsOf compilations, x.identity = reference.identity ∧
                RefersTo compilations names t site x := by
  have hunit : robotUnit.compile {} = .ok robotOutput := by decide +kernel
  have hbundle : robotBundle.compile {} = .ok robotBundleOutput := by decide +kernel
  exact ⟨⟨hunit, (captured_by_own_names_only {}).1 robotUnit _ hunit⟩,
    hbundle, (captured_by_own_names_only {}).2 robotBundle _ hbundle⟩

/-- A parameter with the name of the callable's function stands between the function and the
reference to it. -/
theorem parameter_captures_callable :
    (SourceUnit.mk "def f(Robot_go):\n    return robot.go()\n" robotContext .module).compile {} =
      .ok ("function Robot_go() \x7b\n    return 1;\n\x7d\n" ++
        "function f(Robot_go) \x7b\n    return Robot_go();\n\x7d\n") := by
  decide +kernel

end ScriptCompiler
