import ScriptCompiler.Proofs.DefinitionNames
import ScriptCompiler.Proofs.Lexing

/-!
# Awaits

Where the awaits of a program end up in its text. A script may await only in an asynchronous
function, and what counts is the function that stands closest around the await.

An await that belongs to an asynchronous definition has that definition around it in the text as
well, unless something in between becomes a function: a comprehension, a range that counts from a
start or by a step, or a lambda. None of these functions is asynchronous. Nor is there a function
around the awaits of a definition whose header is not written.
-/

namespace ScriptCompiler

variable {header : String} {word rest : List Char} {role : Role} {statements : List Stmt}
  {binding : Option Binding}
  {t : SourceText}

/-! ## Asynchronous headers -/

namespace Script

/-- The text that a function begins with under its name. -/
def functionText : List Char := "function ".toList

/-- The text that an asynchronous function is assigned with. -/
def asyncAssignment : List Char := "= async function".toList

/-- Whether the header is that of an asynchronous function. A method that is assigned to its class
says so between the equals sign and the parameters. -/
def isAsyncHeader (header : String) : Bool :=
  asyncText.isPrefixOf header.toList ||
    !functionText.isPrefixOf header.toList && asyncAssignment.isSuffixOf
    (header.toList.takeWhile (· ≠ '('))

theorem isAsyncHeader_of_async (h : asyncText <+: header.toList) : isAsyncHeader header = true := by
  rw [isAsyncHeader, List.isPrefixOf_iff_prefix.mpr h, Bool.true_or]

theorem isAsyncHeader_of_function (h : functionText <+: header.toList) :
    isAsyncHeader header = false := by
  have hasync : ¬ asyncText <+: header.toList := by
    intro hasync
    have hboth := List.prefix_or_prefix_of_prefix h hasync
    revert hboth
    decide
  rw [isAsyncHeader, List.isPrefixOf_iff_prefix.mpr h, Bool.not_true, Bool.false_and, Bool.or_false,
    Bool.eq_false_iff, ne_eq, List.isPrefixOf_iff_prefix]
  exact hasync

/-- What begins with a word and a mark does not begin with a text that has a blank before the
mark. -/
theorem not_prefix_of_word {start : List Char} {mark : Char} (hword : ' ' ∉ word)
    (hblank : ' ' ∈ start)
    (hmark : mark ∉ start) : ¬ start <+: word ++ mark :: rest := by
  intro h
  have hall : word ++ [mark] <+: word ++ mark :: rest := ⟨rest, by simp⟩
  rcases List.prefix_or_prefix_of_prefix h hall with hshort | hlong
  · have hmem := hshort.subset hblank
    rw [List.mem_append, List.mem_singleton] at hmem
    rcases hmem with hmem | hmem
    · exact hword hmem
    · exact hmark (hmem ▸ hblank)
  · exact hmark (hlong.subset (by simp))

theorem isAsyncHeader_eq_suffix (mark : Char) (hword : ' ' ∉ word)
    (hmark : mark ∉ asyncText ++ functionText) (h : header.toList = word ++ mark :: rest) :
    isAsyncHeader header = asyncAssignment.isSuffixOf (header.toList.takeWhile (· ≠ '(')) := by
  rw [List.mem_append, not_or] at hmark
  have hasync : asyncText.isPrefixOf header.toList = false := by
    rw [Bool.eq_false_iff, ne_eq, List.isPrefixOf_iff_prefix, h]
    exact not_prefix_of_word hword (by decide) hmark.1
  have hfunction : functionText.isPrefixOf header.toList = false := by
    rw [Bool.eq_false_iff, ne_eq, List.isPrefixOf_iff_prefix, h]
    exact not_prefix_of_word hword (by decide) hmark.2
  rw [isAsyncHeader, hasync, hfunction, Bool.false_or, Bool.not_false, Bool.true_and]

theorem takeWhile_head {head : List Char} (h : '(' ∉ head) :
    (head ++ '(' :: rest).takeWhile (· ≠ '(') = head := by
  rw [List.takeWhile_append_of_pos, List.takeWhile_cons_of_neg, List.append_nil]
  · simp
  · intro c hc
    rw [decide_eq_true_eq]
    rintro rfl
    exact h hc

/-- A method in short form that does not begin with `async`. -/
theorem isAsyncHeader_word (hblank : ' ' ∉ word) (hparen : '(' ∉ word)
    (h : header.toList = word ++ '(' :: rest) : isAsyncHeader header = false := by
  rw [isAsyncHeader_eq_suffix '(' hblank (by decide) h, h, takeWhile_head hparen,
    Bool.eq_false_iff, ne_eq,
    List.isSuffixOf_iff_suffix]
  intro hsuffix
  exact hblank (hsuffix.subset (by decide))

/-- What stands between the name of a method that is assigned to its class and the parameters. -/
def assignment (isAsync : Bool) :
    List Char := (" = " ++ Lowering.asyncMark isAsync ++ "function").toList

variable (isAsync : Bool)

theorem asyncAssignment_suffix_iff (target : List Char) :
    asyncAssignment <:+ target ++ assignment isAsync ↔ isAsync = true := by
  have hassignment := List.suffix_append target (assignment isAsync)
  cases isAsync with
  | false =>
    refine iff_of_false (fun h => ?_) Bool.false_ne_true
    have hboth := List.suffix_or_suffix_of_suffix h hassignment
    revert hboth
    decide
  | true =>
    have hasync : asyncAssignment <:+ assignment true := by decide
    exact iff_of_true (hasync.trans hassignment) rfl

theorem isAsyncHeader_assigned {key : List Char} (hblank : ' ' ∉ word)
    (hword : '(' ∉ word) (hkey : '(' ∉ key)
    (h : header.toList = word ++ '.' :: (key ++ assignment isAsync ++ '(' :: rest)) :
    isAsyncHeader header = isAsync := by
  have hsplit : header.toList = (word ++ '.' :: key ++ assignment isAsync) ++ '(' :: rest := by
    rw [h]
    simp only [List.append_assoc, List.cons_append]
  have hparen : '(' ∉ word ++ '.' :: key ++ assignment isAsync := by
    have hassignment : '(' ∉ assignment isAsync := by cases isAsync <;> decide
    rw [List.mem_append, List.mem_append, List.mem_cons, not_or, not_or, not_or]
    exact ⟨⟨hword, by decide, hkey⟩, hassignment⟩
  rw [isAsyncHeader_eq_suffix '.' hblank (by decide) h, hsplit, takeWhile_head hparen,
    Bool.eq_iff_iff,
    List.isSuffixOf_iff_suffix, asyncAssignment_suffix_iff]

end Script

theorem Identifier.IsWord.notMem {w : String} (h : IsWord w) {c : Char}
    (hc : Script.Lexer.isWordPart c = false) : c ∉ w.toList := by
  obtain ⟨first, rest, hw, hfirst, hrest⟩ := Script.Lexer.exists_of_isWord h
  rw [hw, List.mem_cons, not_or]
  constructor
  · rintro rfl
    rw [Script.Lexer.isWordPart_of_isWordStart hfirst] at hc
    cases hc
  · intro hmem
    rw [hrest c hmem] at hc
    cases hc

namespace Role

variable {isAsync : Bool} {name : String} {names : List String}

theorem exists_toList_header (role : Role) (isAsync : Bool) (name : String) (names : List String) :
    ∃ rest,
    (role.header isAsync name names).toList = (role.head isAsync name names).toList ++
    '(' :: rest := by
  simp [header, Script.parens, String.toList_append]

theorem isAsyncHeader_function {before : String}
    (h : role.head isAsync name names = Lowering.asyncMark isAsync ++ "function " ++ before) :
    Script.isAsyncHeader (role.header isAsync name names) = isAsync := by
  obtain ⟨rest, hheader⟩ := role.exists_toList_header isAsync name names
  rw [h, String.toList_append, List.append_assoc] at hheader
  cases isAsync with
  | false =>
    refine Script.isAsyncHeader_of_function ?_
    rw [hheader]
    exact List.prefix_append _ _
  | true =>
    refine Script.isAsyncHeader_of_async ?_
    rw [hheader]
    exact List.prefix_append _ _

theorem isAsyncHeader_short (hname : Identifier.IsWord name)
    (h : role.head isAsync name names = Lowering.asyncMark isAsync ++ name) :
    Script.isAsyncHeader (role.header isAsync name names) = isAsync := by
  obtain ⟨rest, hheader⟩ := role.exists_toList_header isAsync name names
  rw [h] at hheader
  cases isAsync with
  | false =>
    exact Script.isAsyncHeader_word (hname.notMem (by decide)) (hname.notMem (by decide)) hheader
  | true =>
    refine Script.isAsyncHeader_of_async ?_
    rw [hheader, String.toList_append]
    exact List.prefix_append _ _

theorem isAsyncHeader_assigned {className : String} (hname : Identifier.IsWord name)
    (hclass : Identifier.IsWord className) (h : role.head isAsync name names =
      className ++ ".prototype." ++ name ++ " = " ++ Lowering.asyncMark isAsync ++ "function") :
    Script.isAsyncHeader (role.header isAsync name names) = isAsync := by
  obtain ⟨rest, hheader⟩ := role.exists_toList_header isAsync name names
  have hkey : '(' ∉ "prototype.".toList ++ name.toList := by
    rw [List.mem_append, not_or]
    exact ⟨by decide, hname.notMem (by decide)⟩
  have hsplit : (role.header isAsync name names).toList =
      className.toList ++ '.' ::
      ("prototype.".toList ++ name.toList ++ Script.assignment isAsync ++ '(' :: rest) := by
    rw [hheader, h, Script.assignment]
    simp only [String.toList_append, List.append_assoc]
    rfl
  exact Script.isAsyncHeader_assigned isAsync (hclass.notMem (by decide))
    (hclass.notMem (by decide)) hkey hsplit

/-- The header of a definition with a name says whether the definition is asynchronous. -/
theorem isAsyncHeader_header (role : Role) (hname : Identifier.IsWord name)
    (hclass : ∀ className ∈ role.className?, Identifier.IsWord className) :
    Script.isAsyncHeader (role.header isAsync name names) = isAsync := by
  cases role with
  | free =>
    by_cases hself : names.head? = some Lowering.selfName
    · exact isAsyncHeader_short hname (if_pos hself)
    · exact isAsyncHeader_function (if_neg hself)
  | named => exact isAsyncHeader_function rfl
  | native => exact isAsyncHeader_short hname rfl
  | static className
  | method className => exact isAsyncHeader_assigned hname (hclass className rfl) rfl

end Role

/-- A header that says whether its definition is asynchronous. -/
def Heading.Told (h : Heading) : Prop := Script.isAsyncHeader h.header = h.isAsync

theorem told_headingsOf {ds : List Definition} (h : AllNamed ds) :
    ∀ heading ∈ headingsOf ds, heading.Told := by
  intro heading hheading
  obtain ⟨d, hd, hfound⟩ := List.mem_filterMap.mp hheading
  obtain ⟨header, hheader, rfl⟩ := Option.map_eq_some_iff.mp hfound
  obtain ⟨role, hrole, rfl⟩ := Option.map_eq_some_iff.mp hheader
  exact role.isAsyncHeader_header (h d hd).name ((h d hd).className role hrole)

theorem told_programDefinitions {Q : Position → Prop} (h : blockPlaced Q statements)
    (entry : EntryPoint) :
    ∀ heading ∈ headingsOf (programDefinitions statements entry), heading.Told := by
  have hfirst := named_firstFunction h
  cases entry with
  | module => exact told_headingsOf (named_block _ h (by rintro _ ⟨⟩))
  | body =>
    rw [programDefinitions]
    cases hfound : firstFunction? statements with
    | none => exact List.forall_mem_nil _
    | some d => exact told_headingsOf (hfirst d hfound)
  | callable name =>
    rw [programDefinitions]
    cases hfound : firstFunction? statements with
    | none => exact List.forall_mem_nil _
    | some d =>
      rw [headingsOf_around, List.forall_mem_cons]
      exact ⟨Role.isAsyncHeader_function rfl, told_headingsOf (hfirst d hfound)⟩

/-! ## Reading awaits -/

def Opening.isAsync : Opening → Bool
  | .block header => Script.isAsyncHeader header
  | .expression isAsync => isAsync

mutual

/-- For each await whether the function closest around it is asynchronous, if there is a function
around it. -/
def Landmark.awaits (nearest : Option Bool) : Landmark → List (Option Bool)
  | .await => [nearest]
  | .function opening inner => landmarkAwaits (some opening.isAsync) inner

def landmarkAwaits (nearest : Option Bool) : List Landmark → List (Option Bool)
  | [] => []
  | mark :: rest => mark.awaits nearest ++ landmarkAwaits nearest rest

end

/-- The awaits of a draft, in the order of the text. -/
def Spans.awaits (xs : Spans) : List (Option Bool) := landmarkAwaits none xs.landmarks

theorem landmarkAwaits_append (nearest : Option Bool) (xs ys : List Landmark) :
    landmarkAwaits nearest (xs ++ ys) = landmarkAwaits nearest xs ++ landmarkAwaits nearest ys := by
  induction xs with
  | nil => rw [List.nil_append, landmarkAwaits, List.nil_append]
  | cons mark rest ih =>
    rw [List.cons_append, landmarkAwaits, ih, landmarkAwaits, List.append_assoc]

/-! ## Where awaits stand in a program -/

/-- What stands between an await and the definition that it belongs to. -/
inductive Between where
  | comprehension
  /-- A range that counts from a start or by a step. -/
  | counter
  | lambda
  /-- The default of a parameter. It belongs to what is around the function, but is written in the
  function. -/
  | default (isAsync : Bool)
  /-- The definition is written without its header. -/
  | unwritten
deriving DecidableEq, Repr

structure Standing where
  /-- Whether it is the text of a literal that reads like an await. -/
  isLiteral : Bool
  /-- Whether the definition that it belongs to is asynchronous, if it belongs to one. -/
  owner : Option Bool
  between : Option Between
deriving DecidableEq, Repr

/-- Whether the function closest around an await in the text is asynchronous, if there is one. -/
def nearestFunction (owner : Option Bool) : Option Between → Option Bool
  | none => owner
  | some (.default isAsync) => some isAsync
  | some .unwritten => none
  | some .comprehension | some .counter | some .lambda => some false

namespace Standing

def nearest (s : Standing) : Option Bool := nearestFunction s.owner s.between

/-- Nothing but an asynchronous function stands between the await and its definition. -/
def IsDirect (s : Standing) : Prop := s.between = none ∨ s.between = some (.default true)

instance (s : Standing) : Decidable s.IsDirect := inferInstanceAs (Decidable (_ ∨ _))

/-- What belongs to an asynchronous definition is in an asynchronous function of the text if and
only if it is direct. -/
theorem nearest_iff_isDirect {s : Standing} (h : s.owner = some true) :
    s.nearest = some true ↔ s.IsDirect := by
  obtain ⟨isLiteral, owner, between⟩ := s
  subst h
  cases between with
  | none => simp [nearest, nearestFunction, IsDirect]
  | some b => cases b <;> simp [nearest, nearestFunction, IsDirect]

end Standing

namespace Wrapper

/-- The definition that the body of a function belongs to. -/
def owner (outer : Option Bool) : Wrapper → Option Bool
  | .definition isAsync _ => some isAsync
  | .comprehension | .counter | .lambda => outer

def between? : Wrapper → Option Between
  | .comprehension => some .comprehension
  | .counter => some .counter
  | .lambda => some .lambda
  | .definition _ _ => none

def isAsync : Wrapper → Bool
  | .definition isAsync _ => isAsync
  | .comprehension | .counter | .lambda => false

theorem nearestFunction_body (w : Wrapper) (outer : Option Bool) :
    nearestFunction (w.owner outer) w.between? = some w.isAsync := by
  cases w <;> rfl

end Wrapper

mutual

/-- Where the awaits of a spot stand, given what is around it. -/
def Spot.standings (owner : Option Bool) (between : Option Between) : Spot → List Standing
  | .await => [⟨false, owner, between⟩]
  | .literal => [⟨true, owner, between⟩]
  | .function w defaults body =>
    spotStandings owner (some (.default w.isAsync)) defaults ++
      spotStandings (w.owner owner) w.between? body

def spotStandings (owner : Option Bool) (between : Option Between) : List Spot → List Standing
  | [] => []
  | spot :: rest => spot.standings owner between ++ spotStandings owner between rest

end

/-- Where the awaits of a program stand. -/
def programStandings (binding : Option Binding) (statements : List Stmt) (entry : EntryPoint) :
    List Standing :=
  match entry with
  | .module | .callable _ => spotStandings none none (programSpots binding statements entry)
  | .body =>
    spotStandings ((firstFunction? statements).map (·.isAsync)) (some .unwritten)
      (programSpots binding statements entry)

/-! ## Awaits of spots -/

theorem Spot.told_function {w : Wrapper} {defaults body : List Spot}
    (h : ∀ heading ∈ (Spot.function w defaults body).headings, heading.Told) :
    w.opening.isAsync = w.isAsync ∧ (∀ heading ∈ spotHeadings defaults, heading.Told) ∧
      ∀ heading ∈ spotHeadings body, heading.Told := by
  rw [← List.forall_mem_append]
  cases w with
  | definition isAsync header =>
    rw [Spot.headings, List.forall_mem_cons] at h
    exact h
  | comprehension | counter | lambda =>
    exact ⟨rfl, h⟩

mutual

theorem Spot.awaits_landmark : ∀ (spot : Spot) (owner : Option Bool) (between : Option Between),
    (∀ heading ∈ spot.headings, heading.Told) →
      spot.landmark.awaits (nearestFunction owner between) =
      (spot.standings owner between).map (·.nearest)
  | .await, _, _, _
  | .literal, _, _, _ => by rw [Spot.landmark, Landmark.awaits, Spot.standings]; rfl
  | .function w defaults body, owner, between, h => by
    obtain ⟨hasync, htold, htoldBody⟩ := Spot.told_function h
    have hdefaults := awaits_spotLandmarks defaults owner (some (.default w.isAsync)) htold
    have hbody := awaits_spotLandmarks body (w.owner owner) w.between? htoldBody
    rw [nearestFunction] at hdefaults
    rw [w.nearestFunction_body] at hbody
    rw [Spot.landmark, Landmark.awaits, landmarkAwaits_append, hasync, hdefaults, hbody,
      Spot.standings,
      List.map_append]

/-- The awaits of the text are those of the program, each in the function that is to be expected
from where it stands. -/
theorem awaits_spotLandmarks :
    ∀ (spots : List Spot) (owner : Option Bool) (between : Option Between),
    (∀ heading ∈ spotHeadings spots, heading.Told) →
      landmarkAwaits (nearestFunction owner between) (spotLandmarks spots) =
        (spotStandings owner between spots).map (·.nearest)
  | [], owner, between, _ => by rw [spotLandmarks_nil, landmarkAwaits, spotStandings, List.map_nil]
  | spot :: rest, owner, between, h => by
    rw [spotHeadings_cons, List.forall_mem_append] at h
    rw [spotLandmarks_cons, landmarkAwaits, spot.awaits_landmark owner between h.1,
      awaits_spotLandmarks rest owner between h.2, spotStandings, List.map_append]

end

theorem Spans.MadeOf.awaits {xs : Spans} {c : Contents} {A : Prop} {l : Layer} (h : xs.MadeOf A l c)
    (htold : ∀ heading ∈ spotHeadings c.spots, heading.Told) {owner : Option Bool}
    {between : Option Between}
    (hnearest : nearestFunction owner between = none) :
    xs.awaits = (spotStandings owner between c.spots).map (·.nearest) := by
  rw [Spans.awaits, Spans.landmarks, h.landmarks, ← hnearest]
  exact awaits_spotLandmarks c.spots owner between htold

theorem awaits_program {entry : EntryPoint}
    (htold : ∀ heading ∈ spotHeadings (programSpots binding statements entry), heading.Told) :
    (programSpans binding statements entry).awaits = (programStandings binding statements entry).map
    (·.nearest) := by
  have hmade := made_program (A := False) binding statements entry
  cases entry with
  | module | body | callable name => exact hmade.awaits htold rfl

namespace SourceText

/-- Where the awaits of the program of a source stand, with the literals that read like awaits. -/
def standings (t : SourceText) (binding : Option Binding) :
    List Standing := programStandings binding t.program t.entry

/-- The awaits of the program. -/
def awaits (t : SourceText) (binding : Option Binding) :
    List Standing := (t.standings binding).filter (!·.isLiteral)

/-- For each await of the text that is no literal whether the function closest around it is
asynchronous. -/
def writtenAwaits (t : SourceText) (binding : Option Binding) : List (Option Bool) :=
  (((t.standings binding).zip (t.spans binding).awaits).filter (!·.1.isLiteral)).map (·.2)

/-- How the awaits of a program are written in its text. -/
structure PlacesAwaits (t : SourceText) (binding : Option Binding) (_ : Edition) : Prop where
  /-- Each await has the function around it that is to be expected from where it stands in the
  program. -/
  nearest : (t.spans binding).awaits = (t.standings binding).map (·.nearest)
  /-- If all awaits belong to asynchronous definitions, then they are all in asynchronous functions
  of the text if and only if nothing else becomes a function around one of them. -/
  stays : (∀ s ∈ t.awaits binding, s.owner = some true) →
    ((∀ found ∈ t.writtenAwaits binding, found = some true) ↔ ∀ s ∈ t.awaits binding, s.IsDirect)

theorem writtenAwaits_eq (h : (t.spans binding).awaits = (t.standings binding).map (·.nearest)) :
    t.writtenAwaits binding = (t.awaits binding).map (·.nearest) := by
  rw [writtenAwaits, h, awaits]
  induction t.standings binding with
  | nil => rfl
  | cons s rest ih => cases hliteral : s.isLiteral <;> simp [hliteral, ih]

theorem placesAwaits {ed : Edition} (hprinted : t.PrintedIn binding ed)
    (haccepted : ProgramAccepted t.program t.entry) : t.PlacesAwaits binding ed := by
  have htold : ∀ heading ∈ spotHeadings (programSpots binding t.program t.entry), heading.Told := by
    intro heading hheading
    rw [(perm_headings_program haccepted).mem_iff] at hheading
    exact told_programDefinitions (placed_of_parse hprinted.parsed) t.entry heading hheading
  have hnearest : (t.spans binding).awaits = (t.standings binding).map (·.nearest) :=
    awaits_program htold
  refine ⟨hnearest, fun howner => ?_⟩
  rw [writtenAwaits_eq hnearest, List.forall_mem_map]
  exact forall₂_congr fun s hs => Standing.nearest_iff_isDirect (howner s hs)

end SourceText

/-- In every text of a unit or a bundle each await has the function around it that is to be expected
from where it stands in the program. So awaits of asynchronous definitions stay in asynchronous
functions, unless they stand in a comprehension, a range that counts from a start or by a step, a
lambda, or the default of a function that is not asynchronous, or unless their definition is written
without its header. -/
theorem awaits_placed (options : Options) :
    (∀ (unit : SourceUnit) (output : String), unit.compile options = .ok output →
      unit.TextsHave options output SourceText.PlacesAwaits) ∧
    ∀ (bundle : Bundle) (output : String), bundle.compile options = .ok output →
      bundle.TextsHave options output SourceText.PlacesAwaits :=
  textsHave (fun t _ _ => t.placesAwaits) options

def awaitingSource : String :=
  "class A:\n async def m(self, p=await q):\n  return lambda: f(await r)\n"

def awaitingOutput : String :=
  "class A \x7b\n\x7d\nA.prototype.m = async function(p) \x7b\n" ++
  "    p = typeof(p) != 'undefined' ? p : await q;\n" ++
  "    return \n        () => \x7breturn f(await r)\x7d\n    ;\n\x7d;\nA.m = function() \x7b\n" ++
  "    return A.prototype.m.apply(arguments[0], Array.prototype.slice.call(arguments, 1));\n\x7d;\n"

def awaitingUnit : SourceUnit := ⟨awaitingSource, none, .module⟩

def awaitingBundle :
    Bundle := ⟨[(.function "async def k():\n return f(await r)\n" none, none)], none⟩

def awaitingBundleOutput : String := "async function k() \x7b\n    return f(await r);\n\x7d\n"

/-- An await in the default of an asynchronous method, and one in a lambda. -/
theorem awaiting_placed : (awaitingUnit.compile {} = .ok awaitingOutput ∧
      awaitingUnit.TextsHave {} awaitingOutput SourceText.PlacesAwaits ∧
      (SourceText.mk awaitingSource .module awaitingOutput).standings none =
        [⟨false, none, some (.default true)⟩, ⟨false, some true, some .lambda⟩]) ∧
    awaitingBundle.compile {} = .ok awaitingBundleOutput ∧
      awaitingBundle.TextsHave {} awaitingBundleOutput SourceText.PlacesAwaits := by
  have hunit : awaitingUnit.compile {} = .ok awaitingOutput := by decide +kernel
  have hbundle : awaitingBundle.compile {} = .ok awaitingBundleOutput := by decide +kernel
  exact ⟨⟨hunit, (awaits_placed {}).1 awaitingUnit _ hunit, by decide +kernel⟩,
    hbundle, (awaits_placed {}).2 awaitingBundle _ hbundle⟩

def gatheringSource : String := "async def f(xs):\n    return [await g(x) for x in xs]\n"

/-- An await in a comprehension of an asynchronous function ends up in a generator that is not
asynchronous. -/
theorem await_in_comprehension_misplaced : (SourceUnit.mk gatheringSource none .module).compile {} =
      .ok ("async function f(xs) \x7b\n    return [...(function* () \x7b for (const x of xs) " ++
        "\x7b yield await g(x) \x7d \x7d).call(this)];\n\x7d\n") ∧
      (SourceText.mk gatheringSource .module "").awaits
      none = [⟨false, some true, some .comprehension⟩] ∧
      ((SourceText.mk gatheringSource .module "").spans none).awaits = [some false] := by
  refine ⟨?_, ?_, ?_⟩ <;> decide +kernel

end ScriptCompiler
