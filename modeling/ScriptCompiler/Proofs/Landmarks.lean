import ScriptCompiler.Proofs.StatementDraft

/-!
# Landmarks

What a reader of a script takes note of: the functions, each with the header of its block if it has
one, and where the text says `await`. Landmarks are read off the spans of a draft, with an eye on
what stands before a function in its line.

The landmarks of a draft come from spots of the program: the functions that it defines, the
constructs that become functions in a script, and its awaits. Where drafts are put together, so are
the spots that they come from.
-/

namespace ScriptCompiler

/-- What a function of a script begins with. -/
inductive Opening where
  /-- The header of a function with a block. -/
  | block (header : String)
  /-- A function that is part of an expression. -/
  | expression (isAsync : Bool)
deriving DecidableEq, Repr

inductive Landmark where
  | await
  | function (opening : Opening) (inner : List Landmark)

/-! ## Reading drafts -/

namespace Script

/-- The text that an await begins with. -/
def awaitMark : String := "await "

/-- The text that an asynchronous function begins with. -/
def asyncText : List Char := "async ".toList

end Script

/-- The text of what stands before something in its line, from the nearest span on, as far as it is
known. -/
def headText? : List Span → Option String
  | [] => some ""
  | .text t :: before => (headText? before).map (· ++ t)
  | .introduction i :: before => (headText? before).map (· ++ i.text)
  | _ :: _ => none

/-- What a function with a block begins with: its parameters in parentheses, and a brace. -/
def Spans.blockHead? : Spans → Option String
  | .introduction i :: rest => (blockHead? rest).map (i.text ++ ·)
  | .text t :: rest =>
    if t = " \x7b" then some t
    else if t ∈ ["(", ", ", ")"] then (blockHead? rest).map (t ++ ·)
    else none
  | _ => none

/-- The header of a function with a block, given what stands before it in its line. -/
def Spans.header? (line : List Span) (inner : Spans) : Option String :=
  (headText? line).bind fun before => (blockHead? inner).map (before ++ ·)

namespace Span

def startsAsync : Span → Bool
  | .text t => Script.asyncText.isPrefixOf t.toList
  | _ => false

def endsAsync : Span → Bool
  | .text t => Script.asyncText.isSuffixOf t.toList
  | _ => false

def lineBehind (line : List Span) : Span → List Span
  | .margin _ => []
  | s => s :: line

end Span

def Spans.opening (line : List Span) (inner : Spans) : Opening :=
  match header? line inner with
  | some header => .block header
  | none => .expression (line.head?.any Span.endsAsync || inner.head?.any Span.startsAsync)

mutual

def Span.landmarks (line : List Span) : Span → List Landmark
  | .text t => if t = Script.awaitMark then [.await] else []
  | .guarded inner => landmarksFrom [] inner
  | .function inner => [.function (Spans.opening line inner) (landmarksFrom [] inner)]
  | .margin _ | .mention _ | .introduction _ => []

/-- The landmarks of spans, given what stands before them in their line. -/
def landmarksFrom (line : List Span) : List Span → List Landmark
  | [] => []
  | s :: rest => s.landmarks line ++ landmarksFrom (s.lineBehind line) rest

end

/-- The landmarks of a draft. -/
def Spans.landmarks (xs : Spans) : List Landmark := landmarksFrom [] xs

variable (line : List Span) (t : String) {inner : Spans} (rest : Spans) (formals : List Formal)

theorem landmarksFrom_nil : landmarksFrom line [] = [] := by
  rw [landmarksFrom]

theorem landmarksFrom_cons (s : Span) (rest : Spans) :
    landmarksFrom line (s :: rest) = s.landmarks line ++
    landmarksFrom (s.lineBehind line) rest := by
  rw [landmarksFrom]

theorem landmarksFrom_append (xs ys : Spans) :
    landmarksFrom line (xs ++ ys) = landmarksFrom line xs ++
    landmarksFrom (xs.foldl Span.lineBehind line) ys := by
  induction xs generalizing line with
  | nil => rw [List.nil_append, landmarksFrom_nil, List.nil_append, List.foldl_nil]
  | cons s rest ih =>
    rw [List.cons_append, landmarksFrom_cons, landmarksFrom_cons, ih, List.append_assoc,
      List.foldl_cons]

/-! ## Introduced names -/

mutual

def Span.introduced : Span → List Introduction
  | .introduction i => [i]
  | .guarded inner => introduced inner
  | .text _ | .margin _ | .mention _ | .function _ => []

/-- The names that spans introduce, in their order, except for those of the functions in them. -/
def introduced : List Span → List Introduction
  | [] => []
  | s :: rest => s.introduced ++ introduced rest

end

section Introduced

variable (xs ys : Spans)

@[simp] theorem introduced_nil : introduced [] = [] := by rw [introduced]

@[simp] theorem introduced_text : introduced (.text t :: xs) = introduced xs := by
  rw [introduced, Span.introduced, List.nil_append]

@[simp] theorem introduced_function (inner : Spans) :
    introduced (.function inner :: xs) = introduced xs := by
  rw [introduced, Span.introduced, List.nil_append]

@[simp] theorem introduced_guarded (inner : Spans) :
    introduced (.guarded inner :: xs) = introduced inner ++ introduced xs := by
  rw [introduced, Span.introduced]

@[simp] theorem introduced_append : introduced (xs ++ ys) = introduced xs ++ introduced ys := by
  induction xs with
  | nil => simp
  | cons s rest ih => rw [List.cons_append, introduced, introduced, ih, List.append_assoc]

end Introduced

/-! ## Spots -/

/-- What becomes a function in a script. -/
inductive Wrapper where
  | comprehension
  /-- The function that counts for a range. -/
  | counter
  | lambda
  | definition (isAsync : Bool) (header : String)

def Wrapper.opening : Wrapper → Opening
  | .definition _ header => .block header
  | .comprehension | .counter | .lambda => .expression false

/-- Where a landmark comes from. -/
inductive Spot where
  | await
  /-- A literal that reads like the beginning of an await. -/
  | literal
  /-- The defaults of a function are evaluated outside, but stand in it. -/
  | function (w : Wrapper) (defaults body : List Spot)

mutual

def Spot.landmark : Spot → Landmark
  | .await | .literal => .await
  | .function w defaults body => .function w.opening (spotLandmarks defaults ++ spotLandmarks body)

def spotLandmarks : List Spot → List Landmark
  | [] => []
  | spot :: rest => spot.landmark :: spotLandmarks rest

end

theorem spotLandmarks_nil : spotLandmarks [] = [] := by
  rw [spotLandmarks]

variable (spot : Spot)

theorem spotLandmarks_cons (rest : List Spot) :
    spotLandmarks (spot :: rest) = spot.landmark :: spotLandmarks rest := by
  rw [spotLandmarks]

theorem spotLandmarks_append (as bs : List Spot) :
    spotLandmarks (as ++ bs) = spotLandmarks as ++ spotLandmarks bs := by
  induction as with
  | nil => rw [List.nil_append, spotLandmarks_nil, List.nil_append]
  | cons spot rest ih =>
    rw [List.cons_append, spotLandmarks_cons, spotLandmarks_cons, ih, List.cons_append]

theorem ne_awaitMark_of_start {start : String} (h : ¬ start.toList <+: Script.awaitMark.toList)
    (t : String) : start ++ t ≠ Script.awaitMark := by
  rintro heq
  rw [← heq, String.toList_append] at h
  exact h (List.prefix_append _ _)

theorem ne_awaitMark_of_end {last : String} (h : ¬ last.toList <:+ Script.awaitMark.toList)
    (t : String) : t ++ last ≠ Script.awaitMark := by
  rintro heq
  rw [← heq, String.toList_append] at h
  exact h (List.suffix_append _ _)

/-- The spots of a text that is brought along from the program. -/
def literalSpots (t : String) : List Spot := if t = Script.awaitMark then [.literal] else []

/-! ### Headings -/

/-- A header, and whether the definition that it is for is asynchronous. -/
structure Heading where
  isAsync : Bool
  header : String
deriving DecidableEq, Repr

mutual

def Spot.headings : Spot → List Heading
  | .await | .literal => []
  | .function (.definition isAsync header) defaults body =>
    ⟨isAsync, header⟩ :: (spotHeadings defaults ++ spotHeadings body)
  | .function .comprehension defaults body | .function .counter defaults body
  | .function .lambda defaults body =>
    spotHeadings defaults ++ spotHeadings body

def spotHeadings : List Spot → List Heading
  | [] => []
  | spot :: rest => spot.headings ++ spotHeadings rest

end

@[simp] theorem spotHeadings_nil : spotHeadings [] = [] := by
  rw [spotHeadings]

@[simp] theorem spotHeadings_cons (rest : List Spot) :
    spotHeadings (spot :: rest) = spot.headings ++ spotHeadings rest := by
  rw [spotHeadings]

@[simp] theorem spotHeadings_append (as bs : List Spot) :
    spotHeadings (as ++ bs) = spotHeadings as ++ spotHeadings bs := by
  induction as with
  | nil => simp
  | cons spot rest ih => simp [ih, List.append_assoc]

@[simp] theorem spotHeadings_literalSpots : spotHeadings (literalSpots t) = [] := by
  unfold literalSpots
  split_ifs <;> simp [Spot.headings]

/-! ## Openings -/

namespace Spans

theorem header?_eq_none (h : blockHead? inner = none) (line : List Span) :
    header? line inner = none := by
  rw [header?, h]
  cases headText? line <;> rfl

theorem opening_expression (h : blockHead? inner = none) (line : List Span)
    (hline : line.head?.any Span.endsAsync = false)
    (hinner : inner.head?.any Span.startsAsync = false) :
    opening line inner = .expression false := by
  rw [opening, header?_eq_none h, hline, hinner]
  rfl

theorem opening_block {line : List Span} {before head : String}
    (hline : headText? line = some before)
    (h : blockHead? inner = some head) : opening line inner = .block (before ++ head) := by
  rw [opening, header?, hline, h]
  rfl

theorem blockHead?_parameter (name : String) (rest : Spans) :
    blockHead? (parameter name :: rest) = (blockHead? rest).map (name ++ ·) := rfl

theorem blockHead?_paren : blockHead? (.text "(" :: rest) = (blockHead? rest).map ("(" ++ ·) := rfl

theorem blockHead?_comma :
    blockHead? (.text ", " :: rest) = (blockHead? rest).map (", " ++ ·) := rfl

/-- A signature with a block behind it is the head of a block. -/
theorem blockHead?_signature (rest : Spans) :
    blockHead? (signature formals ++ .text " \x7b" :: rest) =
      some (Script.parens (Script.commas (formals.map (·.name))) ++ " \x7b") := by
  have hparameters : blockHead? (Spans.commas (formals.map fun f => [parameter f.name]) ++
      .text ")" :: .text " \x7b" :: rest) =
      some (Script.commas (formals.map (·.name)) ++ (")" ++ " \x7b")) := by
    induction formals with
    | nil => rfl
    | cons first more ih =>
      cases more with
      | nil =>
        rfl
      | cons second more =>
        rw [List.map_cons, List.map_cons, Spans.commas, List.intercalate_cons_cons, List.map_cons,
          List.map_cons,
          Script.commas, String.intercalate_cons_cons]
        rw [Spans.commas, Script.commas, List.map_cons] at ih
        rw [List.append_assoc, List.append_assoc, List.singleton_append, List.singleton_append,
          blockHead?_parameter,
          blockHead?_comma, ih]
        simp [String.append_assoc]
  rw [signature, Spans.parens, List.append_assoc, List.cons_append, blockHead?_paren,
    List.singleton_append, hparameters]
  simp [Script.parens, String.append_assoc]

theorem blockHead?_arrow (body : Spans) :
    blockHead? (Spans.parens (arrowSignature formals) ++ .text " => " :: body) = none := by
  have harrow : blockHead? (.text ")" :: .text " => " :: body) = none := rfl
  have hparameters :
      blockHead? (arrowSignature formals ++ .text ")" :: .text " => " :: body) = none := by
    unfold arrowSignature
    induction formals with
    | nil => rfl
    | cons first more ih =>
      cases hdefault : first.default with
      | some default =>
        cases more with
        | nil => simp [Spans.commas, hdefault, parameter, blockHead?]
        | cons second more =>
          simp [Spans.commas, List.intercalate_cons_cons, hdefault, parameter, blockHead?]
      | none =>
        cases more with
        | nil => simp [Spans.commas, hdefault, blockHead?_parameter, harrow]
        | cons second more =>
          rw [List.map_cons, List.map_cons, Spans.commas, List.intercalate_cons_cons]
          rw [List.map_cons, Spans.commas] at ih
          simp only [hdefault]
          rw [List.append_assoc, List.append_assoc, List.singleton_append, List.singleton_append,
            blockHead?_parameter, blockHead?_comma, ih]
          rfl
  rw [Spans.parens, List.append_assoc, List.cons_append, blockHead?_paren, List.singleton_append,
    hparameters]
  rfl

end Spans

end ScriptCompiler
