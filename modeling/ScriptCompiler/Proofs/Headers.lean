import ScriptCompiler.Proofs.StatementContents

/-!
# Headers

The headers of the functions with a block in a draft, from the outside to the inside. Each of them
stands in the text of the draft as it is. The functions that expressions become have no headers.
-/

namespace ScriptCompiler

variable {before text : String} {line : List Span} {inner xs : Spans} {ass : List (List Spot)}

mutual

def Landmark.headers : Landmark → List String
  | .await => []
  | .function (.block header) inner => header :: landmarkHeaders inner
  | .function (.expression _) inner => landmarkHeaders inner

def landmarkHeaders : List Landmark → List String
  | [] => []
  | landmark :: rest => landmark.headers ++ landmarkHeaders rest

end

/-- The headers in a draft. -/
def Spans.headers (xs : Spans) : List String := landmarkHeaders xs.landmarks

theorem landmarkHeaders_nil : landmarkHeaders [] = [] := by
  rw [landmarkHeaders]

variable (landmark : Landmark) (p : Place)

theorem landmarkHeaders_cons (rest : List Landmark) :
    landmarkHeaders (landmark :: rest) = landmark.headers ++ landmarkHeaders rest := by
  rw [landmarkHeaders]

theorem landmarkHeaders_append (ls ms : List Landmark) :
    landmarkHeaders (ls ++ ms) = landmarkHeaders ls ++ landmarkHeaders ms := by
  induction ls with
  | nil => rw [List.nil_append, landmarkHeaders_nil, List.nil_append]
  | cons landmark rest ih =>
    rw [List.cons_append, landmarkHeaders_cons, landmarkHeaders_cons, ih, List.append_assoc]

theorem landmarkHeaders_singleton : landmarkHeaders [landmark] = landmark.headers := by
  rw [landmarkHeaders_cons, landmarkHeaders_nil, List.append_nil]

/-! ## Headers in texts -/

section Printed

variable {ed : Edition}

/-- What is known of the line before something is the end of the text before it. -/
def EndsWithLine (before : String) (line : List Span) : Prop :=
  ∀ t, headText? line = some t → t.toList <:+ before.toList

theorem EndsWithLine.nil (before : String) : EndsWithLine before [] := by
  intro t ht
  obtain rfl : "" = t := Option.some_inj.mp ht
  exact List.nil_suffix

theorem EndsWithLine.behind {s : Span} (h : EndsWithLine before line)
    (hs : s.print? ed = some text) : EndsWithLine (before ++ text) (s.lineBehind line) := by
  have hextends : ∀ u, u = text → ∀ t, (headText? line).map (· ++ u) = some t →
      t.toList <:+ (before ++ text).toList := by
    rintro u rfl t ht
    obtain ⟨t', ht', rfl⟩ := Option.map_eq_some_iff.mp ht
    obtain ⟨start, hstart⟩ := h t' ht'
    exact ⟨start, by rw [String.toList_append, String.toList_append, ← List.append_assoc, hstart]⟩
  cases s with
  | text u => exact hextends u (Option.some_inj.mp ((Span.print?_text ed u).symm.trans hs))
  | introduction i =>
    exact hextends i.text (Option.some_inj.mp ((Span.print?_introduction ed i).symm.trans hs))
  | margin depth => exact .nil _
  | mention | guarded | function =>
    intro t ht
    cases ht

theorem Spans.prefix_of_blockHead? {head : String} (hhead : blockHead? inner = some head)
    (htext : inner.Prints ed text) : head.toList <+: text.toList := by
  induction inner generalizing head text with
  | nil => cases hhead
  | cons s rest ih =>
    rw [Spans.Prints, printAll?_cons, Option.bind_eq_some_iff] at htext
    obtain ⟨first, hfirst, htext⟩ := htext
    obtain ⟨behind, hbehind, rfl⟩ := Option.map_eq_some_iff.mp htext
    have hcontinues : (blockHead? rest).map (first ++ ·) = some head →
        head.toList <+: (first ++ behind).toList := by
      intro h
      obtain ⟨more, hmore, rfl⟩ := Option.map_eq_some_iff.mp h
      rw [String.toList_append, String.toList_append]
      exact (List.prefix_append_right_inj _).mpr (ih hmore hbehind)
    cases s with
    | introduction i =>
      obtain rfl := Option.some_inj.mp ((Span.print?_introduction ed i).symm.trans hfirst)
      exact hcontinues hhead
    | text t =>
      obtain rfl := Option.some_inj.mp ((Span.print?_text ed t).symm.trans hfirst)
      rw [blockHead?] at hhead
      split_ifs at hhead with hopen hinside
      · obtain rfl := Option.some_inj.mp hhead
        rw [String.toList_append]
        exact List.prefix_append _ _
      · exact hcontinues hhead
    | margin | mention | guarded | function => cases hhead

theorem Spans.infix_of_header? {header : String}
    (hline : EndsWithLine before line) (hheader : header? line inner = some header)
    (htext : inner.Prints ed text) : header.toList <:+: (before ++ text).toList := by
  obtain ⟨t, ht, hmap⟩ := Option.bind_eq_some_iff.mp hheader
  obtain ⟨head, hhead, rfl⟩ := Option.map_eq_some_iff.mp hmap
  obtain ⟨start, hstart⟩ := hline t ht
  obtain ⟨rest, hrest⟩ := prefix_of_blockHead? hhead htext
  refine ⟨start, rest, ?_⟩
  rw [String.toList_append, String.toList_append, ← hstart, ← hrest]
  simp only [List.append_assoc]

theorem Script.infix_guarded (text : String) : text.toList <:+: (Script.guarded text).toList := by
  unfold Script.guarded
  split_ifs
  · exact ⟨['('], [')'], by simp [Script.parens]⟩
  · exact List.infix_rfl

mutual

/-- The headers of a span stand in its text, together with what stands before it in its line. -/
theorem Span.infix_of_mem_headers :
    ∀ (s : Span) {line : List Span} {before text : String}, EndsWithLine before line →
    s.print? ed = some text → ∀ header ∈ landmarkHeaders (s.landmarks line),
    header.toList <:+: (before ++ text).toList
  | s, line, before, text, hline, hs => by
    cases s with
    | text t =>
      rw [Span.landmarks]
      split_ifs
      · exact List.forall_mem_nil _
      · exact List.forall_mem_nil _
    | guarded inner =>
      obtain ⟨text, htext, rfl⟩ := Option.map_eq_some_iff.mp hs
      intro header hheader
      have hinner := infix_of_mem_headersFrom inner (.nil "") htext header hheader
      rw [String.toList_append]
      exact (hinner.trans (Script.infix_guarded text)).trans (List.suffix_append _ _).isInfix
    | function inner =>
      rw [Span.landmarks, landmarkHeaders_singleton]
      have hinner : ∀ header ∈ landmarkHeaders (landmarksFrom [] inner),
          header.toList <:+: (before ++ text).toList := by
        intro header hheader
        have hinner := infix_of_mem_headersFrom inner (.nil "") hs header hheader
        rw [String.toList_append]
        exact hinner.trans (List.suffix_append _ _).isInfix
      unfold Spans.opening
      cases hheader : Spans.header? line inner with
      | none =>
        exact hinner
      | some header =>
        rw [Landmark.headers, List.forall_mem_cons]
        exact ⟨Spans.infix_of_header? hline hheader hs, hinner⟩
    | margin | mention | introduction =>
      exact List.forall_mem_nil _

theorem infix_of_mem_headersFrom : ∀ (xs : List Span) {line : List Span} {before text : String},
    EndsWithLine before line → Spans.Prints ed xs text →
      ∀ header ∈ landmarkHeaders (landmarksFrom line xs), header.toList <:+: (before ++ text).toList
  | [], line, before, text, _, _ => by
    exact List.forall_mem_nil _
  | s :: rest, line, before, text, hline, htext => by
    rw [Spans.Prints, printAll?_cons, Option.bind_eq_some_iff] at htext
    obtain ⟨first, hfirst, htext⟩ := htext
    obtain ⟨behind, hbehind, rfl⟩ := Option.map_eq_some_iff.mp htext
    have hrest := infix_of_mem_headersFrom rest (hline.behind hfirst) hbehind
    rw [landmarksFrom_cons, landmarkHeaders_append, List.forall_mem_append, ← String.append_assoc]
    refine ⟨fun header hheader => ?_, hrest⟩
    have hhere := s.infix_of_mem_headers hline hfirst header hheader
    have hwhole : (before ++ first ++ behind).toList = (before ++ first).toList ++ behind.toList :=
      String.toList_append
    rw [hwhole]
    exact hhere.trans (List.prefix_append _ _).isInfix

end

/-- The headers of a draft stand in its text. -/
theorem Spans.infix_of_mem_headers (h : xs.Prints ed text) :
    ∀ header ∈ xs.headers, header.toList <:+: text.toList := by
  have hheaders := infix_of_mem_headersFrom xs (.nil "") h
  rwa [String.empty_append] at hheaders

end Printed

/-! ## Headings of spots -/

theorem spotHeadings_flatten (h : ∀ as ∈ ass, spotHeadings as = []) :
    spotHeadings ass.flatten = [] := by
  induction ass with
  | nil => simp
  | cons as rest ih =>
    rw [List.forall_mem_cons] at h
    simp [h.1, ih h.2]

mutual

theorem Spot.headers_landmark : ∀ spot : Spot, spot.landmark.headers = spot.headings.map (·.header)
  | .await | .literal => by rw [Spot.landmark, Landmark.headers, Spot.headings, List.map_nil]
  | .function w defaults body => by
    have hdefaults := landmarkHeaders_spotLandmarks defaults
    have hbody := landmarkHeaders_spotLandmarks body
    cases w <;>
      simp [Spot.landmark, Wrapper.opening, Landmark.headers, Spot.headings, landmarkHeaders_append,
      hdefaults, hbody]

theorem landmarkHeaders_spotLandmarks :
    ∀ spots : List Spot, landmarkHeaders (spotLandmarks spots) = (spotHeadings spots).map (·.header)
  | [] => by rw [spotLandmarks_nil, landmarkHeaders_nil, spotHeadings_nil, List.map_nil]
  | spot :: rest => by
    rw [spotLandmarks_cons, landmarkHeaders_cons, spotHeadings_cons, spot.headers_landmark,
      landmarkHeaders_spotLandmarks rest, List.map_append]

end

theorem Spans.MadeOf.headers {A : Prop} {l : Layer} {c : Contents} (h : xs.MadeOf A l c) :
    xs.headers = (spotHeadings c.spots).map (·.header) := by
  rw [Spans.headers, Spans.landmarks, h.landmarks, landmarkHeaders_spotLandmarks]

/-! ## Expressions -/

/-- There are no headers in expressions. -/
theorem Expr.spotHeadings_spots (e : Expr) : spotHeadings (e.spots p) = [] :=
  (e.made (A := False) (l := .expression) p).headless (by decide)

theorem spotHeadings_values (es : List Expr) : spotHeadings (es.map (·.spots p)).flatten = [] := by
  refine spotHeadings_flatten ?_
  rw [List.forall_mem_map]
  exact fun e _ => e.spotHeadings_spots p

theorem spotHeadings_optional (e : Option Expr) : spotHeadings (optionalSpots p e) = [] := by
  rw [optionalSpots_eq]
  exact spotHeadings_values p _

theorem spotHeadings_items (items : List Expr) : spotHeadings (itemSpots p items).flatten = [] := by
  rw [itemSpots_eq]
  have hunstarred := spotHeadings_values p (items.map (·.unstarred))
  rwa [List.map_map] at hunstarred

theorem spotHeadings_defaults (parameters : List Parameter) :
    ∀ as ∈ formalSpots p parameters, spotHeadings as = [] := by
  fun_induction formalContents p parameters with
  | case1 | case4 pos construct rest => exact List.forall_mem_nil _
  | case2 name rest ih => exact List.forall_mem_cons.mpr ⟨spotHeadings_nil, ih⟩
  | case3 name value rest ih => exact List.forall_mem_cons.mpr ⟨value.spotHeadings_spots p, ih⟩

end ScriptCompiler
