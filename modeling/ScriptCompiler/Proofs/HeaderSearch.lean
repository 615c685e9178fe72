import Mathlib.Tactic.SplitIfs
import ScriptCompiler.Bundle
import ScriptCompiler.Proofs.Lexing
import ScriptCompiler.Proofs.Elementary

/-!
# Searching for headers

The header of a function is searched for line by line. `FunctionHeader` says what a header is
without the search. The search finds the first one, and giving its function another name changes
nothing else, so that the last of several names is the one that stays.
-/

namespace ScriptCompiler

namespace Header

/-! ## Line starts -/

section Search

variable {α : Type} {find : List Char → Option α} {atStart : Bool}
  {text lead line : List Char} {a : α}

/-- Whether a line starts behind a text: its last character is a line feed. An empty text leaves it
as it is. -/
def startsLine (atStart : Bool) (lead : List Char) : Bool := lead.getLast?.elim atStart (· = '\n')

theorem startsLine_cons (atStart : Bool) (c : Char) (lead : List Char) :
    startsLine atStart (c :: lead) = startsLine (c = '\n') lead := by
  cases lead with
  | nil => rfl
  | cons d lead => simp [startsLine, List.getLast?_cons]

theorem exists_of_searchLines (h : searchLines find atStart text = some (lead, a)) :
    startsLine atStart lead = true ∧ ∃ line, text = lead ++ line ∧ find line = some a := by
  induction text generalizing atStart lead with
  | nil =>
    rw [searchLines] at h
    split_ifs at h with hstart
    obtain ⟨_, hfind, heq⟩ := Option.map_eq_some_iff.1 h
    cases heq
    exact ⟨hstart, [], rfl, hfind⟩
  | cons c text ih =>
    rw [searchLines] at h
    split at h
    · next hhere =>
      cases h
      split_ifs at hhere with hstart
      exact ⟨hstart, c :: text, rfl, hhere⟩
    · obtain ⟨_, hsearch, heq⟩ := Option.map_eq_some_iff.1 h
      cases heq
      obtain ⟨hstart, line, rfl, hfind⟩ := ih hsearch
      exact ⟨(startsLine_cons _ _ _).trans hstart, line, rfl, hfind⟩

theorem exists_searchLines (hstart : startsLine atStart lead = true) (hfind : find line = some a) :
    ∃ lead' a', searchLines find atStart (lead ++ line) = some (lead', a') ∧
    lead'.length ≤ lead.length := by
  induction lead generalizing atStart with
  | nil =>
    have hstart : atStart = true := hstart
    cases line <;> exact ⟨[], a, by simp [searchLines, hstart, hfind], le_rfl⟩
  | cons c lead ih =>
    rw [List.cons_append, searchLines]
    split
    · next found _ => exact ⟨[], found, rfl, Nat.zero_le _⟩
    · obtain ⟨lead', a', hsearch, hle⟩ := ih ((startsLine_cons _ _ _).symm.trans hstart)
      exact ⟨c :: lead', a', by rw [hsearch]; rfl, Nat.succ_le_succ hle⟩

end Search

/-! ## Headers of functions -/

def IsGap (gap : List Char) : Prop := gap ≠ [] ∧ ∀ c ∈ gap, isInline c = true

/-- What stands before the name in a header: blanks, `async` unless it is left out, and `def`. -/
def IsOpening (cs : List Char) : Prop :=
  ∃ indent mark gap, cs = indent ++ (mark ++ ("def".toList ++ gap)) ∧
    (∀ c ∈ indent, isInline c = true) ∧
    (mark = [] ∨ ∃ gap, mark = "async".toList ++ gap ∧ IsGap gap) ∧ IsGap gap

/-- A plain identifier. -/
def IsPlainName (name : List Char) : Prop :=
  ∃ c cs, name = c :: cs ∧ Identifier.isPlainStart c = true ∧
    ∀ d ∈ cs, Identifier.isPlainContinue d = true

/-- A header at the start of a line, with a name that goes as far as it can. -/
structure IsHeader (line : List Char) (found : Found) : Prop where
  eq_append : line = found.before ++ (found.name ++ found.after)
  opening : IsOpening found.before
  plain : IsPlainName found.name
  longest : ∀ c ∈ found.after.head?, Identifier.isPlainContinue c = false

/-- A header in a text, behind the lines that precede it. -/
def FunctionHeader (text lead : List Char) (found : Found) : Prop :=
  startsLine true lead = true ∧ ∃ line, text = lead ++ line ∧ IsHeader line found

/-- The header that no other one precedes. -/
def FirstHeader (text lead : List Char) (found : Found) : Prop :=
  FunctionHeader text lead found ∧ ∀ lead' found', FunctionHeader text lead' found' →
    lead.length ≤ lead'.length

variable {cs rest name after line text lead given : List Char} {found : Found}

theorem afterWord?_eq_some_iff {word : String} : afterWord? isInline word cs = some rest ↔
    ∃ gap, cs = word.toList ++ (gap ++ rest) ∧ IsGap gap ∧
    ∀ c ∈ rest.head?, isInline c = false := by
  unfold afterWord?
  constructor
  · intro h
    dsimp only at h
    split_ifs at h with hword hgap
    cases h
    obtain ⟨tail, rfl⟩ := List.isPrefixOf_iff_prefix.1 hword
    rw [List.drop_left] at hgap ⊢
    refine ⟨tail.takeWhile isInline, by rw [List.takeWhile_append_dropWhile],
      ⟨?_, fun c => List.mem_takeWhile_imp⟩,
      head?_dropWhile_eq_false _ _⟩
    cases tail with
    | nil => cases hgap
    | cons c tail =>
      have hc : isInline c = true := hgap
      simp [hc]
  · rintro ⟨gap, rfl, ⟨hne, hgap⟩, hrest⟩
    have hany : (gap ++ rest).head?.any isInline = true := by
      obtain ⟨c, gap, rfl⟩ := List.exists_cons_of_ne_nil hne
      exact hgap c List.mem_cons_self
    have hword : word.toList.isPrefixOf (word.toList ++ (gap ++ rest)) = true :=
      List.isPrefixOf_iff_prefix.2 (List.prefix_append _ _)
    simp only [hword, List.drop_left, hany, if_true, (span_append hgap hrest).2]

theorem splitPlain?_eq_some_iff : Identifier.splitPlain? cs = some (name, after) ↔
    cs = name ++ after ∧ IsPlainName name ∧ ∀ c ∈ after.head?, Identifier.isPlainContinue c =
    false := by
  constructor
  · intro h
    unfold Identifier.splitPlain? at h
    split at h
    · cases h
    · next c rest =>
      split_ifs at h with hstart
      cases h
      exact ⟨by rw [List.cons_append, List.takeWhile_append_dropWhile],
        ⟨c, _, rfl, hstart, fun d => List.mem_takeWhile_imp⟩, head?_dropWhile_eq_false _ _⟩
  · rintro ⟨rfl, ⟨c, cs, rfl, hstart, hcs⟩, hafter⟩
    obtain ⟨htake, hdrop⟩ := span_append hcs hafter
    rw [List.cons_append, Identifier.splitPlain?, if_pos hstart, htake, hdrop]

theorem isInline_of_isPlainStart {c : Char} (h : Identifier.isPlainStart c = true) :
    isInline c = false := by
  refine Bool.eq_false_iff.2 fun hinline => ?_
  have hcases : c = ' ' ∨ c = '\t' := by simpa [isInline, isIndentation] using hinline
  rcases hcases with rfl | rfl <;> cases h

/-- What follows an `async` that may be left out. -/
theorem getD_afterWord?_eq_iff : (afterWord? isInline "async" cs).getD cs = "def".toList ++ rest ↔
    ∃ mark, cs = mark ++ ("def".toList ++ rest) ∧
    (mark = [] ∨ ∃ gap, mark = "async".toList ++ gap ∧ IsGap gap) := by
  constructor
  · intro h
    cases hword : afterWord? isInline "async" cs with
    | none => exact ⟨[], by simpa [hword] using h, .inl rfl⟩
    | some _ =>
      rw [hword, Option.getD_some] at h
      obtain ⟨gap, heq, hgap, -⟩ := afterWord?_eq_some_iff.1 hword
      exact ⟨"async".toList ++ gap, by rw [heq, h, List.append_assoc], .inr ⟨gap, rfl, hgap⟩⟩
  · rintro ⟨_, rfl, rfl | ⟨gap, rfl, hgap⟩⟩
    · rfl
    · rw [List.append_assoc,
        afterWord?_eq_some_iff.2 ⟨gap, rfl, hgap, by simp [isInline, isIndentation]⟩]
      rfl

theorem functionName?_eq_some_iff : functionName? isInline line = some (name, after) ↔
    ∃ before, IsHeader line ⟨before, name, after⟩ := by
  simp only [functionName?, Option.bind_eq_bind, Option.bind_eq_some_iff, afterWord?_eq_some_iff,
    splitPlain?_eq_some_iff, getD_afterWord?_eq_iff]
  constructor
  · rintro ⟨_, ⟨gap, ⟨mark, hline, hmark⟩, hgap, -⟩, rfl, hplain, hlongest⟩
    refine ⟨line.takeWhile isInline ++ (mark ++ ("def".toList ++ gap)), ?_,
      ⟨_, mark, gap, rfl, fun c => List.mem_takeWhile_imp, hmark, hgap⟩, hplain, hlongest⟩
    simp only [List.append_assoc]
    rw [← hline, List.takeWhile_append_dropWhile]
  · rintro ⟨_, rfl, ⟨indent, mark, gap, rfl, hindent, hmark, hgap⟩, hplain, hlongest⟩
    refine ⟨_, ⟨gap, ⟨mark, ?_, hmark⟩, hgap, ?_⟩, rfl, hplain, hlongest⟩
    · simp only [List.append_assoc]
      refine (span_append hindent ?_).2
      rcases hmark with rfl | ⟨g, rfl, -⟩ <;> simp [isInline, isIndentation]
    · obtain ⟨c, cs, rfl, hstart, -⟩ := hplain
      simpa using isInline_of_isPlainStart hstart

theorem functionHeader?_eq_some_iff : functionHeader? line = some found ↔ IsHeader line found := by
  have hbefore {before name after : List Char} (heq : line = before ++ (name ++ after)) :
      (consumed line after).take ((consumed line after).length - name.length) = before := by
    have hconsumed : consumed line after = before ++ name := by
      simp [consumed, heq, ← List.append_assoc]
    simp [hconsumed]
  constructor
  · intro h
    obtain ⟨⟨name, after⟩, hname, heq⟩ := Option.bind_eq_some_iff.1 h
    obtain ⟨before, hheader⟩ := functionName?_eq_some_iff.1 hname
    cases heq
    rwa [hbefore hheader.eq_append]
  · intro h
    rw [functionHeader?, functionName?_eq_some_iff.2 ⟨_, h⟩]
    simp only [Option.bind_eq_bind, Option.bind_some, hbefore h.eq_append, Option.pure_def]

/-! ## The first header -/

theorem searchLines_eq_some_iff : searchLines functionHeader? true text = some (lead, found) ↔
    FirstHeader text lead found := by
  constructor
  · intro h
    obtain ⟨hstart, line, htext, hfind⟩ := exists_of_searchLines h
    refine ⟨⟨hstart, line, htext, functionHeader?_eq_some_iff.1 hfind⟩, ?_⟩
    rintro lead' found' ⟨hstart', line', rfl, hheader'⟩
    obtain ⟨_, _, hsearch, hle⟩ :=
      exists_searchLines hstart' (functionHeader?_eq_some_iff.2 hheader')
    cases h.symm.trans hsearch
    exact hle
  · rintro ⟨⟨hstart, line, rfl, hheader⟩, hfirst⟩
    have hfind := functionHeader?_eq_some_iff.2 hheader
    obtain ⟨lead', found', hsearch, hle⟩ := exists_searchLines hstart hfind
    obtain ⟨hstart', line', htext, hfind'⟩ := exists_of_searchLines hsearch
    have hge := hfirst lead' found' ⟨hstart', line', htext, functionHeader?_eq_some_iff.1 hfind'⟩
    obtain ⟨rfl, rfl⟩ := List.append_inj htext (Nat.le_antisymm hge hle)
    cases hfind.symm.trans hfind'
    exact hsearch

/-- A header stays on its line. -/
theorem IsHeader.newline_not_mem (h : IsHeader line found) : '\n' ∉ found.before ++ found.name := by
  have hinline (cs : List Char) (hcs : ∀ c ∈ cs, isInline c = true) : '\n' ∉ cs :=
    fun hmem => absurd (hcs _ hmem) (by decide)
  obtain ⟨-, ⟨indent, mark, gap, hbefore, hindent, hmark, -, hgap⟩,
      ⟨c, cs, hname, hstart, hcs⟩, -⟩ := h
  have hmark : '\n' ∉ mark := by
    rcases hmark with rfl | ⟨g, rfl, -, hg⟩
    · exact List.not_mem_nil
    · simpa using hinline g hg
  have hname : '\n' ∉ found.name := by
    rw [hname, List.mem_cons]
    rintro (rfl | hmem)
    · cases hstart
    · exact absurd (hcs _ hmem) (by decide)
  simpa [hbefore, hname] using ⟨hinline indent hindent, hmark, hinline gap hgap⟩

theorem IsHeader.of_line (h : IsHeader (line ++ '\n' :: rest) found) (rest' : List Char) :
    ∃ found', IsHeader (line ++ '\n' :: rest') found' := by
  have heq : (found.before ++ found.name) ++ found.after = line ++ '\n' :: rest := by
    rw [h.eq_append, List.append_assoc]
  obtain ⟨tail, hline, hafter⟩ : ∃ tail, line = found.before ++ found.name ++ tail ∧
      found.after = tail ++ '\n' :: rest := by
    rcases List.append_eq_append_iff.1 heq with ⟨tail, hline, hafter⟩ | ⟨_ | ⟨c, tail⟩,
      hname, hrest⟩
    · exact ⟨tail, hline, hafter⟩
    · exact ⟨[], by simpa using hname.symm, hrest.symm⟩
    · -- the name would go on behind the line
      cases (List.cons.inj hrest).1
      exact absurd (hname ▸ List.mem_append_right _ List.mem_cons_self) h.newline_not_mem
  refine ⟨⟨found.before, found.name, tail ++ '\n' :: rest'⟩, by simp [hline], h.opening,
    h.plain, ?_⟩
  cases tail with
  | nil => simp [show Identifier.isPlainContinue '\n' = false from rfl]
  | cons c tail =>
    have hlongest := h.longest
    rw [hafter] at hlongest
    exact hlongest

theorem exists_line_of_lt {lead' line' : List Char} (hstart : startsLine true lead = true)
    (heq : lead ++ line = lead' ++ line') (hlt : lead'.length < lead.length) :
    ∃ front, lead = lead' ++ front ++ ['\n'] := by
  have hprefix : lead' <+: lead ++ line := ⟨line', heq.symm⟩
  obtain ⟨mid, rfl⟩ := List.prefix_of_prefix_length_le hprefix (List.prefix_append _ _) hlt.le
  rcases List.eq_nil_or_concat mid with rfl | ⟨front, c, rfl⟩
  · simp at hlt
  · have hc : c = '\n' := by simpa [startsLine, ← List.append_assoc] using hstart
    exact ⟨front, by rw [hc, List.concat_eq_append, List.append_assoc]⟩

/-- With another name the first header is still the first one. -/
theorem FirstHeader.rename (h : FirstHeader text lead found) (hgiven : IsPlainName given) :
    FirstHeader (lead ++ (found.before ++ (given ++ found.after))) lead
    { found with name := given } := by
  obtain ⟨⟨hstart, line, rfl, hheader⟩, hfirst⟩ := h
  refine ⟨⟨hstart, _, rfl, rfl, hheader.opening, hgiven, hheader.longest⟩, ?_⟩
  rintro lead' found' ⟨hstart', line', heq, hheader'⟩
  by_contra hlt
  -- a header on an earlier line is in both texts
  obtain ⟨front, rfl⟩ := exists_line_of_lt hstart heq (Nat.not_le.1 hlt)
  simp only [List.append_assoc, List.append_cancel_left_eq, List.singleton_append] at heq
  obtain ⟨found'', hheader''⟩ := (heq ▸ hheader').of_line line
  exact hlt (hfirst lead' found'' ⟨hstart', _, by simp, hheader''⟩)

theorem exists_firstHeader_or_none (text : List Char) :
    (∃ lead found, FirstHeader text lead found) ∨
      searchLines functionHeader? true text = none ∧ ∀ lead found,
      ¬ FunctionHeader text lead found := by
  cases hsearch : searchLines functionHeader? true text with
  | none =>
    refine .inr ⟨rfl, ?_⟩
    rintro lead found ⟨hstart, line, rfl, hheader⟩
    obtain ⟨_, _, hfound, -⟩ := exists_searchLines hstart (functionHeader?_eq_some_iff.2 hheader)
    cases hsearch.symm.trans hfound
  | some found => exact .inl ⟨_, _, searchLines_eq_some_iff.1 hsearch⟩

end Header

open Header

theorem renameFunction_of_firstHeader {source : String} {lead : List Char} {found : Found}
    (h : FirstHeader source.toList lead found) (given : String) :
    renameFunction source given =
    .ok (String.ofList (lead ++ (found.before ++ (given.toList ++ found.after)))) := by
  simp [renameFunction, renameFunction?, searchLines_eq_some_iff.2 h]

/-- A function is renamed exactly if there is a header. The name in the first header is replaced and
nothing else, and a further name replaces the one that was given. -/
theorem renameFunction_replaces_first_name (source given other : String)
    (hgiven : IsPlainName given.toList) :
    ((∃ renamed, renameFunction source given = .ok renamed) ↔
      ∃ lead found, FunctionHeader source.toList lead found) ∧
    (∀ renamed, renameFunction source given = .ok renamed ↔
    ∃ lead found, FirstHeader source.toList lead found ∧
      renamed.toList = lead ++ (found.before ++ (given.toList ++ found.after))) ∧
    (renameFunction source given).bind (fun renamed => renameFunction renamed other) =
      renameFunction source other := by
  rcases exists_firstHeader_or_none source.toList with ⟨lead, found, hfirst⟩ | ⟨hsearch, hnone⟩
  · have hgiven' := renameFunction_of_firstHeader hfirst given
    refine ⟨⟨fun _ => ⟨lead, found, hfirst.1⟩, fun _ => ⟨_, hgiven'⟩⟩,
      fun renamed => ⟨fun h => ?_, ?_⟩, ?_⟩
    · cases hgiven'.symm.trans h
      exact ⟨lead, found, hfirst, String.toList_ofList⟩
    · rintro ⟨lead', found', hfirst', heq⟩
      rw [renameFunction_of_firstHeader hfirst' given, ← heq, String.ofList_toList]
    · have hrenamed := hfirst.rename hgiven
      rw [← String.toList_ofList (l := lead ++ _)] at hrenamed
      rw [hgiven', renameFunction_of_firstHeader hfirst other]
      exact renameFunction_of_firstHeader hrenamed other
  · have herror (name : String) : renameFunction source name = .error .missingFunctionHeader := by
      simp [renameFunction, renameFunction?, hsearch]
    have hfirst (lead : List Char) (found : Found) : ¬ FirstHeader source.toList lead found :=
      fun h => hnone lead found h.1
    simp [herror, hnone, hfirst, Except.bind]

/-- The header stands on the second line; the text of another one is a comment. -/
theorem renameFunction_replaces_first_name_of_comment :
    IsPlainName "run".toList ∧
      (renameFunction "# def old(x):\n\tasync  def go2(a): pass\ndef go2(): pass" "run").bind
          (fun renamed => renameFunction renamed "stop") =
        .ok "# def old(x):\n\tasync  def stop(a): pass\ndef go2(): pass" := by
  have hplain : IsPlainName "run".toList := ⟨'r', ['u', 'n'], rfl, rfl, List.all_eq_true.1 rfl⟩
  have hother : renameFunction "# def old(x):\n\tasync  def go2(a): pass\ndef go2(): pass" "stop" =
      .ok "# def old(x):\n\tasync  def stop(a): pass\ndef go2(): pass" := by decide +kernel
  exact ⟨hplain, (renameFunction_replaces_first_name _ "run" "stop" hplain).2.2.trans hother⟩

end ScriptCompiler
