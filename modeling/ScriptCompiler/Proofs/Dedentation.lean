import Mathlib.Data.List.Forall2
import Mathlib.Data.List.TakeWhile
import Mathlib.Tactic.SplitIfs
import ScriptCompiler.Text.Dedent

/-!
# Dedentation

What moving a text to the left margin does to its lines. Main statements: every line that is not
blank loses the same number of blanks and one of them reaches the margin, whatever the whole text
was indented by before (`dedent_shifts_uniformly`); and the lines lose the same blanks only if tabs
and spaces stand in the same places (`dedent_removes_one_text_iff`).
-/

namespace ScriptCompiler.Dedent

variable {row : List Char} {rs : List (List Char)} {text : List Char} {width : Nat}

/-! ## Rows -/

/-- The lines of a text without the line feeds that end them. What follows the last line feed is a
row too. -/
def rows (text : List Char) : List (List Char) := text.splitOn '\n'

def ofRows (rs : List (List Char)) : List Char := ['\n'].intercalate rs

theorem rows_ne_nil (text : List Char) : rows text ≠ [] := List.splitOnP_ne_nil _ text

theorem rows_cons (c : Char) (text : List Char) :
    rows (c :: text) = if c = '\n' then [] :: rows text else (rows text).modifyHead (c :: ·) := by
  rw [rows, List.splitOn, List.splitOnP_cons_eq_if_modifyHead]
  simp only [beq_iff_eq]
  rfl

theorem ofRows_rows (text : List Char) : ofRows (rows text) = text := List.intercalate_splitOn '\n'

theorem rows_ofRows (hrows : ∀ row ∈ rs, '\n' ∉ row) (hne : rs ≠ []) : rows (ofRows rs) = rs :=
  List.splitOn_intercalate '\n' hrows hne

theorem newline_not_mem_row (text : List Char) : ∀ row ∈ rows text, '\n' ∉ row := by
  induction text with
  | nil =>
    intro row hrow
    cases List.mem_singleton.1 hrow
    exact List.not_mem_nil
  | cons c text ih =>
    rw [rows_cons]
    split_ifs with hc
    · rintro row (_ | ⟨_, hrow⟩)
      · exact List.not_mem_nil
      · exact ih row hrow
    · cases hrest : rows text with
      | nil => exact absurd hrest (rows_ne_nil text)
      | cons first rest =>
        rw [hrest] at ih
        rintro row (_ | ⟨_, hrow⟩)
        · simpa [Ne.symm hc] using ih first List.mem_cons_self
        · exact ih row (List.mem_cons_of_mem _ hrow)

theorem count_ofRows (hrows : ∀ row ∈ rs, '\n' ∉ row) : (ofRows rs).count '\n' = rs.length - 1 := by
  induction rs with
  | nil => rfl
  | cons row rs ih =>
    have hrow : row.count '\n' = 0 := List.count_eq_zero.2 (hrows row List.mem_cons_self)
    cases rs with
    | nil => simpa [ofRows] using hrow
    | cons next rs =>
      have hrest := ih fun r hr => hrows r (List.mem_cons_of_mem _ hr)
      rw [ofRows, List.intercalate_cons_cons, List.count_append, List.count_append, hrow]
      rw [ofRows] at hrest
      simp [hrest, Nat.add_comm]

/-- Each line feed ends a row, and one row has none. -/
theorem length_rows (text : List Char) : (rows text).length = text.count '\n' + 1 := by
  have hcount := count_ofRows (newline_not_mem_row text)
  rw [ofRows_rows] at hcount
  have hpos := List.length_pos_iff.2 (rows_ne_nil text)
  omega

/-- Rows with the line feeds that end them, and without an empty one behind the last line feed. -/
def terminated : List (List Char) → List (List Char)
  | [] => []
  | [row] => if row = [] then [] else [row]
  | row :: next :: rest => (row ++ ['\n']) :: terminated (next :: rest)

theorem lines_eq_terminated_rows (text : List Char) : lines text = terminated (rows text) := by
  induction text with
  | nil => rfl
  | cons c text ih =>
    obtain ⟨first, rest, hrest⟩ := List.exists_cons_of_ne_nil (rows_ne_nil text)
    rw [lines, ih, rows_cons, hrest]
    split_ifs with hc
    · rw [hc]
      rfl
    · cases rest with
      | nil => cases first <;> rfl
      | cons next rest => rfl

/-- A change of lines that keeps their ends is a change of rows. -/
theorem flatten_map_terminated {f : List Char → List Char} (hnil : f [] = [])
    (hend : ∀ row ∈ rs, f (row ++ ['\n']) = f row ++ ['\n']) :
    ((terminated rs).map f).flatten = ofRows (rs.map f) := by
  induction rs with
  | nil => rfl
  | cons row rs ih =>
    cases rs with
    | nil =>
      rw [terminated]
      split_ifs with hrow
      · simp [ofRows, hrow, hnil]
      · simp [ofRows]
    | cons next rest =>
      have hrest := ih fun r hr => hend r (List.mem_cons_of_mem _ hr)
      rw [terminated, List.map_cons, List.flatten_cons, hrest, hend row List.mem_cons_self]
      simp [ofRows]

/-! ## Margins -/

theorem isBlank_of_isIndentation {c : Char} (h : isIndentation c = true) : isBlank c = true := by
  simp only [isIndentation, Bool.or_eq_true, decide_eq_true_eq] at h
  rcases h with rfl | rfl <;> decide

theorem isBlankLine_append {blanks : List Char} (hblanks : ∀ c ∈ blanks, isIndentation c = true)
    (row : List Char) : isBlankLine (blanks ++ row) = isBlankLine row := by
  have hall : blanks.all isBlank = true := List.all_eq_true.2 fun c hc =>
    isBlank_of_isIndentation (hblanks c hc)
  rw [isBlankLine, List.all_append, hall, Bool.true_and, isBlankLine]

theorem isBlankLine_terminated (row : List Char) :
    isBlankLine (row ++ ['\n']) = isBlankLine row := by
  have hend : ['\n'].all isBlank = true := by decide
  rw [isBlankLine, List.all_append, hend, Bool.and_true, isBlankLine]

theorem indentation_terminated (row : List Char) :
    indentation (row ++ ['\n']) = indentation row := by
  have hend : ['\n'].takeWhile isIndentation = [] := by decide
  rw [indentation, List.takeWhile_append, hend]
  split_ifs with hrow
  · rw [List.append_nil, indentation, hrow]
  · rfl

theorem indentation_replicate (count : Nat) (row : List Char) :
    indentation (List.replicate count ' ' ++ row) = count + indentation row := by
  have hblanks : (List.replicate count ' ').takeWhile isIndentation = List.replicate count ' ' :=
    List.takeWhile_eq_self_iff.2 fun c hc => by rw [List.eq_of_mem_replicate hc]; rfl
  rw [indentation, List.takeWhile_append, hblanks, if_pos rfl, List.length_append,
    List.length_replicate, indentation]

/-- The indentations of the rows that are not blank. -/
def indentations (rs : List (List Char)) : List Nat := (rs.filter (!isBlankLine ·)).map indentation

theorem shared_eq_min (rs : List (List Char)) : shared rs = (indentations rs).min?.getD 0 := by
  rw [shared, ← indentations]
  cases indentations rs <;> rfl

theorem indentations_terminated (rs : List (List Char)) :
    indentations (terminated rs) = indentations rs := by
  induction rs with
  | nil => rfl
  | cons row rs ih =>
    cases rs with
    | nil =>
      rw [terminated]
      split_ifs with hrow
      · rw [hrow]
        rfl
      · rfl
    | cons next rest =>
      rw [terminated, indentations, List.filter_cons, isBlankLine_terminated]
      rw [indentations, List.filter_cons (x := row)]
      simp only [indentations] at ih
      by_cases htext : (!isBlankLine row) = true
      · rw [if_pos htext, if_pos htext, List.map_cons, List.map_cons, indentation_terminated, ih]
      · rw [if_neg htext, if_neg htext, ih]

theorem shared_lines (text : List Char) : shared (lines text) = shared (rows text) := by
  rw [lines_eq_terminated_rows, shared_eq_min, shared_eq_min, indentations_terminated]

theorem shared_le (hrow : row ∈ rs) (htext : isBlankLine row = false) :
    shared rs ≤ indentation row := by
  have hmem : indentation row ∈ indentations rs :=
    List.mem_map_of_mem (List.mem_filter.2 ⟨hrow, by simp [htext]⟩)
  rw [shared_eq_min]
  cases hmin : (indentations rs).min? with
  | none => exact Nat.zero_le _
  | some least => exact (List.min?_eq_some_iff.1 hmin).2 _ hmem

/-- The margin is the indentation of one of the rows. -/
theorem exists_indentation_eq_shared (hrow : row ∈ rs) (htext : isBlankLine row = false) :
    ∃ least ∈ rs, isBlankLine least = false ∧ indentation least = shared rs := by
  have hmem : indentation row ∈ indentations rs :=
    List.mem_map_of_mem (List.mem_filter.2 ⟨hrow, by simp [htext]⟩)
  cases hmin : (indentations rs).min? with
  | none => exact absurd (List.min?_eq_none_iff.1 hmin) (List.ne_nil_of_mem hmem)
  | some least =>
    obtain ⟨found, hfound, heq⟩ := List.mem_map.1 (List.min?_eq_some_iff.1 hmin).1
    obtain ⟨hfound, hblank⟩ := List.mem_filter.1 hfound
    exact ⟨found, hfound, by simpa using hblank, by rw [heq, shared_eq_min, hmin, Option.getD_some]⟩

/-! ## Moving rows -/

/-- What becomes of a row among others. -/
def moved (rs : List (List Char)) (row : List Char) :
    List Char := if shared rs = 0 then row else strip (shared rs) row

theorem moved_of_text (htext : isBlankLine row = false) : moved rs row = row.drop (shared rs) := by
  rw [moved]
  split_ifs with hshared
  · rw [hshared, List.drop_zero]
  · rw [strip, if_neg (by simp [htext])]

theorem indentation_le_length (row : List Char) : indentation row ≤ row.length :=
  (List.takeWhile_prefix isIndentation).length_le

theorem strip_terminated (hwidth : isBlankLine row = false → width ≤ row.length) :
    strip width (row ++ ['\n']) = strip width row ++ ['\n'] := by
  rw [strip, strip, isBlankLine_terminated]
  split_ifs with hblank
  · have hend : ['\n'].dropWhile isIndentation = ['\n'] := by decide
    rw [List.dropWhile_append, hend]
    split_ifs with hrow
    · rw [List.isEmpty_iff.1 hrow, List.nil_append]
    · rfl
  · exact List.drop_append_of_le_length (hwidth (Bool.eq_false_iff.2 hblank))

theorem mem_of_mem_moved {c : Char} (h : c ∈ moved rs row) : c ∈ row := by
  unfold moved strip at h
  split_ifs at h
  · exact h
  · exact List.dropWhile_subset _ h
  · exact List.mem_of_mem_drop h

theorem rows_dedentChars (text : List Char) :
    rows (dedentChars text) = (rows text).map (moved (rows text)) := by
  have hmoved : ∀ row ∈ (rows text).map (moved (rows text)), '\n' ∉ row := by
    intro row hrow
    obtain ⟨source, hsource, rfl⟩ := List.mem_map.1 hrow
    exact fun hend => newline_not_mem_row text source hsource (mem_of_mem_moved hend)
  have hne : (rows text).map (moved (rows text)) ≠ [] :=
    fun h => rows_ne_nil text (List.map_eq_nil_iff.1 h)
  rw [← rows_ofRows hmoved hne]
  congr 1
  rw [dedentChars, shared_lines]
  by_cases hzero : shared (rows text) = 0
  · have hself : moved (rows text) = id := by
      funext row
      rw [moved, if_pos hzero, id]
    rw [if_pos hzero, hself, List.map_id, ofRows_rows]
  · have hstrip : moved (rows text) = strip (shared (rows text)) := by
      funext row
      rw [moved, if_neg hzero]
    rw [if_neg hzero, hstrip, lines_eq_terminated_rows, flatten_map_terminated rfl]
    exact fun row hrow => strip_terminated fun htext =>
      Nat.le_trans (shared_le hrow htext) (indentation_le_length row)

/-- A row and what becomes of it when the margin lies `margin` blanks to the right: blanks at its
front go away, as many as that unless the row is blank. -/
def Moved (margin : Nat) (row row' : List Char) : Prop :=
  ∃ blanks, row = blanks ++ row' ∧ (∀ c ∈ blanks, isIndentation c = true) ∧
    (isBlankLine row = false → blanks.length = margin)

theorem isIndentation_of_mem_take {c : Char} (h : c ∈ row.take (indentation row)) :
    isIndentation c = true := by
  have htake : row.take (indentation row) = row.takeWhile isIndentation := by
    exact (List.prefix_iff_eq_take.1 (List.takeWhile_prefix isIndentation)).symm
  rw [htake] at h
  exact List.mem_takeWhile_imp h

theorem moved_spec (hrow : row ∈ rs) : Moved (shared rs) row (moved rs row) := by
  by_cases htext : isBlankLine row = false
  · have hle := shared_le hrow htext
    refine ⟨row.take (shared rs), ?_, fun c hc => ?_, fun _ => ?_⟩
    · rw [moved_of_text htext, List.take_append_drop]
    · exact isIndentation_of_mem_take (List.take_subset_take_left row hle hc)
    · exact List.length_take_of_le (Nat.le_trans hle (indentation_le_length row))
  · rw [moved]
    split_ifs
    · exact ⟨[], rfl, by simp, fun h => absurd h htext⟩
    · rw [strip, if_pos (Bool.not_eq_false _ ▸ htext)]
      refine ⟨row.takeWhile isIndentation, List.takeWhile_append_dropWhile.symm, fun c hc => ?_,
        fun h => absurd h htext⟩
      exact List.mem_takeWhile_imp hc

theorem isBlankLine_moved (hrow : row ∈ rs) : isBlankLine (moved rs row) = isBlankLine row := by
  obtain ⟨blanks, heq, hblanks, -⟩ := moved_spec hrow
  conv_rhs => rw [heq, isBlankLine_append hblanks]

theorem indentation_moved (hrow : row ∈ rs) (htext : isBlankLine row = false) :
    indentation (moved rs row) = indentation row - shared rs := by
  have hle := shared_le hrow htext
  rw [moved_of_text htext]
  have htake : row = row.take (shared rs) ++ row.drop (shared rs) :=
    (List.take_append_drop _ row).symm
  have hall : (row.take (shared rs)).takeWhile isIndentation = row.take (shared rs) :=
    List.takeWhile_eq_self_iff.2 fun c hc =>
      isIndentation_of_mem_take (List.take_subset_take_left row hle hc)
  have hsum : indentation row = (row.take (shared rs)).length +
      indentation (row.drop (shared rs)) := by
    conv_lhs => rw [htake, indentation, List.takeWhile_append, hall, if_pos rfl, List.length_append]
    rfl
  rw [List.length_take_of_le (Nat.le_trans hle (indentation_le_length row))] at hsum
  omega

/-- Rows that were moved have their margin at the left. -/
theorem shared_map_moved (rs : List (List Char)) : shared (rs.map (moved rs)) = 0 := by
  by_cases hall : ∀ row ∈ rs.map (moved rs), isBlankLine row = true
  · have hnone : indentations (rs.map (moved rs)) = [] := by
      rw [indentations, List.map_eq_nil_iff, List.filter_eq_nil_iff]
      exact fun row hrow => by simp [hall row hrow]
    rw [shared_eq_min, hnone]
    rfl
  · push Not at hall
    obtain ⟨_, hmem, htext⟩ := hall
    obtain ⟨row, hrow, rfl⟩ := List.mem_map.1 hmem
    have htext : isBlankLine row = false := by
      rw [isBlankLine_moved hrow] at htext
      exact Bool.eq_false_iff.2 htext
    obtain ⟨least, hleast, hltext, heq⟩ := exists_indentation_eq_shared hrow htext
    have hle := shared_le (List.mem_map_of_mem (f := moved rs) hleast)
        ((isBlankLine_moved hleast).trans hltext)
    rw [indentation_moved hleast hltext] at hle
    omega

theorem dedentChars_idem (text : List Char) :
    dedentChars (dedentChars text) = dedentChars text := by
  have hshared : shared (lines (dedentChars text)) = 0 := by
    rw [shared_lines, rows_dedentChars, shared_map_moved]
  rw [dedentChars, if_pos hshared]

theorem head_isIndentation_of_indentation_eq_zero (h : indentation row = 0) :
    ∀ c ∈ row.head?, isIndentation c = false := by
  cases row with
  | nil => simp
  | cons c row =>
    rintro d ⟨⟩
    refine Bool.eq_false_iff.2 fun hc => ?_
    simp [indentation, hc] at h

/-! ## Indenting before -/

/-- Put spaces in front of a row unless it is blank. -/
def indentRow (count : Nat) (row : List Char) : List Char :=
  if isBlankLine row then row else List.replicate count ' ' ++ row

def indentRows (count : Nat) (text : List Char) :
    List Char := ofRows ((rows text).map (indentRow count))

theorem isBlankLine_indentRow (count : Nat) (row : List Char) :
    isBlankLine (indentRow count row) = isBlankLine row := by
  rw [indentRow]
  split_ifs
  · rfl
  · exact isBlankLine_append (fun c hc => by rw [List.eq_of_mem_replicate hc]; rfl) row

theorem rows_indentRows (count : Nat) (text : List Char) :
    rows (indentRows count text) = (rows text).map (indentRow count) := by
  refine rows_ofRows (fun row hrow => ?_) fun h => rows_ne_nil text (List.map_eq_nil_iff.1 h)
  obtain ⟨source, hsource, rfl⟩ := List.mem_map.1 hrow
  have hend := newline_not_mem_row text source hsource
  rw [indentRow]
  split_ifs
  · exact hend
  · simp [hend]

theorem shared_map_indentRow (count : Nat) (hrow : row ∈ rs) (htext : isBlankLine row = false) :
    shared (rs.map (indentRow count)) = count + shared rs := by
  have hindent : ∀ r, isBlankLine r = false → indentation (indentRow count r) = count +
      indentation r := by
    intro r hr
    rw [indentRow, if_neg (by simp [hr]), indentation_replicate]
  obtain ⟨least, hleast, hltext, heq⟩ := exists_indentation_eq_shared hrow htext
  have hle := shared_le (List.mem_map_of_mem (f := indentRow count) hleast)
      ((isBlankLine_indentRow count least).trans hltext)
  rw [hindent least hltext] at hle
  obtain ⟨_, hmem, hgtext, hgeq⟩ :=
    exists_indentation_eq_shared (List.mem_map_of_mem (f := indentRow count) hrow)
    ((isBlankLine_indentRow count row).trans htext)
  obtain ⟨source, hsource, rfl⟩ := List.mem_map.1 hmem
  rw [isBlankLine_indentRow] at hgtext
  have hge := shared_le hsource hgtext
  rw [hindent source hgtext] at hgeq
  omega

theorem filter_moved_indentRow (count : Nat) (rs : List (List Char)) :
    ((rs.map (indentRow count)).map (moved (rs.map (indentRow count)))).filter (!isBlankLine ·) =
      (rs.map (moved rs)).filter (!isBlankLine ·) := by
  have hleft : ∀ row ∈ rs, isBlankLine (moved (rs.map (indentRow count)) (indentRow count row)) =
      isBlankLine row :=
    fun row hrow => (isBlankLine_moved (List.mem_map_of_mem hrow)).trans
      (isBlankLine_indentRow count row)
  have hfilter : rs.filter ((!isBlankLine ·) ∘ moved (rs.map (indentRow count)) ∘ indentRow count) =
      rs.filter (!isBlankLine ·) :=
    List.filter_congr fun row hrow => by simp only [Function.comp_apply, hleft row hrow]
  have hfilter' : rs.filter ((!isBlankLine ·) ∘ moved rs) = rs.filter (!isBlankLine ·) :=
    List.filter_congr fun row hrow => by simp only [Function.comp_apply, isBlankLine_moved hrow]
  rw [List.map_map, List.filter_map, List.filter_map, hfilter, hfilter']
  refine List.map_congr_left fun row hmem => ?_
  obtain ⟨hrow, htext⟩ := List.mem_filter.1 hmem
  have htext : isBlankLine row = false := by simpa using htext
  have hindented : isBlankLine (indentRow count row) = false :=
    (isBlankLine_indentRow count row).trans htext
  rw [Function.comp_apply, moved_of_text hindented, moved_of_text htext,
    shared_map_indentRow count hrow htext, indentRow,
    if_neg (by simp [htext]), List.drop_append, List.length_replicate, Nat.add_sub_cancel_left,
    List.drop_eq_nil_of_le (by simp), List.nil_append]

end Dedent

open Dedent

theorem toList_dedent (text : String) :
    (dedent text).toList = dedentChars text.toList := String.toList_ofList

/-- Dedenting twice is dedenting once, and no line feed is lost. All rows that are not blank lose
blanks of one number, blank rows lose blanks only, and if there is text, some of it reaches the
margin. Spaces put in front of all rows that are not blank make no difference to them. -/
theorem dedent_shifts_uniformly (text : String) :
    dedent (dedent text) = dedent text ∧
      (dedent text).toList.count '\n' = text.toList.count '\n' ∧
      (∃ margin, List.Forall₂ (Moved margin) (rows text.toList) (rows (dedent text).toList)) ∧
      ((∃ row ∈ rows (dedent text).toList, isBlankLine row = false) →
        ∃ row ∈ rows (dedent text).toList, isBlankLine row = false ∧
        ∀ c ∈ row.head?, isIndentation c = false) ∧
      ∀ count, (rows (dedent (String.ofList (indentRows count text.toList))).toList).filter
      (!isBlankLine ·) =
        (rows (dedent text).toList).filter (!isBlankLine ·) := by
  simp only [toList_dedent, rows_dedentChars, String.toList_ofList, rows_indentRows]
  refine ⟨?_, ?_, ⟨shared (rows text.toList), ?_⟩, ?_, fun count => filter_moved_indentRow count _⟩
  · rw [dedent, toList_dedent, dedentChars_idem, dedent]
  · have hlength := congrArg List.length (rows_dedentChars text.toList)
    rw [List.length_map, length_rows, length_rows] at hlength
    omega
  · rw [List.forall₂_map_right_iff, List.forall₂_same]
    exact fun row hrow => moved_spec hrow
  · rintro ⟨_, hmem, htext⟩
    obtain ⟨row, hrow, htext, heq⟩ := exists_indentation_eq_shared hmem htext
    refine ⟨row, hrow, htext, head_isIndentation_of_indentation_eq_zero ?_⟩
    rw [heq, shared_map_moved]

/-- The rows that are not blank lose one and the same text exactly if they agree in as many
characters as the least of their indentations has. -/
theorem dedent_removes_one_text_iff (text : String) :
    (∃ blanks, (∀ c ∈ blanks, isIndentation c = true) ∧
        List.Forall₂ (fun row row' => isBlankLine row = false → row = blanks ++ row')
          (rows text.toList) (rows (dedent text).toList)) ↔
      ∀ row ∈ rows text.toList, ∀ other ∈ rows text.toList, isBlankLine row = false →
        isBlankLine other = false →
        row.take (shared (rows text.toList)) = other.take (shared (rows text.toList)) := by
  rw [toList_dedent, rows_dedentChars]
  generalize rows text.toList = rs
  simp only [List.forall₂_map_right_iff, List.forall₂_same]
  constructor
  · rintro ⟨blanks, -, hall⟩ row hrow other hother htext hotext
    have htake : ∀ r ∈ rs, isBlankLine r = false → r.take (shared rs) = blanks := by
      intro r hr hrtext
      have heq := hall r hr hrtext
      rw [moved_of_text hrtext] at heq
      have hsplit : r.take (shared rs) ++ r.drop (shared rs) = blanks ++ r.drop (shared rs) := by
        rw [List.take_append_drop, ← heq]
      exact List.append_cancel_right hsplit
    rw [htake row hrow htext, htake other hother hotext]
  · intro hagree
    by_cases hall : ∀ row ∈ rs, isBlankLine row = true
    · exact ⟨[], by simp, fun row hrow htext => by rw [hall row hrow] at htext; cases htext⟩
    · push Not at hall
      obtain ⟨first, hfirst, hftext⟩ := hall
      have hftext := Bool.eq_false_iff.2 hftext
      refine ⟨first.take (shared rs), fun c hc => ?_, fun row hrow htext => ?_⟩
      · exact isIndentation_of_mem_take
          (List.take_subset_take_left first (shared_le hfirst hftext) hc)
      · rw [hagree first hfirst row hrow hftext htext, moved_of_text htext, List.take_append_drop]

/-- A tab and a space are removed alike. -/
theorem tab_and_space_both_removed :
    dedent "\ta\n  b\n" = "a\n b\n" ∧
      ¬ ∃ blanks, (∀ c ∈ blanks, isIndentation c = true) ∧
        List.Forall₂ (fun row row' => isBlankLine row = false → row = blanks ++ row')
          (rows "\ta\n  b\n".toList) (rows (dedent "\ta\n  b\n").toList) := by
  refine ⟨by decide +kernel, ?_⟩
  rintro ⟨blanks, -, hrows⟩
  have hsource : rows "\ta\n  b\n".toList = [['\t', 'a'], [' ', ' ', 'b'], []] := by decide +kernel
  have hresult : rows (dedent "\ta\n  b\n").toList = [['a'], [' ', 'b'], []] := by decide +kernel
  rw [hsource, hresult] at hrows
  cases hrows with
  | cons hfirst hrest =>
    cases hrest with
    | cons hsecond _ =>
      have htab : ['\t'] ++ ['a'] = blanks ++ ['a'] := hfirst (by decide)
      have hspace : [' '] ++ [' ', 'b'] = blanks ++ [' ', 'b'] := hsecond (by decide)
      rw [← List.append_cancel_right htab] at hspace
      exact absurd hspace (by decide)

end ScriptCompiler
