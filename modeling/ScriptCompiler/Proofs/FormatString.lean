import Mathlib.Data.List.Forall2
import ScriptCompiler.Compile
import ScriptCompiler.Proofs.Run
import ScriptCompiler.Proofs.StaticText
import ScriptCompiler.Proofs.StringPieces
import ScriptCompiler.Proofs.Template

/-!
# Format strings as templates

A format string becomes a template whose holes are those of the string, in order, and whose static
parts are read as the values of its static texts. Strings next to a format string are written into
the same template, each by itself. A dollar sign at the end of one and a brace at the front of the
next then open a hole that no string has; nothing else is read in another way.
-/

namespace ScriptCompiler

/-! ## Static texts and holes of a string -/

namespace Piece

/-- The static texts before, between and after the holes, as they stand in the token. -/
def segments : List Piece → List (List Char)
  | [] => [[]]
  | .text raw :: rest => (segments rest).modifyHead (raw ++ ·)
  | .hole _ _ _ :: rest => [] :: segments rest

/-- The expressions in the holes. -/
def holeValues : List Piece → List Expr
  | [] => []
  | .text _ :: rest => holeValues rest
  | .hole _ _ value :: rest => value :: holeValues rest

/-- There is one static text more than there are holes. -/
theorem length_segments (pieces : List Piece) :
    (segments pieces).length = (holeValues pieces).length + 1 := by
  induction pieces with
  | nil => rfl
  | cons piece rest ih =>
    cases piece with
    | text raw => rw [segments, List.length_modifyHead, ih, holeValues]
    | hole pos option value => rw [segments, List.length_cons, ih, holeValues, List.length_cons]

theorem segments_eq_nil_cons {raw : List Char} {rest : List Piece}
    (h : TextsApart (.text raw :: rest)) : ∃ more, segments rest = [] :: more := by
  cases rest with
  | nil => exact ⟨[], rfl⟩
  | cons piece rest =>
    cases piece with
    | text other =>
      obtain ⟨hpair, -⟩ := List.isChain_cons_cons.mp h
      simp [isHole] at hpair
    | hole pos option value => exact ⟨segments rest, rfl⟩

end Piece

/-- The expressions in the holes of a string; a string that is no format string has none. -/
def StringToken.holeValues (t : StringToken) :
    List Expr := if t.isFormat then Piece.holeValues t.pieces else []

namespace Script.TemplateItem

/-- Static values with holes between them. -/
def interleave : List (List Char) → List (List Char) → List TemplateItem
  | [], _ => []
  | value :: _, [] => [.static value]
  | value :: values, text :: texts => .static value :: .hole text :: interleave values texts

theorem parts_interleave {values texts : List (List Char)} (h : values.length = texts.length + 1) :
    parts (interleave values texts) = values := by
  induction texts generalizing values with
  | nil =>
    obtain ⟨value, rfl⟩ := List.length_eq_one_iff.mp h
    simp [interleave, parts]
  | cons text texts ih =>
    cases values with
    | nil => simp at h
    | cons value values =>
      rw [interleave, parts, parts, ih (by simpa using h)]
      simp

theorem holes_interleave {values texts : List (List Char)} (h : values.length = texts.length + 1) :
    holes (interleave values texts) = texts := by
  induction texts generalizing values with
  | nil =>
    obtain ⟨value, rfl⟩ := List.length_eq_one_iff.mp h
    rfl
  | cons text texts ih =>
    cases values with
    | nil => simp at h
    | cons value values =>
      show text :: holes (interleave values texts) = _
      rw [ih (by simpa using h)]

theorem opensHole_interleave (values texts : List (List Char)) :
    opensHole (interleave values texts) = false := by
  fun_induction interleave values texts with
  | case1 => rfl
  | case2 value values => simp [opensHole, startsBrace]
  | case3 value values text texts ih => simpa [opensHole, startsBrace] using ih

theorem holes_append (items others : List TemplateItem) :
    holes (items ++ others) = holes items ++ holes others :=
  List.filterMap_append

/-- The first static value is written in front of all the rest. -/
theorem flatMap_written_interleave (value : List Char) (values texts : List (List Char)) :
    (interleave (value :: values) texts).flatMap written =
      Literal.templateText value ++ (interleave ([] :: values) texts).flatMap written := by
  cases texts <;> simp [interleave, written, Literal.templateText]

theorem templateUnits?_literal_iff (items : List TemplateItem) :
    templateUnits? (holes items) (literal items) = some ((parts items).map textUnits) ↔
    opensHole items = false :=
  staticUnits?_written_iff items

end Script.TemplateItem

/-! ## What a string is lowered to -/

namespace Lowering

open Script Script.TemplateItem Literal

variable {α β : Type} {s s' u : LoweringState}

variable {pos : Position} {out : String}

theorem exists_of_locate_bind_eq_ok {r : Except Fault α} {f : α → Lowering β} {b : β}
    (h : (locate pos r >>= f).run s = .ok b u) : ∃ a, r = .ok a ∧ (f a).run s = .ok b u := by
  cases r with
  | error fault => cases h
  | ok a => exact ⟨a, rfl, h⟩

theorem run_mapM_append {f : α → Lowering β} {as as' : List α} {bs bs' : List β}
    (h : (as.mapM f).run s = .ok bs u) (h' : (as'.mapM f).run u = .ok bs' s') :
    ((as ++ as').mapM f).run s = .ok (bs ++ bs') s' := by
  rw [List.mapM_append, run_bind, h]
  dsimp only
  rw [run_bind, h']
  rfl

theorem run_mapM_singleton {f : α → Lowering β} {a : α} {b : β} (h : (f a).run s = .ok b s') :
    ([a].mapM f).run s = .ok [b] s' := by
  rw [List.mapM_cons, run_bind, h]
  rfl

theorem length_of_mapM_run {f : α → Lowering β} {as : List α} {bs : List β}
    (h : (as.mapM f).run s = .ok bs u) : bs.length = as.length := by
  induction as generalizing s bs with
  | nil =>
    cases h
    rfl
  | cons a as ih =>
    rw [List.mapM_cons] at h
    obtain ⟨b, t, -, h⟩ := exists_of_bind_eq_ok h
    obtain ⟨bs', t', hrest, h⟩ := exists_of_bind_eq_ok h
    cases h
    rw [List.length_cons, List.length_cons, ih hrest]

/-- The values of the static texts of a string. -/
abbrev StaticValues (raw : Bool) (pieces : List Piece) (values : List (List Char)) : Prop :=
  List.Forall₂ (fun segment value => staticValue raw segment = .ok value)
    (Piece.segments pieces) values

/-- Pieces are lowered to the values of their static texts and the texts of their holes, in turn. -/
theorem exists_of_templatePieces_run {raw : Bool} {pieces : List Piece}
    (hapart : TextsApart pieces) (h : (templatePieces raw pos pieces).run s = .ok out s') :
    ∃ values texts, StaticValues raw pieces values ∧ ((Piece.holeValues pieces).mapM text).run s =
    .ok texts s' ∧
      out.toList = (interleave values (texts.map String.toList)).flatMap written := by
  induction pieces generalizing s out with
  | nil =>
    cases h
    exact ⟨[[]], [], .cons rfl .nil, rfl, rfl⟩
  | cons piece rest ih =>
    have hrest : TextsApart rest := List.IsChain.of_cons hapart
    cases piece with
    | text raw' =>
      rw [templatePieces, templateSegment_eq] at h
      obtain ⟨segment, hsegment, h⟩ := exists_of_locate_bind_eq_ok h
      obtain ⟨more, t, hmore, h⟩ := exists_of_bind_eq_ok h
      cases h
      obtain ⟨value, hvalue, rfl⟩ : ∃ value, staticValue raw raw' = .ok value ∧
          String.ofList (templateText value) = segment := by
        cases hvalue : staticValue raw raw' with
        | error fault =>
          rw [hvalue] at hsegment
          cases hsegment
        | ok value =>
          rw [hvalue] at hsegment
          exact ⟨value, rfl, Except.ok.inj hsegment⟩
      obtain ⟨values, texts, hvalues, htexts, hmore⟩ := ih hrest hmore
      obtain ⟨segments, hsegments⟩ := Piece.segments_eq_nil_cons hapart
      rw [StaticValues, hsegments] at hvalues
      obtain ⟨_, others, ⟨⟩, hothers, rfl⟩ := List.forall₂_cons_left_iff.mp hvalues
      refine ⟨value :: others, texts, ?_, htexts, ?_⟩
      · rw [StaticValues, Piece.segments, hsegments, List.modifyHead_cons, List.append_nil]
        exact .cons hvalue hothers
      · rw [flatMap_written_interleave, ← hmore, String.toList_append, String.toList_ofList]
    | hole holePos option value =>
      cases option with
      | some option =>
        cases option with
        | beyondBody =>
          obtain ⟨_, _, -, h⟩ := exists_of_bind_eq_ok h
          cases h
        | _ => cases h
      | none =>
        obtain ⟨first, t, hfirst, h⟩ := exists_of_bind_eq_ok h
        obtain ⟨more, t', hmore, h⟩ := exists_of_bind_eq_ok h
        cases h
        obtain ⟨values, texts, hvalues, htexts, hmore⟩ := ih hrest hmore
        refine ⟨[] :: values, first.text :: texts, .cons rfl hvalues, ?_, ?_⟩
        · have hvalue : (text value).run s = .ok first.text t := by
            rw [text, run_bind, hfirst]
            rfl
          exact run_mapM_append (run_mapM_singleton hvalue) htexts
        · simp [interleave, written, Literal.templateText, hmore]

/-- What a string contributes to a template: its value, or the values of its static texts with holes
between them. -/
inductive Contributes (token : StringToken) : List TemplateItem → Prop
  | plain {value : List Char} (hplain : token.isFormat = false)
      (hvalue : stringValue token.token.toList = .ok value) :
      Contributes token [.static value]
  | format {parts : StringParts} {values texts : List (List Char)}
      (hparts : splitString? token.token.toList = some parts) (hformat : parts.flags.format = true)
      (hvalues : StaticValues parts.flags.raw token.pieces values)
      (htexts : texts.length = (Piece.holeValues token.pieces).length) :
      Contributes token (interleave values texts)

theorem exists_of_templatePart_run {token : StringToken} (hapart : TextsApart token.pieces)
    (h : (templatePart token).run s = .ok out s') :
    ∃ items texts, Contributes token items ∧ holes items = texts.map String.toList ∧
      (token.holeValues.mapM text).run s = .ok texts s' ∧ out.toList = items.flatMap written := by
  obtain ⟨pos, token, pieces⟩ := token
  rw [templatePart] at h
  cases hparts : splitString? token.toList with
  | none =>
    rw [hparts] at h
    cases h
  | some parts =>
    have hformat : StringToken.isFormat (.mk pos token pieces) = parts.flags.format := by
      simp [StringToken.isFormat, StringToken.token, isFormatString, hparts]
    rw [hparts] at h
    dsimp only at h
    by_cases hflag : parts.flags.format = true
    · rw [if_pos hflag] at h
      have hholes : StringToken.holeValues (.mk pos token pieces) = Piece.holeValues pieces := by
        rw [StringToken.holeValues, if_pos (hformat.trans hflag), StringToken.pieces]
      obtain ⟨_, -, h⟩ := exists_of_locate_bind_eq_ok h
      obtain ⟨values, texts, hvalues, htexts, hout⟩ := exists_of_templatePieces_run hapart h
      have hlength := length_of_mapM_run htexts
      have hvalues' : values.length = (texts.map String.toList).length + 1 := by
        rw [List.length_map, hlength, ← Piece.length_segments, hvalues.length_eq]
      refine ⟨_, texts, .format hparts hflag hvalues ?_, holes_interleave hvalues',
        hholes ▸ htexts, hout⟩
      rw [List.length_map, hlength]
    · rw [if_neg hflag] at h
      obtain ⟨value, hvalue, h⟩ := exists_of_locate_bind_eq_ok h
      cases h
      rw [Bool.not_eq_true] at hflag
      refine ⟨_, [], .plain (hformat.trans hflag) hvalue, rfl, ?_, by simp [written]⟩
      rw [StringToken.holeValues, hformat, hflag]
      rfl

theorem exists_of_templateParts_run {tokens : List StringToken}
    (hapart : ∀ token ∈ tokens, TextsApart token.pieces)
    (h : (templateParts tokens).run s = .ok out s') :
    ∃ contributions texts, List.Forall₂ Contributes tokens contributions ∧
      holes contributions.flatten = texts.map String.toList ∧
      ((tokens.flatMap StringToken.holeValues).mapM text).run s = .ok texts s' ∧
      out.toList = contributions.flatten.flatMap written := by
  induction tokens generalizing s out with
  | nil =>
    cases h
    exact ⟨[], [], .nil, rfl, rfl, rfl⟩
  | cons token rest ih =>
    obtain ⟨first, t, hfirst, h⟩ := exists_of_bind_eq_ok h
    obtain ⟨more, t', hmore, h⟩ := exists_of_bind_eq_ok h
    cases h
    obtain ⟨items, texts, hitems, hholes, htexts, hfirst⟩ :=
      exists_of_templatePart_run (hapart token List.mem_cons_self) hfirst
    obtain ⟨contributions, texts', hcontributions, hholes', htexts', hmore⟩ :=
      ih (fun token htoken => hapart token (List.mem_cons_of_mem _ htoken)) hmore
    refine ⟨items :: contributions, texts ++ texts', .cons hitems hcontributions, ?_, ?_, ?_⟩
    · rw [List.flatten_cons, holes_append, hholes, hholes', List.map_append]
    · exact run_mapM_append htexts htexts'
    · rw [String.toList_append, hfirst, hmore, List.flatten_cons, List.flatMap_append]

end Lowering

/-! ## How the template is read -/

theorem Script.toList_template (body : String) :
    (Script.template body).toList = '\x60' :: body.toList ++ ['\x60'] := by
  simp [Script.template]

section Reading

open Script Script.TemplateItem Lowering

variable {depth : Nat} {f : Grammar.Follow} {p p' : ParserState} {s s' : LoweringState}
  {out : String}

/-- The template that a format string becomes has the holes of the string, in order, and its static
parts are read as the values of the static texts between them and as nothing else. -/
theorem formatString_keeps_structure {token : StringToken}
    (hread : (Grammar.strings (Grammar.rules depth) f).run p = some (.string token, p'))
    (hformat : token.isFormat = true) (hrun : (Lowering.text (.string token)).run s = .ok out s') :
    ∃ parts values texts, Literal.splitString? token.token.toList = some parts ∧
      (¬ Token.IsBackquoted token.token.toList → Grammar.Spells token.pieces parts.body) ∧
      StaticValues parts.flags.raw token.pieces values ∧
      ((Piece.holeValues token.pieces).mapM Lowering.text).run s = .ok texts s' ∧
      ∀ w, templateUnits? (texts.map String.toList) out.toList = some (w.map textUnits) ↔
      w = values := by
  obtain ⟨hpieced⟩ := Grammar.pieced_of_strings_run hread
  obtain ⟨body, hbody, rfl⟩ : ∃ body, (templatePart token).run s = .ok body s' ∧
      template body = out := by
    rw [Lowering.text, Lowering.fragment, if_pos hformat] at hrun
    obtain ⟨fragment, t, hfragment, hrun⟩ := exists_of_bind_eq_ok hrun
    obtain ⟨body, t', hbody, hfragment⟩ := exists_of_bind_eq_ok hfragment
    cases hfragment
    cases hrun
    exact ⟨body, hbody, rfl⟩
  obtain ⟨items, texts, hitems, hholes, htexts, hout⟩ :=
    exists_of_templatePart_run hpieced.apart hbody
  cases hitems with
  | plain hplain _ =>
    rw [hformat] at hplain
    cases hplain
  | @format parts values holeTexts hparts hflag hvalues hlength =>
    have hvalues' : values.length = holeTexts.length + 1 := by
      rw [hlength, ← Piece.length_segments, hvalues.length_eq]
    have hread := (templateUnits?_literal_iff _).mpr (opensHole_interleave values holeTexts)
    rw [hholes, parts_interleave hvalues', literal, ← hout, ← toList_template] at hread
    rw [StringToken.holeValues, if_pos hformat] at htexts
    refine ⟨parts, values, texts, hparts, ?_, hvalues, htexts, ?_⟩
    · intro hquoted
      obtain ⟨parts', hparts', hspells⟩ := hpieced.spells hquoted
      obtain rfl := Option.some.inj (hparts.symm.trans hparts')
      exact hspells
    · intro w
      rw [hread, Option.some.injEq, eq_comm]
      exact (List.map_injective_iff.mpr fun v w => textUnits_inj).eq_iff

/-- A format string with escapes, a backquote, dollar signs and braces around its holes, before it
is read. -/
def formattedPrice : ParserState where
  rest := "f'$\\x7b\x7ba\x7d\x60\\$$\x7bb.c\x7d\x7d\x7d\\r\\x00'\n".toList
  pos := .first
  indents := [0]
  inFormat := false

def formattedPriceText : String := "\x60\\$\x7b$\x7ba\x7d\\\x60\\\\$$$\x7bb.c\x7d\x7d\\r\\x00\x60"

theorem formattedPrice_keeps_structure :
    ∃ token p', (Grammar.strings (Grammar.rules 40) { newline := true }).run formattedPrice =
    some (.string token, p') ∧
      token.isFormat = true ∧
      ∃ out s', (Lowering.text (.string token)).run (.start (.ofBinding none) 4) = .ok out s' ∧
        out = formattedPriceText ∧
        ∃ parts values texts, Literal.splitString? token.token.toList = some parts ∧
          (¬ Token.IsBackquoted token.token.toList → Grammar.Spells token.pieces parts.body) ∧
          StaticValues parts.flags.raw token.pieces values ∧
          ((Piece.holeValues token.pieces).mapM Lowering.text).run (.start (.ofBinding none) 4) =
          .ok texts s' ∧
          ∀ w, templateUnits? (texts.map String.toList) out.toList = some (w.map textUnits) ↔
          w = values := by
  have hread :
      (((Grammar.strings (Grammar.rules 40) { newline := true }).run formattedPrice).any fun read =>
      match read.1 with
      | .string token => token.isFormat &&
        match (Lowering.text (.string token)).run (.start (.ofBinding none) 4) with
        | .ok out _ => out == formattedPriceText
        | .error _ _ => false
      | _ => false) = true := by decide +kernel
  obtain ⟨⟨e, p'⟩, hstrings, h⟩ := (Option.any_eq_true _ _).1 hread
  dsimp only at h
  split at h
  · next token =>
      obtain ⟨hformat, h⟩ := Bool.and_eq_true_iff.mp h
      split at h
      · next out s' hrun =>
          exact ⟨token, p', hstrings, hformat, out, s', hrun, by simpa using h,
            formatString_keeps_structure hstrings hformat hrun⟩
      · cases h
  · cases h

/-- Strings next to a format string are written into one template. It has the holes of the format
strings, in order, and its static parts are read as the values that the strings contribute, exactly
if no dollar sign at the end of one meets a brace at the front of the next. -/
theorem joined_keeps_value_iff {first : StringToken} {rest : List StringToken}
    (hread : (Grammar.strings (Grammar.rules depth) f).run p = some (.joined first rest, p'))
    (hformat : ∃ token ∈ first :: rest, token.isFormat = true)
    (hrun : (Lowering.text (.joined first rest)).run s = .ok out s') :
    ∃ contributions texts, List.Forall₂ Contributes (first :: rest) contributions ∧
      (((first :: rest).flatMap StringToken.holeValues).mapM Lowering.text).run s = .ok texts s' ∧
      holes contributions.flatten = texts.map String.toList ∧
      (templateUnits? (texts.map String.toList) out.toList =
      some ((parts contributions.flatten).map textUnits) ↔
        opensHole contributions.flatten = false) := by
  have hapart : ∀ token ∈ first :: rest, TextsApart token.pieces := by
    cases Grammar.pieced_of_strings_run hread with
    | joined hfirst hrest =>
      exact List.forall_mem_cons.mpr ⟨hfirst.apart, fun token htoken => (hrest token htoken).apart⟩
  obtain ⟨body, hbody, rfl⟩ : ∃ body, (templateParts (first :: rest)).run s = .ok body s' ∧
      template body = out := by
    have hany : (first.isFormat || rest.any (·.isFormat)) = true := by simpa using hformat
    rw [Lowering.text, Lowering.fragment, if_pos hany] at hrun
    obtain ⟨fragment, t, hfragment, hrun⟩ := exists_of_bind_eq_ok hrun
    obtain ⟨_, -, hfragment⟩ := exists_of_locate_bind_eq_ok hfragment
    obtain ⟨head, t₁, hhead, hfragment⟩ := exists_of_bind_eq_ok hfragment
    obtain ⟨tail, t₂, htail, hfragment⟩ := exists_of_bind_eq_ok hfragment
    cases hfragment
    cases hrun
    refine ⟨head ++ tail, ?_, rfl⟩
    rw [templateParts, run_bind, hhead]
    dsimp only
    rw [run_bind, htail]
    rfl
  obtain ⟨contributions, texts, hcontributions, hholes, htexts, hout⟩ :=
    exists_of_templateParts_run hapart hbody
  refine ⟨contributions, texts, hcontributions, htexts, hholes, ?_⟩
  rw [← templateUnits?_literal_iff, hholes, literal, ← hout, toList_template]

/-- Strings around format strings, with dollar signs and braces at their ends, before they are
read. -/
def joinedPrices : ParserState where
  rest := "'$' f'\x7ba\x7d$' '\x7d\x60' rf'\\\x7bb\x7d' '\x7b$'\n".toList
  pos := .first
  indents := [0]
  inFormat := false

def joinedPricesText : String := "\x60$$\x7ba\x7d$\x7d\\\x60\\\\$\x7bb\x7d\x7b$\x60"

theorem joinedPrices_keep_value_iff :
    ∃ first rest p', (Grammar.strings (Grammar.rules 40) { newline := true }).run joinedPrices =
        some (.joined first rest, p') ∧ (∃ token ∈ first :: rest, token.isFormat = true) ∧
      ∃ out s', (Lowering.text (.joined first rest)).run (.start (.ofBinding none) 4) = .ok out s' ∧
        out = joinedPricesText ∧
        ∃ contributions texts, List.Forall₂ Contributes (first :: rest) contributions ∧
          (((first :: rest).flatMap StringToken.holeValues).mapM Lowering.text).run
          (.start (.ofBinding none) 4) =
            .ok texts s' ∧
          holes contributions.flatten = texts.map String.toList ∧
          (templateUnits? (texts.map String.toList) out.toList =
          some ((parts contributions.flatten).map textUnits) ↔
            opensHole contributions.flatten = false) := by
  have hread :
      (((Grammar.strings (Grammar.rules 40) { newline := true }).run joinedPrices).any fun read =>
      match read.1 with
      | .joined first rest => (first :: rest).any (·.isFormat) &&
        match (Lowering.text (.joined first rest)).run (.start (.ofBinding none) 4) with
        | .ok out _ => out == joinedPricesText
        | .error _ _ => false
      | _ => false) = true := by decide +kernel
  obtain ⟨⟨e, p'⟩, hstrings, h⟩ := (Option.any_eq_true _ _).1 hread
  dsimp only at h
  split at h
  · next first rest =>
      obtain ⟨hformat, h⟩ := Bool.and_eq_true_iff.mp h
      replace hformat := List.any_eq_true.mp hformat
      split at h
      · next out s' hrun =>
          exact ⟨first, rest, p', hstrings, hformat, out, s', hrun, by simpa using h,
            joined_keeps_value_iff hstrings hformat hrun⟩
      · cases h
  · cases h

/-- A dollar sign and the brace at the front of the next string make a hole of a text that is
none. -/
theorem dollar_and_brace_open_hole :
    (SourceUnit.mk "x = f'\x7ba\x7d' '$' '\x7bb\x7d'\n" none .module).compile {} =
        .ok "var x = \x60$\x7ba\x7d$\x7bb\x7d\x60;\n" ∧
      templateUnits? [['a']] "\x60$\x7ba\x7d$\x7bb\x7d\x60".toList = none ∧
      templateUnits? [['a'], ['b']] "\x60$\x7ba\x7d$\x7bb\x7d\x60".toList = some [[], [], []] := by
  decide +kernel

end Reading

end ScriptCompiler
