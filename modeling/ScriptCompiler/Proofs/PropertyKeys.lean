import ScriptCompiler.Compile
import ScriptCompiler.Proofs.FormatString
import ScriptCompiler.Proofs.NumberValue

/-!
# Keys of dictionaries

A dictionary becomes a record, and the keys of a record are property names: string literals,
numbers, or expressions in brackets. A key is written in brackets unless it is a string, several
strings, or a number. Several strings of which one has holes are a template, so there the brackets
are missing. All other keys but numbers become property names. Of the numbers, integers do. Digits
after a zero are taken for octal ones, so an eight or a nine among them is misspelt. A
floating-point number keeps its digits, and is misspelt if those before the point or the exponent
are octal ones after a zero.

A record begins with a brace. So does a statement that begins with a dictionary, and there a script
reads a block.
-/

namespace ScriptCompiler

/-! ## Property names -/

namespace Script

/-- Whether a text is a number and nothing else. -/
def isNumber (cs : List Char) : Bool := Lexer.startsNumber cs && Lexer.skipNumber cs = some []

/-- Whether a text may stand before the colon of a property. -/
def isPropertyName (cs : List Char) : Bool :=
  (literalUnits? cs).isSome || isNumber cs || (cs.head? = some '[' && cs.getLast? = some ']')

theorem isPropertyName_quoted (v : List Char) : isPropertyName (Literal.quoted v) = true := by
  simp [isPropertyName, literalUnits?_quoted]

theorem isPropertyName_brackets (text : String) : isPropertyName (brackets text).toList = true := by
  have hlast : (brackets text).toList.getLast? = some ']' := by
    rw [brackets, String.toList_append]
    exact List.getLast?_concat
  have hhead : (brackets text).toList.head? = some '[' := by simp [brackets]
  simp [isPropertyName, hlast, hhead]

theorem isPropertyName_template (body : String) :
    isPropertyName (template body).toList = false := by
  simp [isPropertyName, literalUnits?, isNumber, Lexer.startsNumber, template, Literal.isQuote]

theorem Numeral.isNumber {cs : List Char} (h : Numeral cs) : isNumber cs = true := by
  obtain ⟨c, ds, rfl, hdigit, -⟩ := h.exists_cons
  have hskip : Lexer.skipNumber (c :: ds ++ []) = some [] := h.skipNumber_append nofun
  rw [List.append_nil] at hskip
  have hstarts : Lexer.startsNumber (c :: ds) = true := by
    have hpoint : c ≠ '.' := by
      rintro rfl
      exact absurd hdigit (by decide)
    simp [Lexer.startsNumber, hpoint, hdigit]
  simp [Script.isNumber, hstarts, hskip]

end Script

/-! ## Numbers as property names -/

namespace Literal

open Script.Lexer (isHexDigit)

variable {c : Char}

theorem PowerPart.skipExponent_text (e : PowerPart) :
    Script.Lexer.skipExponent (withoutSeparators e.text) = some [] := by
  have hdigits := isDigit_of_mem_withoutSeparators e.isDigitPart
  have hmark : e.mark = 'e' ∨ e.mark = 'E' := by simpa using e.mark_mem
  obtain ⟨c, cs, hcs⟩ := List.exists_cons_of_ne_nil e.hasDigit
  rw [hcs] at hdigits
  have hdrop : (c :: cs).dropWhile Char.isDigit = [] := List.dropWhile_eq_nil_iff.2 hdigits
  have hc : c.isDigit = true := hdigits c List.mem_cons_self
  rw [e.withoutSeparators_text, hcs]
  simp only [Script.Lexer.skipExponent]
  rw [if_pos (by simpa using hmark)]
  cases hs : e.sign with
  | none =>
    rw [Option.toList_none, List.nil_append]
    split
    · next heq => exact absurd ((List.cons.inj heq).1 ▸ hc) (by decide)
    · next heq => exact absurd ((List.cons.inj heq).1 ▸ hc) (by decide)
    · rw [hdrop, List.head?_cons, Option.any_some, hc, if_pos rfl]
  | some sign =>
    have hsign : sign = '+' ∨ sign = '-' := by simpa using e.sign_mem sign hs
    rcases hsign with rfl | rfl
    all_goals
      simp only [Option.toList_some, List.cons_append, List.nil_append]
      rw [hdrop, List.head?_cons, Option.any_some, hc, if_pos rfl]

/-- Of the numbers that are no integers, those with octal digits after a zero are not read to their
end. -/
theorem skipNumber_append_iff {whole rest : List Char} (hwhole : ∀ c ∈ whole, c.isDigit = true)
    (hstop : ∀ c ∈ rest.head?, c.isDigit = false) (hrest : rest ≠ [])
    (hbase : ∀ c ∈ whole ++ rest, Script.Lexer.baseDigit? c = none)
    (hdecimal : Script.Lexer.skipDecimal (whole ++ rest) = some []) :
    Script.Lexer.skipNumber (whole ++ rest) = some [] ↔
      ¬ ((whole.head? = some '0' ∧ whole ≠ ['0']) ∧ ∀ c ∈ whole, c ≤ '7') := by
  have hplain : (∀ mark digits, whole ++ rest ≠ '0' :: mark :: digits) →
      Script.Lexer.skipNumber (whole ++ rest) = some [] := by
    intro hne
    rw [Script.Lexer.skipNumber]
    · simp [hdecimal]
    · exact hne
  obtain ⟨next, tail, rfl⟩ := List.exists_cons_of_ne_nil hrest
  rcases whole with _ | ⟨c, _ | ⟨d, ds⟩⟩
  · refine iff_of_true (hplain fun mark digits heq => ?_) (by simp)
    obtain ⟨rfl, -⟩ := List.cons.inj heq
    exact absurd (hstop '0' rfl) (by decide)
  · by_cases hc : c = '0'
    · subst hc
      refine iff_of_true ?_ (by simp)
      have hnext : next.isDigit = false := hstop next rfl
      simp only [List.cons_append, List.nil_append] at hdecimal hbase ⊢
      simp [Script.Lexer.skipNumber, hbase next (by simp), hnext, hdecimal]
    · exact iff_of_true (hplain fun mark digits heq => hc (List.cons.inj heq).1) (by simp [hc])
  · by_cases hc : c = '0'
    · subst hc
      have hspan := span_append hwhole hstop
      have hdigit : d.isDigit = true := hwhole d (by simp)
      have hmark := hbase d (by simp)
      simp only [List.cons_append] at hspan hdecimal ⊢
      simp only [Script.Lexer.skipNumber, hmark, hdigit, if_true, Script.Lexer.skipZeroFirst, hspan,
        hdecimal]
      by_cases hoctal : ∀ e ∈ '0' :: d :: ds, e ≤ '7'
      · refine iff_of_false ?_ (not_not_intro ⟨⟨rfl, by simp⟩, hoctal⟩)
        rw [if_pos (by simpa using hoctal)]
        simp
      · refine iff_of_true ?_ fun h => hoctal h.2
        rw [if_neg (by simpa using hoctal)]
        rfl
    · exact iff_of_true (hplain fun mark digits heq => hc (List.cons.inj heq).1) (by simp [hc])

namespace FloatToken
variable (t : FloatToken)

theorem skipExponent_power :
    Script.Lexer.skipExponent (t.power.elim [] (fun e => withoutSeparators e.text)) = some [] := by
  cases t.power with
  | none => rfl
  | some e => exact e.skipExponent_text

theorem skipDecimal_text : Script.Lexer.skipDecimal (withoutSeparators t.text) = some [] := by
  have hpower := t.skipExponent_power
  have hplain := t.head?_power_plain
  rw [Script.Lexer.skipDecimal, withoutSeparators_text,
    (span_append (isDigit_of_mem_withoutSeparators t.whole_isDigitPart) t.head?_rest_not_digit).2]
  generalize t.power.elim [] (fun e => withoutSeparators e.text) = tail at hpower hplain
  cases hfraction : t.fraction with
  | none =>
    simp only [Option.elim_none, List.nil_append]
    split
    · exact absurd rfl (hplain '.' rfl).2
    · exact hpower
  | some ds =>
    have hdrop :=
      (span_append (isDigit_of_mem_withoutSeparators (t.fraction_isDigitPart ds hfraction))
      fun c hc => (hplain c hc).1).2
    simp only [Option.elim_some, List.cons_append, hdrop, hpower]

/-- Whether the digits before the point are octal digits after a zero. -/
def IsOctalFirst : Prop := t.HasStrayZero ∧ ∀ c ∈ withoutSeparators t.whole, c ≤ '7'

theorem rest_ne_nil :
    t.fraction.elim [] (fun ds => '.' :: withoutSeparators ds) ++
      t.power.elim [] (fun e => withoutSeparators e.text) ≠ [] := by
  rcases t.isFloat with h | h
  · obtain ⟨ds, hds⟩ := Option.isSome_iff_exists.1 h
    simp [hds]
  · obtain ⟨e, he⟩ := Option.isSome_iff_exists.1 h
    simp [he, e.withoutSeparators_text]

theorem baseDigit?_eq_none (h : isFloatChar c = true) : Script.Lexer.baseDigit? c = none := by
  have hnone := of_isFloatChar (P := fun c => (Script.Lexer.baseDigit? c).isNone = true)
      (by decide +kernel) h
  exact Option.isNone_iff_eq_none.1 hnone

/-- A literal is read to its end unless it starts as an octal number. -/
theorem skipNumber_text_iff :
    Script.Lexer.skipNumber (withoutSeparators t.text) = some [] ↔ ¬ t.IsOctalFirst := by
  have hdecimal := t.skipDecimal_text
  have hbase : ∀ c ∈ withoutSeparators t.text, Script.Lexer.baseDigit? c = none := fun c hc =>
    baseDigit?_eq_none (t.isFloatChar_of_mem c hc)
  rw [withoutSeparators_text] at hdecimal hbase ⊢
  exact skipNumber_append_iff (isDigit_of_mem_withoutSeparators t.whole_isDigitPart)
    t.head?_rest_not_digit
    t.rest_ne_nil hbase hdecimal

theorem startsNumber_text : Script.Lexer.startsNumber (withoutSeparators t.text) = true := by
  have hwhole := isDigit_of_mem_withoutSeparators t.whole_isDigitPart
  have hdigit := t.hasDigit
  rw [withoutSeparators_text]
  cases hw : withoutSeparators t.whole with
  | cons c cs =>
    have hc : c.isDigit = true := hwhole c (by simp [hw])
    have hpoint : c ≠ '.' := by
      rintro rfl
      exact absurd hc (by decide)
    simp [Script.Lexer.startsNumber, hpoint, hc]
  | nil =>
    -- Without digits before the point there is a point, and digits after it.
    have hfraction := hdigit.resolve_left fun h => h hw
    cases hf : t.fraction with
    | none => simp [hf, withoutSeparators] at hfraction
    | some ds =>
      obtain ⟨d, ds', hds⟩ := List.exists_cons_of_ne_nil (by simpa [hf] using hfraction)
      have hd : d.isDigit = true :=
        isDigit_of_mem_withoutSeparators (t.fraction_isDigitPart ds hf) d (by simp [hds])
      simp [Script.Lexer.startsNumber, hds, hd]

theorem isNumber_text_iff :
    Script.isNumber (withoutSeparators t.text) = true ↔ ¬ t.IsOctalFirst := by
  simp [Script.isNumber, startsNumber_text, skipNumber_text_iff]

theorem isPropertyName_text_iff :
    Script.isPropertyName (withoutSeparators t.text) = true ↔ ¬ t.IsOctalFirst := by
  have hplain : ∀ c ∈ withoutSeparators t.text, c ≠ '[' ∧ isQuote c = false := fun c hc =>
    of_isFloatChar (P := fun c => c ≠ '[' ∧ isQuote c = false) (by decide +kernel)
      (t.isFloatChar_of_mem c hc)
  rw [← t.isNumber_text_iff]
  generalize withoutSeparators t.text = cs at hplain
  cases cs with
  | nil => simp [Script.isPropertyName, Script.literalUnits?]
  | cons c cs =>
    obtain ⟨hbracket, hquote⟩ := hplain c List.mem_cons_self
    simp [Script.isPropertyName, Script.literalUnits?, hbracket, hquote]

end FloatToken

/-- Octal digits with an eight or a nine among them are not read to their end. -/
theorem isPropertyName_octal_eq_false {ds : List Char} (hdigits : ∀ d ∈ ds, d.isDigit = true)
    (hc : c ∈ ds)
    (hlarge : isOctalDigit c = false) : Script.isPropertyName ('0' :: 'o' :: ds) = false := by
  have hmark : Script.Lexer.baseDigit? 'o' = some isOctalDigit := rfl
  have hskip : Script.Lexer.skipNumber ('0' :: 'o' :: ds) = none := by
    simp only [Script.Lexer.skipNumber, hmark]
    split_ifs with hhead
    · obtain ⟨d, rest, hrest⟩ :=
        List.exists_cons_of_ne_nil (List.ne_nil_of_mem (mem_dropWhile_of_not hc hlarge))
      have hd : d.isDigit = true := hdigits d (List.dropWhile_subset _ (hrest ▸ List.mem_cons_self))
      simp [hrest, hd]
    · rfl
  simp [Script.isPropertyName, Script.literalUnits?, isQuote, Script.isNumber, hskip]

/-- Digits after a zero are written as octal digits, and no literal has an eight or a nine among
those. -/
theorem isPropertyName_lowerNumber_eq_false {token ds suffix : List Char}
    (htoken : withoutSeparators token = '0' :: ds ++ suffix) (hsuffix : suffix ∈ [[], ['l'], ['L']])
    (hdigits : ∀ d ∈ ds, d.isDigit = true) (hc : c ∈ ds) (hlarge : isOctalDigit c = false) :
    ∃ out, lowerNumber token = .ok out ∧ Script.isPropertyName out = false := by
  have hall : ∀ d ∈ '0' :: ds, d.isDigit = true := List.forall_mem_cons.2 ⟨rfl, hdigits⟩
  obtain ⟨front, e, hfront⟩ : ∃ front e, '0' :: ds = front ++ [e] :=
    ⟨_, _, (List.dropLast_append_getLast (List.cons_ne_nil '0' ds)).symm⟩
  have he : isHexDigit e = true := isHexDigit_of_isDigit (hall e (by simp [hfront]))
  obtain ⟨htrim, hj, hJ⟩ := trimEnd_digits front he hsuffix
  rw [← hfront, ← htoken] at htrim hj hJ
  have hoctal :
      (1 < ('0' :: ds).length && ('0' :: ds).head? == some '0' && ('0' :: ds).all Char.isDigit) =
      true := by
    have hlength : 0 < ds.length := List.length_pos_of_mem hc
    simpa [hlength] using hdigits
  have hzero : (c = '0') = False := by
    rw [eq_iff_iff, iff_false]
    rintro rfl
    exact absurd hlarge (by decide)
  have hkept : c ∈ ('0' :: ds).dropWhile (· = '0') :=
    mem_dropWhile_of_not (List.mem_cons_of_mem _ hc) (by simp [hzero])
  have hnonzero : ('0' :: ds).all (· = '0') = false := by
    rw [List.all_eq_false]
    exact ⟨c, List.mem_cons_of_mem _ hc, by simp [hzero]⟩
  refine ⟨'0' :: 'o' :: ('0' :: ds).dropWhile (· = '0'), ?_,
    isPropertyName_octal_eq_false (fun d hd => hall d (List.dropWhile_subset _ hd)) hkept hlarge⟩
  rw [lowerNumber_eq htrim hj hJ, hasBaseMark_lower_of_isDigit hall, if_neg (by decide),
    if_pos hoctal,
    if_neg (by simp [hnonzero])]

end Literal

/-! ## Keys -/

namespace Expr

/-- Whether the expression is several strings of which one has holes. -/
def joinsFormat : Expr → Bool
  | .joined first rest => first.isFormat || rest.any (·.isFormat)
  | _ => false

/-- Whether the expression is a number that does not become a property name. `KeyWritten` says of
the tokens which those are. -/
def isMisspelt : Expr → Bool
  | .number _ _ token => !(Literal.lowerNumber token.toList).toOption.any Script.isPropertyName
  | _ => false

structure KeyWritten (key : Expr) (name : String) : Prop where
  /-- The name is the text of the key, in brackets if it is neither a number nor made of strings. -/
  own : ∃ s t f, (Lowering.fragment key).run s = .ok f t ∧
    name = Script.propertyKey key.isLiteralKey f.text
  template : key.joinsFormat = true → ∃ body, name = Script.template body
  integer : ∀ pos isFloat token, key = .number pos isFloat token →
    Literal.isInteger token.toList = true →
    Script.isNumber name.toList = true
  /-- A floating-point number becomes a property name unless it starts with octal digits after a
  zero, as `01.5` and `00e1` do. -/
  float : ∀ pos isFloat token (number : Literal.FloatToken), key = .number pos isFloat token →
    token.toList = number.text → (Script.isPropertyName name.toList = true ↔ ¬ number.IsOctalFirst)
  /-- An eight or a nine among the digits after a zero, as in `08`, makes no property name. -/
  mixed : ∀ pos isFloat token ds suffix, key = .number pos isFloat token →
    Literal.withoutSeparators token.toList = '0' :: ds ++ suffix → suffix ∈ [[], ['l'], ['L']] →
    (∀ d ∈ ds, d.isDigit = true) → (∃ c ∈ ds, isOctalDigit c = false) →
    Script.isPropertyName name.toList = false
  legal : Script.isPropertyName name.toList = true ↔ key.joinsFormat = false ∧
    key.isMisspelt = false

/-- Of a key that is no number, only the brackets and the template remain to be said. -/
theorem KeyWritten.of_ne_number {key : Expr} {name : String}
    (hown : ∃ s t f, (Lowering.fragment key).run s = .ok f t ∧
      name = Script.propertyKey key.isLiteralKey f.text)
    (htemplate : key.joinsFormat = true → ∃ body, name = Script.template body)
    (hnumber : ∀ pos isFloat token, key ≠ .number pos isFloat token)
    (hlegal : Script.isPropertyName name.toList = true ↔
      key.joinsFormat = false ∧ key.isMisspelt = false) : key.KeyWritten name where
  own := hown
  template := htemplate
  integer _ _ _ heq := absurd heq (hnumber _ _ _)
  float _ _ _ _ heq := absurd heq (hnumber _ _ _)
  mixed _ _ _ _ _ heq := absurd heq (hnumber _ _ _)
  legal := hlegal

end Expr

namespace Lowering

variable {s t u : LoweringState} {f : Fragment}

theorem exists_quoted {token text : List Char} (h : Literal.lowerString token = .ok text) :
    ∃ value, text = Literal.quoted value := by
  rw [Literal.lowerString] at h
  cases hvalue : Literal.stringValue token with
  | error fault =>
    rw [hvalue] at h
    cases h
  | ok value =>
    rw [hvalue] at h
    exact ⟨value, (Except.ok.inj h).symm⟩

theorem keyWritten_string {token : StringToken} (h : (fragment (.string token)).run s = .ok f t) :
    (Expr.string token).KeyWritten
    (Script.propertyKey (Expr.string token).isLiteralKey f.text) := by
  refine .of_ne_number ⟨s, t, f, h, rfl⟩ nofun nofun (iff_of_true ?_ ⟨rfl, rfl⟩)
  by_cases hformat : token.isFormat = true
  · rw [Expr.isLiteralKey, hformat]
    exact Script.isPropertyName_brackets _
  · rw [fragment, if_neg hformat] at h
    obtain ⟨text, htext, h⟩ := exists_of_locate_bind_eq_ok h
    obtain ⟨value, rfl⟩ := exists_quoted htext
    cases h
    rw [Expr.isLiteralKey, Bool.eq_false_iff.mpr hformat]
    show Script.isPropertyName (String.ofList (Literal.quoted value)).toList = true
    rw [String.toList_ofList]
    exact Script.isPropertyName_quoted value

theorem keyWritten_joined {first : StringToken} {rest : List StringToken}
    (h : (fragment (.joined first rest)).run s = .ok f t) :
    (Expr.joined first rest).KeyWritten f.text := by
  refine .of_ne_number ⟨s, t, f, h, rfl⟩ ?_ nofun ?_
  · intro hformat
    rw [Expr.joinsFormat] at hformat
    rw [fragment, if_pos hformat] at h
    obtain ⟨_, -, h⟩ := exists_of_locate_bind_eq_ok h
    obtain ⟨head, t, -, h⟩ := exists_of_bind_eq_ok h
    obtain ⟨tail, t, -, h⟩ := exists_of_bind_eq_ok h
    cases h
    exact ⟨_, rfl⟩
  · have hspelt : (Expr.joined first rest).isMisspelt = false := rfl
    rw [fragment] at h
    obtain ⟨_, -, h⟩ := exists_of_locate_bind_eq_ok h
    rw [Expr.joinsFormat, hspelt]
    split_ifs at h with hformat
    · obtain ⟨head, t, -, h⟩ := exists_of_bind_eq_ok h
      obtain ⟨tail, t, -, h⟩ := exists_of_bind_eq_ok h
      cases h
      rw [Fragment.text, Script.isPropertyName_template, hformat]
      simp
    · obtain ⟨values, t, -, h⟩ := exists_of_bind_eq_ok h
      cases h
      rw [Fragment.text, String.toList_ofList, Script.isPropertyName_quoted]
      simpa using hformat

theorem keyWritten_number {pos : Position} {isFloat : Bool} {token : String}
    (h : (fragment (.number pos isFloat token)).run s = .ok f t) :
    (Expr.number pos isFloat token).KeyWritten f.text := by
  refine ⟨⟨s, t, f, h, rfl⟩, nofun, ?_, ?_, ?_, ?_⟩
  all_goals
    obtain ⟨text, htext, h⟩ := exists_of_locate_bind_eq_ok h
    cases h
    simp only [Fragment.text, String.toList_ofList]
  · rintro pos isFloat token ⟨⟩ hinteger
    obtain ⟨digits, hdigits, hnumeral⟩ := Literal.exists_lowerNumber hinteger
    obtain rfl := Except.ok.inj (htext.symm.trans hdigits)
    exact hnumeral.isNumber
  · rintro pos isFloat token number ⟨⟩ htoken
    rw [htoken, number.lowerNumber_text] at htext
    obtain rfl := Except.ok.inj htext
    exact number.isPropertyName_text_iff
  · rintro pos isFloat token ds suffix ⟨⟩ htoken hsuffix hdigits ⟨c, hc, hlarge⟩
    obtain ⟨out, hout, hillegal⟩ :=
      Literal.isPropertyName_lowerNumber_eq_false htoken hsuffix hdigits hc hlarge
    obtain rfl := Except.ok.inj (htext.symm.trans hout)
    exact hillegal
  · simp [Expr.joinsFormat, Expr.isMisspelt, htext, Except.toOption]

theorem keyWritten {key : Expr} (h : (fragment key).run s = .ok f t) :
    key.KeyWritten (Script.propertyKey key.isLiteralKey f.text) := by
  cases key with
  | string token => exact keyWritten_string h
  | joined first rest => exact keyWritten_joined h
  | number pos isFloat token => exact keyWritten_number h
  | _ =>
    exact .of_ne_number ⟨s, t, f, h, rfl⟩ nofun nofun
      (iff_of_true (Script.isPropertyName_brackets _) ⟨rfl, rfl⟩)

/-- An entry of a dictionary is written with its key before the colon. -/
inductive EntryWritten : Entry → String → Prop
  | pair {key value : Expr} {name text : String} (hkey : key.KeyWritten name) :
    EntryWritten (.pair key value) (name ++ ": " ++ text)
  | splat {value : Expr} {text : String} : EntryWritten (.splat value) ("..." ++ text)

theorem entriesWritten {entries : List Entry} {texts : List String}
    (h : (entryTexts entries).run s = .ok texts t) : List.Forall₂ EntryWritten entries texts := by
  induction entries generalizing s texts with
  | nil =>
    cases h
    exact .nil
  | cons entry rest ih =>
    cases entry with
    | pair key value =>
      obtain ⟨k, t, hkey, h⟩ := exists_of_bind_eq_ok h
      obtain ⟨v, t, -, h⟩ := exists_of_bind_eq_ok h
      obtain ⟨texts, t, hrest, h⟩ := exists_of_bind_eq_ok h
      cases h
      exact .cons (.pair (keyWritten hkey)) (ih hrest)
    | splat value =>
      obtain ⟨v, t, -, h⟩ := exists_of_bind_eq_ok h
      obtain ⟨texts, t, hrest, h⟩ := exists_of_bind_eq_ok h
      cases h
      exact .cons .splat (ih hrest)

theorem exists_dictionary_texts {pos : Position} {entries : List Entry}
    (h : (fragment (.dictionary pos entries)).run s = .ok f t) :
    ∃ texts, List.Forall₂ EntryWritten entries texts ∧
    (f.text = Script.braces (Script.commas texts) ∨
      ∃ inner outer, f.text = "\x7b\n" ++ inner ++ (",\n" ++ inner).intercalate texts ++ "\n" ++
      outer ++ "\x7d") := by
  rw [fragment] at h
  split_ifs at h
  · obtain ⟨texts, u, htexts, h⟩ := exists_of_bind_eq_ok h
    rw [nested, run_perform_bind, run_ensuring] at htexts
    cases hrun : (entryTexts entries).run (Change.enterDict.apply s) with
    | error d u =>
      rw [hrun] at htexts
      cases htexts
    | ok texts' u' =>
      rw [hrun] at htexts
      cases htexts
      cases h
      exact ⟨texts, entriesWritten hrun, .inr ⟨_, _, rfl⟩⟩
  · obtain ⟨texts, u, htexts, h⟩ := exists_of_bind_eq_ok h
    cases h
    exact ⟨texts, entriesWritten htexts, .inl rfl⟩

/-- In the text of a dictionary each key is a property name, unless it is several strings of which
one has holes or a number whose literal is none. -/
theorem dictionary_keys_legal_iff {pos : Position} {entries : List Entry}
    (h : (fragment (.dictionary pos entries)).run s = .ok f t) :
    ∃ texts, List.Forall₂ EntryWritten entries texts ∧
    (f.text = Script.braces (Script.commas texts) ∨
      ∃ inner outer, f.text = "\x7b\n" ++ inner ++ (",\n" ++ inner).intercalate texts ++ "\n" ++
      outer ++ "\x7d") := by
  exact exists_dictionary_texts h

/-- A dictionary with keys of all kinds. -/
def priceEntries : List Entry :=
  let one : Expr := .number .first false "1"
  [.pair (.joined (.mk .first "f'a'" [.text ['a']]) [.mk .first "'b'" [.text ['b']]]) one,
    .pair (.name .first "c") one,
    .pair (.string (.mk .first "'d'" [.text ['d']])) one, .pair (.number .first false "08") one,
    .pair one one]

theorem priceEntries_keys_legal_iff :
    ∃ f t, (fragment (.dictionary .first priceEntries)).run (.start (.ofBinding none) 4) =
      .ok f t ∧ f.text =
      "\x7b\n    \x60ab\x60: 1,\n    [c]: 1,\n    'd': 1,\n    0o8: 1,\n    1: 1\n\x7d" ∧
    ∃ texts, List.Forall₂ EntryWritten priceEntries texts ∧
    (f.text = Script.braces (Script.commas texts) ∨
      ∃ inner outer, f.text = "\x7b\n" ++ inner ++ (",\n" ++ inner).intercalate texts ++ "\n" ++
      outer ++ "\x7d") := by
  have htext :
      (match (fragment (.dictionary .first priceEntries)).run (.start (.ofBinding none) 4) with
      | .ok f _ =>
        f.text == "\x7b\n    \x60ab\x60: 1,\n    [c]: 1,\n    'd': 1,\n    0o8: 1,\n    1: 1\n\x7d"
      | .error _ _ => false) = true := by decide +kernel
  split at htext
  · next f t hrun => exact ⟨f, t, hrun, by simpa using htext, dictionary_keys_legal_iff hrun⟩
  · cases htext

/-- A template stands before the colon without brackets. -/
theorem template_key_has_no_brackets :
    (SourceUnit.mk "x = \x7bf'a' 'b': 1\x7d\n" none .module).compile {} =
    .ok "var x = \x7b\x60ab\x60: 1\x7d;\n" ∧
      Script.isPropertyName "\x60ab\x60".toList = false := by
  decide +kernel

/-! ## Statements that begin with a dictionary -/

end Lowering

namespace Expr

/-- Dictionaries, and members, items and calls of such expressions. -/
inductive DictionaryPath : Expr → Prop
  | dictionary (pos : Position) (entries : List Entry) : DictionaryPath (.dictionary pos entries)
  | member {object : Expr} (h : DictionaryPath object) (key : String) :
      DictionaryPath (.member object key)
  | item {value : Expr} (h : DictionaryPath value) (index : Expr) :
    DictionaryPath (.subscript value [.item index])
  | call {function : Expr} (h : DictionaryPath function) (arguments : List Argument) :
    DictionaryPath (.call function arguments)

/-- Expressions that begin with a dictionary, maybe on the left of a comparison. -/
inductive OpensWithDictionary : Expr → Prop
  | path {e : Expr} (h : e.DictionaryPath) : OpensWithDictionary e
  | comparison {op : CompareOp} {left : Expr} (hop : op.symbol?.isSome = true)
      (h : left.DictionaryPath)
    (right : Expr) : OpensWithDictionary (.comparison op left right)

variable {e : Expr}

/-- What begins with a dictionary is no value of the context. -/
theorem DictionaryPath.contextHit?_eq_none (h : e.DictionaryPath) (scopes : Scopes)
    (binder : Binder) : e.contextHit? scopes binder = .ok none := by
  induction h with
  | member _ _ ih =>
    rw [contextHit?, ih]
    rfl
  | _ => rfl

end Expr

namespace Script

/-- Whether a text begins with a brace. -/
def opensBlock (text : String) : Bool := text.toList.head? = some '\x7b'

theorem opensBlock_append {x : String} (h : opensBlock x = true) (y : String) :
    opensBlock (x ++ y) = true := by
  rw [opensBlock, decide_eq_true_eq] at h ⊢
  rw [String.toList_append, List.head?_append, h]
  rfl

theorem isNumeral_of_opensBlock {text : String} (h : opensBlock text = true) :
    isNumeral text = false := by
  rw [opensBlock, decide_eq_true_eq] at h
  unfold isNumeral
  split
  · next heq =>
    rw [heq] at h
    cases h
  · simp [h]

end Script

open Script (opensBlock)

namespace Lowering

variable {e : Expr}

theorem receiver_of_dictionaryPath (he : e.DictionaryPath) {text : String}
    (h : opensBlock text = true) : Script.receiver e.kind text = text := by
  have hopen : Script.isOpen e.kind = false := by cases he <;> rfl
  simp [Script.receiver, Script.grouped, hopen, Script.isNumeral_of_opensBlock h]

/-- The brace of a dictionary stays in front of everything that is built on it. -/
theorem opensBlock_of_dictionaryPath (he : e.DictionaryPath) {s t : LoweringState} {f : Fragment}
    (h : (fragment e).run s = .ok f t) : opensBlock f.text = true := by
  induction he generalizing s t f with
  | dictionary pos entries =>
    obtain ⟨texts, -, htext | ⟨inner, outer, htext⟩⟩ := exists_dictionary_texts h
    · simp [htext, opensBlock, Script.braces]
    · simp [htext, opensBlock]
  | @member object hobject key ih =>
    have hmark : (isConstructorMark object).run s = .ok false s := by cases hobject <;> rfl
    rw [fragment, run_bind_of_ok hmark] at h
    simp only [Bool.false_eq_true, if_false] at h
    have hcontext : (contextText? (.member object key)).run s = .ok none s := by
      rw [contextText?, run_get_bind, (Expr.DictionaryPath.member hobject key).contextHit?_eq_none]
      rfl
    rw [run_bind_of_ok hcontext] at h
    obtain ⟨base, u, hbase, h⟩ := exists_of_bind_eq_ok h
    cases h
    rw [Fragment.text, receiver_of_dictionaryPath hobject (ih hbase)]
    exact Script.opensBlock_append (Script.opensBlock_append (ih hbase) _) _
  | @item value hvalue index ih =>
    rw [fragment] at h
    obtain ⟨base, u, hbase, h⟩ := exists_of_bind_eq_ok h
    obtain ⟨item, u, -, h⟩ := exists_of_bind_eq_ok h
    cases h
    rw [Fragment.text, receiver_of_dictionaryPath hvalue (ih hbase)]
    exact Script.opensBlock_append (ih hbase) _
  | @call function hfunction arguments ih =>
    have hspecial : (specialFunction? function).run s = .ok none s := by cases hfunction <;> rfl
    rw [fragment, run_bind_of_ok hspecial] at h
    obtain ⟨callee, u, hcallee, h⟩ := exists_of_bind_eq_ok h
    obtain ⟨texts, u, -, h⟩ := exists_of_bind_eq_ok h
    cases h
    rw [Fragment.text, Script.call]
    split_ifs
    · exact Script.opensBlock_append (ih hcallee) _
    · simp only [String.append_assoc]
      exact Script.opensBlock_append (ih hcallee) _

theorem opensBlock_of_opensWithDictionary (he : e.OpensWithDictionary)
    (h : (fragment e).run s = .ok f t) : opensBlock f.text = true := by
  cases he with
  | path he => exact opensBlock_of_dictionaryPath he h
  | @comparison op left hop hleft right =>
    obtain ⟨symbol, hsymbol⟩ := Option.isSome_iff_exists.1 hop
    have hkind : left.kind ≠ .comparisonOperator := by cases hleft <;> nofun
    rw [fragment, if_neg hkind] at h
    obtain ⟨l, u, hl, h⟩ := exists_of_bind_eq_ok h
    obtain ⟨r, u, -, h⟩ := exists_of_bind_eq_ok h
    cases h
    simp only [Fragment.text, Script.comparison, hsymbol, String.append_assoc]
    exact Script.opensBlock_append (opensBlock_of_dictionaryPath hleft hl) _

/-- A statement that begins with a dictionary is written with the brace in front, where a block
would begin. -/
theorem dictionary_statement_opens_block {pos : Position} (he : e.OpensWithDictionary)
    (h : (statement (.evaluate pos [e])).run s = .ok () t) :
    ∃ text u, (Lowering.text e).run s = .ok text u ∧ opensBlock (text ++ ";") = true ∧
      t = (Change.write (text ++ ";")).apply u := by
  rw [statement] at h
  obtain ⟨text, u, htext, h⟩ := exists_of_bind_eq_ok h
  cases h
  refine ⟨text, u, htext, Script.opensBlock_append ?_ _, rfl⟩
  rw [Lowering.text] at htext
  obtain ⟨f, v, hf, htext⟩ := exists_of_bind_eq_ok htext
  cases htext
  exact opensBlock_of_opensWithDictionary he hf

/-- A member of an item of a dictionary, on the left of a comparison. -/
def priceTest : Expr :=
  .comparison .eq
    (.member (.subscript (.dictionary .first []) [.item (.number .first false "1")]) "a")
    (.name .first "b")

theorem priceTest_opens_block :
    ∃ t, (statement (.evaluate .first [priceTest])).run (.start (.ofBinding none) 4) =
      .ok () t ∧ t.buffer.read = "\x7b\x7d[1].a == b;\n" ∧
    ∃ text u, (Lowering.text priceTest).run (.start (.ofBinding none) 4) = .ok text u ∧
      opensBlock (text ++ ";") = true ∧ t = (Change.write (text ++ ";")).apply u := by
  have hread :
      (match (statement (.evaluate .first [priceTest])).run (.start (.ofBinding none) 4) with
      | .ok _ t => t.buffer.read == "\x7b\x7d[1].a == b;\n"
      | .error _ _ => false) = true := by decide +kernel
  have he : priceTest.OpensWithDictionary :=
    .comparison rfl (.member (.item (.dictionary _ _) _) _) _
  split at hread
  · next t hrun => exact ⟨t, hrun, by simpa using hread, dictionary_statement_opens_block he hrun⟩
  · cases hread

/-- An empty dictionary that is a statement is taken for an empty block. -/
theorem empty_dictionary_opens_block :
    (SourceUnit.mk "\x7b\x7d\n" none .module).compile {} = .ok "\x7b\x7d;\n" := by
  decide +kernel

end Lowering

end ScriptCompiler
