import Mathlib.Algebra.Field.Rat
import Mathlib.Data.Nat.Digits.Lemmas
import ScriptCompiler.Proofs.Numeral

/-!
# The values of numbers

Number tokens of programs and number literals of scripts, with the numbers that they denote.
`Script.numberValue?` reads a literal as strict scripts do: a number that starts with a zero has no
further digit before its point. Main statements: an integer token is lowered to a literal of the
same integer (`lowerNumber_keeps_integer`), and a floating-point token to a literal of the same
rational number exactly if no needless zero stands at its front (`lowerNumber_keeps_float_iff`).
-/

namespace ScriptCompiler

open Script.Lexer (isHexDigit)

variable {c : Char} {ds : List Char} {base : Nat}

namespace Literal

/-! ## Digits -/

def digitValue (c : Char) : Nat := "0123456789abcdef".toList.idxOf c.toLower

/-- The number that digits denote, the most significant one first. -/
def magnitude (base : Nat) (ds : List Char) : Nat := Nat.ofDigits base (ds.reverse.map digitValue)

def isDigitOf (base : Nat) (c : Char) : Bool := isHexDigit c && digitValue c < base

theorem magnitude_concat (base : Nat) (ds : List Char) (c : Char) :
    magnitude base (ds ++ [c]) = magnitude base ds * base + digitValue c := by
  rw [magnitude, List.reverse_concat, List.map_cons, Nat.ofDigits_cons, Nat.add_comm, Nat.mul_comm]
  rfl

theorem magnitude_lt (hbase : 1 < base) (hdigits : ∀ c ∈ ds, digitValue c < base) :
    magnitude base ds < base ^ ds.length := by
  have hlt := Nat.ofDigits_lt_base_pow_length (l := ds.reverse.map digitValue) hbase fun n hn => by
    obtain ⟨c, hc, rfl⟩ := List.mem_map.1 hn
    exact hdigits c (List.mem_reverse.1 hc)
  rwa [List.length_map, List.length_reverse] at hlt

theorem magnitude_zero_cons (base : Nat) (ds : List Char) :
    magnitude base ('0' :: ds) = magnitude base ds := by
  rw [magnitude, List.reverse_cons, List.map_append, Nat.ofDigits_append]
  have hzero : Nat.ofDigits base (['0'].map digitValue) = 0 := by
    rw [List.map_singleton, Nat.ofDigits_singleton]
    decide
  rw [hzero, Nat.mul_zero, Nat.add_zero, magnitude]

theorem magnitude_dropWhile_zero (base : Nat) (ds : List Char) :
    magnitude base (ds.dropWhile (· = '0')) = magnitude base ds := by
  induction ds with
  | nil => rfl
  | cons c ds ih =>
    rw [List.dropWhile_cons]
    split_ifs with hc
    · rw [ih, of_decide_eq_true hc, magnitude_zero_cons]
    · rfl

theorem magnitude_map_toLower (hdigits : ∀ c ∈ ds, isHexDigit c = true) :
    magnitude base (ds.map Char.toLower) = magnitude base ds := by
  have hvalue : ∀ c ∈ ds, digitValue c.toLower = digitValue c := fun c hc =>
    of_isHexDigit (P := fun c => digitValue c.toLower = digitValue c) (by decide +kernel)
      (hdigits c hc)
  rw [magnitude, ← List.map_reverse, List.map_map, magnitude]
  exact congrArg _ (List.map_congr_left fun c hc => hvalue c (List.mem_reverse.1 hc))

/-! ## Integer tokens -/

/-- The base that a letter after a zero stands for. -/
def baseOf? : Char → Option Nat
  | 'x' | 'X' => some 16
  | 'o' | 'O' => some 8
  | 'b' | 'B' => some 2
  | _ => none

/-- The digits of an integer and the integer. Digits after a leading zero are octal. -/
inductive IntegerDigits : List Char → Nat → Prop
  | decimal {c : Char} {ds : List Char} : c ≠ '0' → (∀ d ∈ c :: ds, d.isDigit = true) →
      IntegerDigits (c :: ds) (magnitude 10 (c :: ds))
  | zeros (count : Nat) : IntegerDigits (List.replicate (count + 1) '0') 0
  | octal {d : Char} {ds : List Char} : (∀ c ∈ d :: ds, isOctalDigit c = true) →
      IntegerDigits ('0' :: d :: ds) (magnitude 8 (d :: ds))
  | based {mark : Char} {base : Nat} {d : Char} {ds : List Char} :
      baseOf? mark = some base → (∀ c ∈ d :: ds, isDigitOf base c = true) →
      IntegerDigits ('0' :: mark :: d :: ds) (magnitude base (d :: ds))

/-- An integer token and its value. Underscores separate digits, and a letter may mark the integer
as long. -/
def IntegerToken (token : List Char) (n : Nat) : Prop :=
  ∃ digits suffix, token.filter (· ≠ '_') = digits ++ suffix ∧ suffix ∈ [[], ['l'], ['L']] ∧
    IntegerDigits digits n

end Literal

/-! ## Literals of scripts -/

namespace Script

open Literal

/-- The number of digits before and after a point, scaled by a power of ten. -/
def decimalValue (whole fraction : List Char) (power : Int) : ℚ :=
  (magnitude 10 whole + magnitude 10 fraction / 10 ^ fraction.length) * 10 ^ power

/-- The power of ten that an exponent part stands for. An absent one is zero. -/
def power? : List Char → Option Int
  | [] => some 0
  | e :: rest =>
    let negative := rest.head? = some '-'
    let digits := if rest.head? = some '-' ∨ rest.head? = some '+' then rest.tail else rest
    if (e = 'e' ∨ e = 'E') ∧ digits ≠ [] ∧ digits.all Char.isDigit then
      some (if negative then -(magnitude 10 digits : Int) else magnitude 10 digits)
    else none

/-- The value of a decimal literal. It has digits before or after its point, and if it starts with a
zero, that is the only digit before the point. -/
def decimal? (cs : List Char) : Option ℚ :=
  let whole := cs.takeWhile Char.isDigit
  let rest := cs.dropWhile Char.isDigit
  let fraction := if rest.head? = some '.' then rest.tail.takeWhile Char.isDigit else []
  let tail := if rest.head? = some '.' then rest.tail.dropWhile Char.isDigit else rest
  if whole = [] ∧ fraction = [] then none
  else if whole.head? = some '0' ∧ whole ≠ ['0'] then none
  else (power? tail).map (decimalValue whole fraction)

/-- The value of a number literal of a strict script. -/
def numberValue? (cs : List Char) : Option ℚ :=
  match cs with
  | '0' :: mark :: digits =>
    match baseOf? mark with
    | some base =>
      if digits ≠ [] ∧ digits.all (isDigitOf base) then some (magnitude base digits) else none
    | none => decimal? cs
  | _ => decimal? cs

/-! ## Reading literals -/

theorem decimal?_digits (hne : ds ≠ []) (hdigits : ∀ c ∈ ds, c.isDigit = true)
    (hzero : ds.head? = some '0' → ds = ['0']) : decimal? ds = some (magnitude 10 ds : ℚ) := by
  have hstop : ∀ c ∈ ([] : List Char).head?, c.isDigit = false := by simp
  obtain ⟨htake, hdrop⟩ := span_append hdigits hstop
  rw [List.append_nil] at htake hdrop
  have hstray : ¬ (ds.head? = some '0' ∧ ds ≠ ['0']) := fun h => h.2 (hzero h.1)
  simp [decimal?, htake, hdrop, hne, hstray, power?, decimalValue, magnitude]

theorem isDigitOf_toLower (hc : isDigitOf base c = true) : isDigitOf base c.toLower = true := by
  simp only [isDigitOf, Bool.and_eq_true, decide_eq_true_eq] at hc ⊢
  have hlower : isHexDigit c.toLower = true ∧ digitValue c.toLower = digitValue c :=
    of_isHexDigit (P := fun c => isHexDigit c.toLower = true ∧ digitValue c.toLower = digitValue c)
      (by decide +kernel) hc.1
  exact ⟨hlower.1, hlower.2 ▸ hc.2⟩

theorem numberValue?_based {mark : Char} (hmark : baseOf? mark = some base) (hne : ds ≠ [])
    (hdigits : ∀ c ∈ ds, isDigitOf base c = true) :
    numberValue? ('0' :: mark :: ds) = some (magnitude base ds : ℚ) := by
  simp only [numberValue?, hmark]
  rw [if_pos ⟨hne, List.all_eq_true.2 hdigits⟩]

theorem numberValue?_decimal (hne : ds ≠ []) (hdigits : ∀ c ∈ ds, c.isDigit = true)
    (hzero : ds.head? = some '0' → ds = ['0']) : numberValue? ds = some (magnitude 10 ds : ℚ) := by
  unfold numberValue?
  split
  · next mark digits => cases hzero rfl
  · exact decimal?_digits hne hdigits hzero

end Script

namespace Literal

/-! ## Lowering integers -/

theorem baseOf?_lower {mark : Char} (h : baseOf? mark = some base) :
    baseOf? mark.toLower = some base ∧ hasBaseMark ['0', mark.toLower] = true := by
  unfold baseOf? at h
  split at h
  case h_7 => cases h
  all_goals
    cases h
    exact ⟨rfl, rfl⟩

theorem trimEnd_digits {suffix : List Char} (ds : List Char) (hc : isHexDigit c = true)
    (hsuffix : suffix ∈ [[], ['l'], ['L']]) :
    trimEnd (fun c => c = 'l' || c = 'L') (ds ++ [c] ++ suffix) = ds ++ [c] ∧
      (ds ++ [c] ++ suffix).getLast? ≠ some 'j' ∧ (ds ++ [c] ++ suffix).getLast? ≠ some 'J' := by
  obtain ⟨-, -, hj, hJ, hl, hL⟩ := isHexDigit_plain hc
  simp only [List.mem_cons, List.not_mem_nil, or_false] at hsuffix
  rcases hsuffix with rfl | rfl | rfl <;> simp [trimEnd, *]

theorem isDigit_of_isDigitOf (h : isDigitOf base c = true) :
    isHexDigit c = true := (Bool.and_eq_true_iff.1 h).1

theorem isDigitOf_of_isOctalDigit (h : isOctalDigit c = true) : isDigitOf 8 c = true :=
  of_isHexDigit (P := fun c => isOctalDigit c = true → isDigitOf 8 c = true) (by decide +kernel)
    (isHexDigit_of_isDigit (isDigit_of_isOctalDigit h)) h

theorem IntegerDigits.exists_concat {digits : List Char} {n : Nat} (h : IntegerDigits digits n) :
    ∃ front c, digits = front ++ [c] ∧ isHexDigit c = true := by
  cases h with
  | decimal _ hdigits =>
    obtain ⟨front, c, heq, hc⟩ := Literal.exists_concat hdigits
    exact ⟨front, c, heq, isHexDigit_of_isDigit hc⟩
  | zeros count => exact ⟨List.replicate count '0', '0', List.replicate_succ', rfl⟩
  | octal hdigits =>
    obtain ⟨front, c, heq, hc⟩ := Literal.exists_concat hdigits
    exact ⟨'0' :: front, c, by rw [heq]; rfl, isHexDigit_of_isDigit (isDigit_of_isOctalDigit hc)⟩
  | @based mark base d ds _ hdigits =>
    obtain ⟨front, c, heq, hc⟩ := Literal.exists_concat hdigits
    exact ⟨'0' :: mark :: front, c, by rw [heq]; rfl, isDigit_of_isDigitOf hc⟩

/-- What octal digits after a zero become: a zero, or the digits from the first other one on behind
a base mark. -/
theorem octal_literal (hdigits : ∀ c ∈ ds, isOctalDigit c = true) :
    Script.numberValue? (if ds.all (· = '0') then ['0'] else '0' :: 'o' :: ds.dropWhile (· = '0')) =
      some (magnitude 8 ds : ℚ) := by
  rw [← magnitude_dropWhile_zero 8 ds]
  split_ifs with hzero
  · have hnil : ds.dropWhile (· = '0') = [] :=
      List.dropWhile_eq_nil_iff.2 (List.all_eq_true.1 hzero)
    rw [hnil, Script.numberValue?_decimal (by simp) (by simp) fun _ => rfl]
    rfl
  · refine Script.numberValue?_based rfl (fun hnil => hzero ?_) fun c hc => ?_
    · exact List.all_eq_true.2 (List.dropWhile_eq_nil_iff.1 hnil)
    · exact isDigitOf_of_isOctalDigit (hdigits c (List.dropWhile_subset _ hc))

theorem IntegerDigits.literal {digits : List Char} {n : Nat} (h : IntegerDigits digits n) :
    ∃ out, (if hasBaseMark (digits.map Char.toLower) then .ok (digits.map Char.toLower)
        else if 1 < digits.length && digits.head? == some '0' && digits.all Char.isDigit then
          if digits.all (· = '0') then .ok ['0'] else .ok ('0' :: 'o' :: digits.dropWhile (· = '0'))
        else .ok digits : Except Fault (List Char)) = .ok out ∧
        Script.numberValue? out = some (n : ℚ) := by
  cases h with
  | @decimal c ds hc hdigits =>
    have hfirst :
        (1 < (c :: ds).length && (c :: ds).head? == some '0' && (c :: ds).all Char.isDigit) =
        false := by
      simp [hc]
    rw [hasBaseMark_lower_of_isDigit hdigits, hfirst]
    exact ⟨_, rfl, Script.numberValue?_decimal (by simp) hdigits fun h =>
      absurd (Option.some.inj h) hc⟩
  | zeros count =>
    have hdigits : ∀ c ∈ List.replicate (count + 1) '0', c.isDigit = true := by simp
    refine ⟨['0'], ?_, by rw [Script.numberValue?_decimal (by simp) (by simp) fun _ => rfl]; rfl⟩
    rw [hasBaseMark_lower_of_isDigit hdigits]
    cases count with
    | zero => rfl
    | succ count => simp [List.replicate_succ]
  | @octal d ds hdigits =>
    have hall : ∀ c ∈ '0' :: d :: ds, isOctalDigit c = true := by
      rintro c (_ | ⟨_, hc⟩)
      · rfl
      · exact hdigits c hc
    have hoctal : (1 < ('0' :: d :: ds).length && ('0' :: d :: ds).head? == some '0' &&
        ('0' :: d :: ds).all Char.isDigit) = true := by
      simpa using fun c hc => isDigit_of_isOctalDigit (hdigits c hc)
    rw [hasBaseMark_lower_of_isDigit fun c hc => isDigit_of_isOctalDigit (hall c hc), hoctal,
      ← magnitude_zero_cons]
    exact ⟨_, (apply_ite Except.ok _ _ _).symm, octal_literal hall⟩
  | @based mark base d ds hmark hdigits =>
    obtain ⟨hlower, hbase⟩ := baseOf?_lower hmark
    have hhex : ∀ c ∈ d :: ds, isHexDigit c = true := fun c hc =>
      isDigit_of_isDigitOf (hdigits c hc)
    have hmap : ('0' :: mark :: d :: ds).map Char.toLower = '0' :: mark.toLower ::
        (d :: ds).map Char.toLower := rfl
    have hbased : hasBaseMark (('0' :: mark :: d :: ds).map Char.toLower) = true := by
      rw [hmap]
      unfold hasBaseMark at hbase ⊢
      split at hbase <;> simp_all
    rw [hbased, if_pos rfl, hmap, ← magnitude_map_toLower hhex]
    refine ⟨_, rfl, Script.numberValue?_based hlower (by simp) fun c hc => ?_⟩
    obtain ⟨e, he, rfl⟩ := List.mem_map.1 hc
    exact Script.isDigitOf_toLower (hdigits e he)

/-- Every integer token is lowered, to a literal of the same integer. -/
theorem lowerNumber_keeps_integer {token : List Char} {n : Nat} (h : IntegerToken token n) :
    ∃ out, lowerNumber token = .ok out ∧ Script.numberValue? out = some (n : ℚ) := by
  obtain ⟨digits, suffix, hfilter, hsuffix, hdigits⟩ := h
  obtain ⟨front, c, rfl, hc⟩ := hdigits.exists_concat
  obtain ⟨htrim, hj, hJ⟩ := trimEnd_digits front hc hsuffix
  rw [← hfilter] at htrim hj hJ
  rw [lowerNumber_eq htrim hj hJ]
  exact hdigits.literal

/-- A long integer in octal digits, with separators. -/
theorem lowerNumber_keeps_oldOctal :
    IntegerToken "00_17L".toList 15 ∧ lowerNumber "00_17L".toList = .ok "0o17".toList ∧
      ∃ out, lowerNumber "00_17L".toList = .ok out ∧ Script.numberValue? out =
      some ((15 : Nat) : ℚ) := by
  have hvalue : magnitude 8 ['0', '1', '7'] = 15 := by decide
  have htoken : IntegerToken "00_17L".toList 15 :=
    ⟨['0', '0', '1', '7'], ['L'], by decide, by decide, hvalue ▸ .octal (by simp [isOctalDigit])⟩
  exact ⟨htoken, by decide +kernel, lowerNumber_keeps_integer htoken⟩

/-! ## Floating-point tokens -/

/-- Digits, maybe with underscores between them. -/
def IsDigitPart (cs : List Char) : Prop := ∀ c ∈ cs, c.isDigit = true ∨ c = '_'

def withoutSeparators (cs : List Char) : List Char := cs.filter (· ≠ '_')

/-- The exponent part of a token: a letter, a sign unless it is left out, and digits. -/
structure PowerPart where
  mark : Char
  sign : Option Char
  digits : List Char
  mark_mem : mark ∈ ['e', 'E']
  sign_mem : ∀ c ∈ sign, c ∈ ['+', '-']
  isDigitPart : IsDigitPart digits
  hasDigit : withoutSeparators digits ≠ []

namespace PowerPart

def text (e : PowerPart) : List Char := e.mark :: (e.sign.toList ++ e.digits)

def value (e : PowerPart) : Int :=
  if e.sign = some '-' then -(magnitude 10 (withoutSeparators e.digits) : Int)
  else magnitude 10 (withoutSeparators e.digits)

end PowerPart

/-- A floating-point token: digits before a point, digits after it, and an exponent part. Digits
must stand on one side of the point, and either the point or the exponent part may be left out. -/
structure FloatToken where
  whole : List Char
  fraction : Option (List Char)
  power : Option PowerPart
  whole_isDigitPart : IsDigitPart whole
  fraction_isDigitPart : ∀ ds ∈ fraction, IsDigitPart ds
  hasDigit : withoutSeparators whole ≠ [] ∨ withoutSeparators (fraction.getD []) ≠ []
  isFloat : fraction.isSome ∨ power.isSome

namespace FloatToken

variable (t : FloatToken)

def fractionText : List Char := t.fraction.elim [] ('.' :: ·)

def powerText : List Char := t.power.elim [] PowerPart.text

def text : List Char := t.whole ++ (t.fractionText ++ t.powerText)

/-- The rational number that a token denotes. -/
def value : ℚ :=
  Script.decimalValue (withoutSeparators t.whole) (withoutSeparators (t.fraction.getD []))
    (t.power.elim 0 PowerPart.value)

/-- Whether the digits before the point start with a zero that is not the only one of them. -/
def HasStrayZero : Prop :=
  (withoutSeparators t.whole).head? = some '0' ∧ withoutSeparators t.whole ≠ ['0']

end FloatToken

theorem isDigit_of_mem_withoutSeparators {cs : List Char} (h : IsDigitPart cs) :
    ∀ c ∈ withoutSeparators cs, c.isDigit = true := by
  intro c hc
  obtain ⟨hmem, hne⟩ := List.mem_filter.1 hc
  exact (h c hmem).resolve_right (of_decide_eq_true hne)

theorem withoutSeparators_append (cs ds : List Char) :
    withoutSeparators (cs ++ ds) = withoutSeparators cs ++ withoutSeparators ds :=
    List.filter_append ..

theorem PowerPart.withoutSeparators_text (e : PowerPart) :
    withoutSeparators e.text = e.mark :: (e.sign.toList ++ withoutSeparators e.digits) := by
  have hmark : e.mark ≠ '_' := by
    have hmem := e.mark_mem
    rintro heq
    rw [heq] at hmem
    exact absurd hmem (by decide)
  have hsign : withoutSeparators e.sign.toList = e.sign.toList := by
    refine List.filter_eq_self.2 fun c hc => decide_eq_true fun heq => ?_
    have hmem := e.sign_mem c (Option.mem_toList.1 hc)
    rw [heq] at hmem
    exact absurd hmem (by decide)
  rw [text, withoutSeparators, List.filter_cons_of_pos (by simpa using hmark), ← withoutSeparators,
    withoutSeparators_append, hsign]

theorem PowerPart.power?_text (e : PowerPart) :
    Script.power? (withoutSeparators e.text) = some e.value := by
  have hdigits := isDigit_of_mem_withoutSeparators e.isDigitPart
  have hne := e.hasDigit
  have hmark : e.mark = 'e' ∨ e.mark = 'E' := by simpa using e.mark_mem
  rw [e.withoutSeparators_text, PowerPart.value]
  generalize withoutSeparators e.digits = ds at *
  have hsign := e.sign_mem
  cases hs : e.sign with
  | none =>
    obtain ⟨c, cs, rfl⟩ := List.exists_cons_of_ne_nil hne
    have hc : c ≠ '-' ∧ c ≠ '+' := by
      have hdigit := hdigits c List.mem_cons_self
      constructor <;> rintro rfl <;> exact absurd hdigit (by decide)
    simp only [Script.power?, Option.toList_none, List.nil_append, List.head?_cons,
      Option.some.injEq, hc.1, hc.2,
      or_self, if_false, hmark, true_and]
    rw [if_pos ⟨List.cons_ne_nil c cs, List.all_eq_true.2 hdigits⟩]
    simp
  | some sign =>
    have hmem : sign = '+' ∨ sign = '-' := by simpa using hsign sign (by rw [hs]; rfl)
    rcases hmem with rfl | rfl <;> simpa [Script.power?, hmark, hne] using hdigits

namespace FloatToken

variable (t : FloatToken)

theorem withoutSeparators_text :
    withoutSeparators t.text = withoutSeparators t.whole ++
      (t.fraction.elim [] (fun ds => '.' :: withoutSeparators ds) ++
        t.power.elim [] (fun e => withoutSeparators e.text)) := by
  rw [text, withoutSeparators_append, withoutSeparators_append, fractionText, powerText]
  congr 2
  · cases t.fraction <;> rfl
  · cases t.power <;> rfl

/-- The characters of a floating-point token besides underscores. -/
def isFloatChar (c : Char) : Bool := c.isDigit || ['.', 'e', 'E', '+', '-'].contains c

theorem isFloatChar_of_mem : ∀ c ∈ withoutSeparators t.text, isFloatChar c = true := by
  have hdigit : ∀ {cs : List Char}, IsDigitPart cs → ∀ c ∈ withoutSeparators cs,
      isFloatChar c = true := by
    intro cs hcs c hc
    simp [isFloatChar, isDigit_of_mem_withoutSeparators hcs c hc]
  intro c hc
  rw [withoutSeparators_text, List.mem_append, List.mem_append] at hc
  rcases hc with hc | hc | hc
  · exact hdigit t.whole_isDigitPart c hc
  · cases hfraction : t.fraction with
    | none => simp [hfraction] at hc
    | some ds =>
      rw [hfraction] at hc
      rcases List.mem_cons.1 hc with rfl | hc
      · rfl
      · exact hdigit (t.fraction_isDigitPart ds hfraction) c hc
  · cases hpower : t.power with
    | none => simp [hpower] at hc
    | some e =>
      rw [hpower] at hc
      simp only [Option.elim_some, e.withoutSeparators_text, List.mem_cons, List.mem_append,
        Option.mem_toList] at hc
      rcases hc with rfl | hc | hc
      · have hmark : e.mark = 'e' ∨ e.mark = 'E' := by simpa using e.mark_mem
        rcases hmark with heq | heq <;> rw [heq] <;> rfl
      · have hsign : c = '+' ∨ c = '-' := by simpa using e.sign_mem c hc
        rcases hsign with rfl | rfl <;> rfl
      · exact hdigit e.isDigitPart c hc

/-- A floating-point token has a character that is no digit. -/
theorem all_isDigit_eq_false : (withoutSeparators t.text).all Char.isDigit = false := by
  rw [withoutSeparators_text, List.all_append, List.all_append]
  rcases t.isFloat with h | h
  · obtain ⟨ds, hds⟩ := Option.isSome_iff_exists.1 h
    simp [hds]
  · obtain ⟨e, he⟩ := Option.isSome_iff_exists.1 h
    have hmark : e.mark.isDigit = false := by
      have hmark : e.mark = 'e' ∨ e.mark = 'E' := by simpa using e.mark_mem
      rcases hmark with heq | heq <;> rw [heq] <;> rfl
    simp [he, e.withoutSeparators_text, hmark]

/-- What holds of the characters of tokens can be found out by trying them. -/
theorem of_isFloatChar {P : Char → Prop}
    (hall : ∀ n < 103, isFloatChar (Char.ofNat n) = true → P (Char.ofNat n))
    (h : isFloatChar c = true) : P c := by
  have hlt : c.toNat < 103 := by
    simp only [isFloatChar, Bool.or_eq_true, List.contains_iff_mem, List.mem_cons, List.not_mem_nil,
      or_false] at h
    rcases h with h | rfl | rfl | rfl | rfl | rfl
    · simp only [Char.isDigit, Bool.and_eq_true, decide_eq_true_eq, UInt32.le_iff_toNat_le] at h
      have hle : c.toNat ≤ 57 := h.2
      omega
    all_goals decide
  have hc := hall c.toNat hlt
  rw [Char.ofNat_toNat] at hc
  exact hc h

theorem isFloatChar_plain (h : isFloatChar c = true) :
    c ≠ 'j' ∧ c ≠ 'J' ∧ (c = 'l' || c = 'L') = false ∧ baseOf? c = none ∧
      c.toLower ≠ 'x' ∧ c.toLower ≠ 'o' ∧ c.toLower ≠ 'b' :=
  of_isFloatChar (P := fun c => c ≠ 'j' ∧ c ≠ 'J' ∧ (c = 'l' || c = 'L') = false ∧
    baseOf? c = none ∧
    c.toLower ≠ 'x' ∧ c.toLower ≠ 'o' ∧ c.toLower ≠ 'b') (by decide +kernel) h

theorem hasBaseMark_eq_false :
    hasBaseMark ((withoutSeparators t.text).map Char.toLower) = false := by
  have hchars : ∀ c ∈ (withoutSeparators t.text).map Char.toLower, c ≠ 'x' ∧ c ≠ 'o' ∧ c ≠ 'b' := by
    intro c hc
    obtain ⟨d, hd, rfl⟩ := List.mem_map.1 hc
    exact (isFloatChar_plain (t.isFloatChar_of_mem d hd)).2.2.2.2
  generalize (withoutSeparators t.text).map Char.toLower = cs at hchars
  unfold hasBaseMark
  split
  · exact absurd rfl (hchars 'x' (by simp)).1
  · exact absurd rfl (hchars 'b' (by simp)).2.2
  · exact absurd rfl (hchars 'o' (by simp)).2.1
  · rfl

/-- Only the separators of a floating-point token go away. -/
theorem lowerNumber_text : lowerNumber t.text = .ok (withoutSeparators t.text) := by
  have hchars := t.isFloatChar_of_mem
  have htrim : trimEnd (fun c => c = 'l' || c = 'L') (withoutSeparators t.text) =
      withoutSeparators t.text := by
    have hkeep : (withoutSeparators t.text).reverse.dropWhile (fun c => c = 'l' || c = 'L') =
        (withoutSeparators t.text).reverse := by
      cases hreverse : (withoutSeparators t.text).reverse with
      | nil => rfl
      | cons c cs =>
        have hc : c ∈ withoutSeparators t.text :=
          List.mem_reverse.1 (by rw [hreverse]; exact List.mem_cons_self)
        rw [List.dropWhile_cons_of_neg (by simp [(isFloatChar_plain (hchars c hc)).2.2.1])]
    rw [trimEnd, hkeep, List.reverse_reverse]
  have hlast : ∀ c, (withoutSeparators t.text).getLast? = some c → c ≠ 'j' ∧ c ≠ 'J' := by
    intro c hc
    have hplain := isFloatChar_plain (hchars c (List.mem_of_getLast? hc))
    exact ⟨hplain.1, hplain.2.1⟩
  rw [lowerNumber_eq htrim (fun h => (hlast _ h).1 rfl) fun h => (hlast _ h).2 rfl,
    t.hasBaseMark_eq_false, t.all_isDigit_eq_false, Bool.and_false]
  rfl

/-- What follows the digits before the point starts with no digit. -/
theorem head?_rest_not_digit :
    ∀ c ∈ (t.fraction.elim [] (fun ds => '.' :: withoutSeparators ds) ++
      t.power.elim [] (fun e => withoutSeparators e.text)).head?, c.isDigit = false := by
  cases t.fraction with
  | some ds => simp
  | none =>
    cases t.power with
    | none => simp
    | some e =>
      have hmark : e.mark = 'e' ∨ e.mark = 'E' := by simpa using e.mark_mem
      simp only [Option.elim_none, Option.elim_some, List.nil_append, e.withoutSeparators_text,
        List.head?_cons,
        Option.mem_some_iff, forall_eq']
      rcases hmark with heq | heq <;> rw [heq] <;> rfl

theorem head?_power_plain :
    ∀ c ∈ (t.power.elim [] (fun e => withoutSeparators e.text)).head?, c.isDigit = false ∧
    c ≠ '.' := by
  cases t.power with
  | none => simp
  | some e =>
    have hmark : e.mark = 'e' ∨ e.mark = 'E' := by simpa using e.mark_mem
    simp only [Option.elim_some, e.withoutSeparators_text, List.head?_cons, Option.mem_some_iff,
      forall_eq']
    rcases hmark with heq | heq <;> rw [heq] <;> decide

theorem power?_power :
    Script.power? (t.power.elim [] (fun e => withoutSeparators e.text)) =
    some (t.power.elim 0 PowerPart.value) := by
  cases t.power with
  | none => rfl
  | some e => exact e.power?_text

/-- A literal is read as the number of the token, unless it starts with a needless zero. -/
theorem decimal?_text [Decidable t.HasStrayZero] :
    Script.decimal? (withoutSeparators t.text) = if t.HasStrayZero then none else some t.value := by
  obtain ⟨htake, hdrop⟩ := span_append (isDigit_of_mem_withoutSeparators t.whole_isDigitPart)
    t.head?_rest_not_digit
  have hpower := t.power?_power
  have hplain := t.head?_power_plain
  rw [Script.decimal?, withoutSeparators_text, htake, hdrop, value]
  generalize t.power.elim [] (fun e => withoutSeparators e.text) = tail at hpower hplain
  have hdigit := t.hasDigit
  cases hfraction : t.fraction with
  | none =>
    rw [hfraction] at hdigit
    have hpoint : tail.head? ≠ some '.' := fun h => (hplain _ h).2 rfl
    have hne : withoutSeparators t.whole ≠ [] := hdigit.resolve_right fun h => h rfl
    simp only [Option.elim_none, List.nil_append, hpoint, if_false, and_true, hne, hpower,
      Option.map_some,
      Option.getD_none]
    exact if_congr Iff.rfl rfl rfl
  | some ds =>
    rw [hfraction] at hdigit
    obtain ⟨hdigits, hrest⟩ := span_append
      (isDigit_of_mem_withoutSeparators (t.fraction_isDigitPart ds hfraction)) fun c hc =>
      (hplain c hc).1
    have hsome : ¬ (withoutSeparators t.whole = [] ∧ withoutSeparators ds = []) := fun h =>
      hdigit.elim (fun hne => hne h.1) fun hne => hne h.2
    simp only [Option.elim_some, List.cons_append, List.head?_cons, if_true, List.tail_cons,
      hdigits, hrest, hsome,
      if_false, hpower, Option.map_some, Option.getD_some]
    exact if_congr Iff.rfl rfl rfl

theorem numberValue?_text [Decidable t.HasStrayZero] :
    Script.numberValue? (withoutSeparators t.text) =
    if t.HasStrayZero then none else some t.value := by
  rw [← t.decimal?_text]
  have hchars := t.isFloatChar_of_mem
  generalize withoutSeparators t.text = cs at hchars
  unfold Script.numberValue?
  split
  · next mark digits => rw [(isFloatChar_plain (hchars mark (by simp))).2.2.2.1]
  · rfl

end FloatToken

instance (t : FloatToken) : Decidable t.HasStrayZero := inferInstanceAs (Decidable (_ ∧ _))

/-- Every floating-point token is lowered to its text without separators. That is a literal exactly
if the digits before the point do not start with a needless zero, and then it denotes the number
that the token denotes. -/
theorem lowerNumber_keeps_float_iff (t : FloatToken) :
    ∃ out, lowerNumber t.text = .ok out ∧ out = withoutSeparators t.text ∧
      ((Script.numberValue? out).isSome ↔ ¬ t.HasStrayZero) ∧
      (Script.numberValue? out = some t.value ↔ ¬ t.HasStrayZero) := by
  refine ⟨_, t.lowerNumber_text, rfl, ?_⟩
  rw [t.numberValue?_text]
  split_ifs with hzero <;> simp [hzero]

/-- The token `01.5`. -/
def zeroFirst : FloatToken where
  whole := ['0', '1']
  fraction := some ['5']
  power := none
  whole_isDigitPart := by simp [IsDigitPart]
  fraction_isDigitPart := by simp [IsDigitPart]
  hasDigit := by decide
  isFloat := by decide

/-- A zero before other digits is kept, so the literal is none. -/
theorem zeroFirst_is_no_literal :
    zeroFirst.text = "01.5".toList ∧ zeroFirst.value = 3 / 2 ∧
    lowerNumber "01.5".toList = .ok "01.5".toList ∧
      Script.numberValue? "01.5".toList = none := by
  refine ⟨by decide, ?_, by decide +kernel, by decide +kernel⟩
  have hwhole : magnitude 10 (withoutSeparators zeroFirst.whole) = 1 := by decide
  have hfraction : magnitude 10 (withoutSeparators (zeroFirst.fraction.getD [])) = 5 := by decide
  have hlength : (withoutSeparators (zeroFirst.fraction.getD [])).length = 1 := by decide
  rw [FloatToken.value, Script.decimalValue, hwhole, hfraction, hlength]
  norm_num [zeroFirst]

end Literal

end ScriptCompiler
