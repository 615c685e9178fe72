import ScriptCompiler.Literal.Number
import ScriptCompiler.Lowering.Fragment
import ScriptCompiler.Proofs.Lexing

/-!
# Integers

The integer tokens of programs and the integer literals of scripts. Main statements: an integer
token is lowered to an integer literal (`Literal.exists_lowerNumber`), and such a literal is one
token of a script unless a letter, a digit or a point follows it (`Script.Numeral.lexed`).
-/

namespace ScriptCompiler

open Script.Lexer (baseDigit? isHexDigit isWordPart isWordStart Apart Lexed Lexes)

variable {c : Char} {p : Char → Bool} {digits token : List Char}

/-! ## Classes of digits -/

/-- What holds of all digits can be found out by trying them. -/
theorem of_isHexDigit {P : Char → Prop}
    (hall : ∀ n < 103, isHexDigit (Char.ofNat n) = true → P (Char.ofNat n))
    (h : isHexDigit c = true) : P c := by
  have hranges : (48 ≤ c.toNat ∧ c.toNat ≤ 57 ∨ 97 ≤ c.toNat ∧ c.toNat ≤ 102) ∨ 65 ≤ c.toNat ∧
      c.toNat ≤ 70 := by
    simpa [isHexDigit, Char.isDigit, UInt32.le_iff_toNat_le, Char.le_def] using h
  have hc := hall c.toNat (by omega)
  rw [Char.ofNat_toNat] at hc
  exact hc h

theorem isHexDigit_plain (h : isHexDigit c = true) :
    isHexDigit c.toLower = true ∧ c.isAlphanum = true ∧ c ≠ 'j' ∧ c ≠ 'J' ∧ c ≠ 'l' ∧ c ≠ 'L' :=
  of_isHexDigit (P := fun c => isHexDigit c.toLower = true ∧ c.isAlphanum = true ∧ c ≠ 'j' ∧
    c ≠ 'J' ∧ c ≠ 'l' ∧ c ≠ 'L')
    (by decide +kernel) h

theorem isHexDigit_of_isDigit (h : c.isDigit = true) : isHexDigit c = true := by
  simp [isHexDigit, h]

theorem toLower_of_isDigit (h : c.isDigit = true) : c.toLower = c :=
  of_isHexDigit (P := fun c => c.isDigit = true → c.toLower = c) (by decide +kernel)
    (isHexDigit_of_isDigit h) h

def isOctalDigit (c : Char) : Bool := '0' ≤ c && c ≤ '7'

theorem isDigit_of_isOctalDigit (h : isOctalDigit c = true) : c.isDigit = true := by
  simp only [isOctalDigit, Char.isDigit, Bool.and_eq_true, decide_eq_true_eq, Char.le_def,
    UInt32.le_iff_toNat_le,
    ge_iff_le] at h ⊢
  exact ⟨h.1, Nat.le_trans h.2 (by decide)⟩

theorem baseDigit?_lower {mark : Char} (h : baseDigit? mark = some p) :
    (∀ c, p c = true → isHexDigit c = true ∧ p c.toLower = true) ∧
    baseDigit? mark.toLower = some p ∧
      mark.isAlphanum = true ∧ ∀ cs, Literal.hasBaseMark ('0' :: mark.toLower :: cs) = true := by
  have hhex : ∀ c, isHexDigit c = true → isHexDigit c = true ∧ isHexDigit c.toLower = true :=
    fun c hc => ⟨hc, (isHexDigit_plain hc).1⟩
  have hoctal : ∀ c, isOctalDigit c = true → isHexDigit c = true ∧
      isOctalDigit c.toLower = true := by
    intro c hc
    have hdigit := isDigit_of_isOctalDigit hc
    exact ⟨isHexDigit_of_isDigit hdigit, by rwa [toLower_of_isDigit hdigit]⟩
  have hbinary : ∀ c : Char, (c = '0' || c = '1') = true →
      isHexDigit c = true ∧ (c.toLower = '0' || c.toLower = '1') = true := by
    intro c hc
    simp only [Bool.or_eq_true, decide_eq_true_eq] at hc
    rcases hc with rfl | rfl <;> decide
  unfold baseDigit? at h
  split at h
  case h_7 => cases h
  all_goals
    cases h
    first
      | exact ⟨hhex, rfl, rfl, fun _ => rfl⟩
      | exact ⟨hoctal, rfl, rfl, fun _ => rfl⟩
      | exact ⟨hbinary, rfl, rfl, fun _ => rfl⟩

/-! ## Literals of scripts -/

namespace Script

inductive Numeral : List Char → Prop
  | zero : Numeral ['0']
  | decimal {c cs} : c ≠ '0' → (∀ d ∈ c :: cs, d.isDigit = true) → Numeral (c :: cs)
  | based {mark p d ds} : baseDigit? mark = some p → (∀ c ∈ d :: ds, p c = true) →
      Numeral ('0' :: mark :: d :: ds)

namespace Numeral

variable {cs rest : List Char}

theorem isDigit_of_apart (hrest : Apart false rest) : ∀ c ∈ rest.head?, c.isDigit = false := by
  intro c hc
  refine Bool.eq_false_iff.2 fun hdigit => ?_
  have hpart := (hrest c hc).1
  rw [Lexer.isWordPart_of_isDigit hdigit] at hpart
  cases hpart

theorem isHexDigit_of_apart (hrest : Apart false rest) :
    ∀ c ∈ rest.head?, isHexDigit c = false := by
  intro c hc
  refine Bool.eq_false_iff.2 fun hdigit => ?_
  have hpart := (hrest c hc).1
  simp [isWordPart, Identifier.isContinue, (isHexDigit_plain hdigit).2.1] at hpart

theorem skipDecimal_append (hcs : ∀ c ∈ cs, c.isDigit = true) (hrest : Apart false rest) :
    Lexer.skipDecimal (cs ++ rest) = some rest := by
  have hexponent : Lexer.skipExponent rest = some rest := by
    cases rest with
    | nil => rfl
    | cons c rest =>
      have hc : c ≠ 'e' ∧ c ≠ 'E' := by
        constructor
        all_goals
          rintro rfl
          exact absurd (hrest _ rfl).1 (by decide)
      simp [Lexer.skipExponent, hc]
  rw [Lexer.skipDecimal, (span_append hcs (isDigit_of_apart hrest)).2]
  split
  · exact absurd ((hrest '.' rfl).2 rfl) (by decide)
  · exact hexponent

theorem skipNumber_append (h : Numeral cs) (hrest : Apart false rest) :
    Lexer.skipNumber (cs ++ rest) = some rest := by
  have hend : rest.head?.any (fun c => isWordStart c || c.isDigit) = false := by
    cases rest with
    | nil => rfl
    | cons c rest =>
      have hstart : isWordStart c = false := by
        refine Bool.eq_false_iff.2 fun hstart => ?_
        simpa [Lexer.isWordPart_of_isWordStart hstart] using (hrest c rfl).1
      simp [hstart, isDigit_of_apart hrest c rfl]
  cases h with
  | zero =>
    have hzero : Lexer.skipDecimal (['0'] ++ rest) = some rest := skipDecimal_append (by simp) hrest
    cases rest with
    | nil => rfl
    | cons mark rest =>
      have hmark : baseDigit? mark = none := by
        refine Option.eq_none_iff_forall_ne_some.2 fun p hp => ?_
        have hpart := (hrest mark rfl).1
        simp [isWordPart, Identifier.isContinue, (baseDigit?_lower hp).2.2.1] at hpart
      have hdigit := isDigit_of_apart hrest mark rfl
      simp only [List.cons_append, List.nil_append] at hzero ⊢
      simp only [Lexer.skipNumber, hmark, hdigit, hzero, Bool.false_eq_true, if_false,
        Option.bind_eq_bind,
        Option.bind_some, hend]
  | @decimal c ds hc hdigits =>
    have hdecimal := skipDecimal_append hdigits hrest
    rw [Lexer.skipNumber]
    · simp only [hdecimal, Option.bind_eq_bind, Option.bind_some, hend,
        Bool.false_eq_true, if_false]
    · intro mark digits heq
      exact hc (List.cons.inj heq).1
  | @based mark p d ds hmark hdigits =>
    have hstop : ∀ c ∈ rest.head?, p c = false := by
      intro c hc
      refine Bool.eq_false_iff.2 fun hp => ?_
      simpa [isHexDigit_of_apart hrest c hc] using ((baseDigit?_lower hmark).1 c hp).1
    have hdrop := (span_append hdigits hstop).2
    have hfirst : p d = true := hdigits d List.mem_cons_self
    simp only [List.cons_append] at hdrop ⊢
    simp only [Lexer.skipNumber, hmark, List.head?_cons, Option.any_some, hfirst, if_true, hdrop,
      Option.bind_eq_bind,
      Option.bind_some, hend, Bool.false_eq_true, if_false]

/-- A literal is a digit and letters and digits after it. -/
theorem exists_cons (h : Numeral cs) :
    ∃ c ds, cs = c :: ds ∧ c.isDigit = true ∧ ∀ d ∈ cs, d.isAlphanum = true := by
  have hdigit : ∀ c : Char, c.isDigit = true → c.isAlphanum = true :=
    fun c hc => by simp [Char.isAlphanum, hc]
  cases h with
  | zero => exact ⟨_, _, rfl, rfl, by simp⟩
  | decimal _ hdigits =>
    exact ⟨_, _, rfl, hdigits _ List.mem_cons_self, fun d hd => hdigit d (hdigits d hd)⟩
  | based hmark hdigits =>
    refine ⟨_, _, rfl, rfl, fun e he => ?_⟩
    rcases List.mem_cons.1 he with rfl | he
    · rfl
    rcases List.mem_cons.1 he with rfl | he
    · exact (baseDigit?_lower hmark).2.2.1
    · exact (isHexDigit_plain ((baseDigit?_lower hmark).1 e (hdigits e he)).1).2.1

theorem isNumeral (h : Numeral cs) : Script.isNumeral (String.ofList cs) = true := by
  obtain ⟨c, ds, rfl, hdigit, hall⟩ := h.exists_cons
  have hsign : c ≠ '-' := by
    rintro rfl
    exact absurd hdigit (by decide)
  have hchars : ∀ d ∈ c :: ds, isNumeralChar d = true :=
    fun d hd => by simp [isNumeralChar, hall d hd]
  rw [Script.isNumeral, String.toList_ofList]
  split
  · rename_i heq
    exact absurd (List.cons.inj heq).1 hsign
  · simp [List.all_eq_true.2 hchars, hdigit]

theorem lexed (h : Numeral cs) : Lexed false cs [.number (String.ofList cs)] := by
  obtain ⟨c, ds, rfl, hdigit, -⟩ := h.exists_cons
  obtain ⟨-, hspace, hslash, -⟩ := Lexer.isDigit_plain hdigit
  exact ⟨fun _ => .of_ne hspace hslash, fun _ _ hapart hrest =>
    hrest.number hdigit (h.skipNumber_append hapart)⟩

end Numeral

end Script

/-! ## Tokens of programs -/

namespace Literal

/-- The digits of integers: decimal digits, octal digits after a zero, or digits after a base
mark. -/
def isNotation : List Char → Bool
  | '0' :: mark :: digits =>
    match baseDigit? mark with
    | some isDigit => !digits.isEmpty && digits.all isDigit
    | none => (mark :: digits).all isOctalDigit
  | digits => !digits.isEmpty && digits.all Char.isDigit

/-- Whether a token is an integer. Its digits may be separated by underscores, and a letter may mark
it as long. -/
def isInteger (token : List Char) : Bool :=
  let digits := token.filter (· ≠ '_')
  isNotation digits || digits.getLast?.any (fun c => c = 'l' || c = 'L') &&
    isNotation digits.dropLast

theorem isNotation_cases (h : isNotation digits = true) :
    (∃ mark p d ds, digits = '0' :: mark :: d :: ds ∧ baseDigit? mark = some p ∧
    ∀ c ∈ d :: ds, p c = true) ∨
      (∃ d ds, digits = '0' :: d :: ds ∧ ∀ c ∈ d :: ds, isOctalDigit c = true) ∨
      digits = ['0'] ∨ ∃ c ds, digits = c :: ds ∧ c ≠ '0' ∧ ∀ d ∈ c :: ds, d.isDigit = true := by
  unfold isNotation at h
  split at h
  · rename_i mark digits
    cases hmark : baseDigit? mark with
    | none =>
      rw [hmark] at h
      exact .inr (.inl ⟨mark, digits, rfl, List.all_eq_true.1 h⟩)
    | some p =>
      rw [hmark] at h
      cases digits with
      | nil => cases h
      | cons d ds => exact .inl ⟨mark, p, d, ds, rfl, hmark, List.all_eq_true.1 h⟩
  · rename_i hzero
    cases digits with
    | nil => cases h
    | cons c ds =>
      have hall : ∀ d ∈ c :: ds, d.isDigit = true := List.all_eq_true.1 h
      by_cases hc : c = '0'
      · subst hc
        cases ds with
        | nil => exact .inr (.inr (.inl rfl))
        | cons d ds => exact absurd rfl (hzero d ds)
      · exact .inr (.inr (.inr ⟨c, ds, rfl, hc, hall⟩))

theorem exists_concat {cs : List Char} (hall : ∀ d ∈ c :: cs, p d = true) :
    ∃ front d, c :: cs = front ++ [d] ∧ p d = true :=
  ⟨_, _, (List.dropLast_concat_getLast (List.cons_ne_nil c cs)).symm, hall _ (List.getLast_mem _)⟩

/-- Digits end in a digit, whatever their base. -/
theorem exists_concat_of_isNotation (h : isNotation digits = true) :
    ∃ front c, digits = front ++ [c] ∧ isHexDigit c = true := by
  rcases isNotation_cases h with ⟨mark, p, d, ds, rfl, hmark, hall⟩ | ⟨d, ds, rfl, hall⟩ | rfl | ⟨c,
    ds, rfl, -, hall⟩
  · obtain ⟨front, c, heq, hc⟩ := exists_concat hall
    exact ⟨'0' :: mark :: front, c, by simp [heq], ((baseDigit?_lower hmark).1 c hc).1⟩
  · obtain ⟨front, c, heq, hc⟩ := exists_concat hall
    exact ⟨'0' :: front, c, by simp [heq], isHexDigit_of_isDigit (isDigit_of_isOctalDigit hc)⟩
  · exact ⟨[], '0', rfl, rfl⟩
  · obtain ⟨front, c, heq, hc⟩ := exists_concat hall
    exact ⟨front, c, heq, isHexDigit_of_isDigit hc⟩

theorem exists_of_isInteger (h : isInteger token = true) :
    ∃ digits, isNotation digits = true ∧ trimEnd (fun c => c = 'l' || c = 'L')
    (token.filter (· ≠ '_')) = digits ∧
      (token.filter (· ≠ '_')).getLast? ≠ some 'j' ∧ (token.filter (· ≠ '_')).getLast? ≠
      some 'J' := by
  unfold isInteger at h
  generalize token.filter (· ≠ '_') = all at h ⊢
  rw [Bool.or_eq_true, Bool.and_eq_true] at h
  rcases h with h | ⟨hlong, h⟩
  · obtain ⟨front, c, rfl, hdigit⟩ := exists_concat_of_isNotation h
    obtain ⟨-, -, hj, hJ, hl, hL⟩ := isHexDigit_plain hdigit
    exact ⟨_, h, by simp [trimEnd, hl, hL], by simpa using hj, by simpa using hJ⟩
  · cases hlast : all.getLast? with
    | none => simp [hlast] at hlong
    | some mark =>
      obtain ⟨digits, rfl⟩ := List.getLast?_eq_some_iff.1 hlast
      rw [List.dropLast_concat] at h
      obtain ⟨front, c, rfl, hdigit⟩ := exists_concat_of_isNotation h
      obtain ⟨-, -, -, -, hl, hL⟩ := isHexDigit_plain hdigit
      have hmark : mark = 'l' ∨ mark = 'L' := by simpa using hlong
      refine ⟨_, h, ?_⟩
      rcases hmark with rfl | rfl <;> simp [trimEnd, hl, hL]

theorem hasBaseMark_lower_of_isDigit (hall : ∀ c ∈ digits, c.isDigit = true) :
    hasBaseMark (digits.map Char.toLower) = false := by
  have hlower : digits.map Char.toLower = digits := by
    rw [List.map_congr_left fun c hc => toLower_of_isDigit (hall c hc)]
    exact List.map_id digits
  rw [hlower]
  unfold hasBaseMark
  split
  all_goals first
    | rfl
    | exact absurd (hall _ (List.mem_cons_of_mem _ List.mem_cons_self)) (by decide)

/-- What becomes of digits that no mark follows. -/
theorem lowerNumber_eq
    (htrim : trimEnd (fun c => c = 'l' || c = 'L') (token.filter (· ≠ '_')) = digits)
    (hj : (token.filter (· ≠ '_')).getLast? ≠ some 'j')
    (hJ : (token.filter (· ≠ '_')).getLast? ≠ some 'J') : lowerNumber token =
      if hasBaseMark (digits.map Char.toLower) then .ok (digits.map Char.toLower)
      else if 1 < digits.length && digits.head? == some '0' && digits.all Char.isDigit then
        if digits.all (· = '0') then .ok ['0'] else .ok ('0' :: 'o' :: digits.dropWhile (· = '0'))
      else .ok digits := by
  rw [lowerNumber]
  simp only [htrim]
  rw [if_neg]
  simp only [Bool.or_eq_true, beq_iff_eq, not_or]
  exact ⟨hj, hJ⟩

/-- An integer is lowered to digits after a base mark in lower case, to octal digits after a mark,
or to its digits. -/
theorem lowerNumber_cases (h : isInteger token = true) : ∃ digits,
    trimEnd (fun c => c = 'l' || c = 'L') (token.filter (· ≠ '_')) = digits ∧
      ((∃ mark p d ds, digits = '0' :: mark :: d :: ds ∧ baseDigit? mark = some p ∧
      (∀ c ∈ d :: ds, p c = true) ∧
          lowerNumber token = .ok ('0' :: mark.toLower :: (d :: ds).map Char.toLower)) ∨
        (∃ d ds, digits = '0' :: d :: ds ∧ (∀ c ∈ d :: ds, isOctalDigit c = true) ∧
          lowerNumber token =
          .ok (if digits.all (· = '0') then ['0'] else '0' :: 'o' :: digits.dropWhile (· = '0'))) ∨
        lowerNumber token = .ok digits ∧ (digits = ['0'] ∨
          ∃ c ds, digits = c :: ds ∧ c ≠ '0' ∧ ∀ d ∈ c :: ds, d.isDigit = true)) := by
  obtain ⟨digits, hnotation, htrim, hj, hJ⟩ := exists_of_isInteger h
  refine ⟨digits, htrim, ?_⟩
  rw [lowerNumber_eq htrim hj hJ]
  rcases isNotation_cases hnotation with ⟨mark, p, d, ds, rfl, hmark, hall⟩ | ⟨d, ds, rfl,
    hall⟩ | rfl |
    ⟨c, ds, rfl, hc, hall⟩
  · obtain ⟨-, -, -, hbase⟩ := baseDigit?_lower hmark
    have hzero : Char.toLower '0' = '0' := by decide
    refine .inl ⟨mark, p, d, ds, rfl, hmark, hall, ?_⟩
    simp only [List.map_cons, hzero, hbase, if_true]
  · have hdigits : ∀ c ∈ '0' :: d :: ds, c.isDigit = true := by
      rintro c hc
      rcases List.mem_cons.1 hc with rfl | hc
      · rfl
      · exact isDigit_of_isOctalDigit (hall c hc)
    have hoctal : (1 < ('0' :: d :: ds).length && ('0' :: d :: ds).head? == some '0' &&
        ('0' :: d :: ds).all Char.isDigit) = true := by
      simpa using hdigits
    refine .inr (.inl ⟨d, ds, rfl, hall, ?_⟩)
    rw [hasBaseMark_lower_of_isDigit hdigits, if_neg (by decide), if_pos hoctal]
    exact (apply_ite Except.ok _ _ _).symm
  · exact .inr (.inr ⟨rfl, .inl rfl⟩)
  · have hzero :
      (1 < (c :: ds).length && (c :: ds).head? == some '0' && (c :: ds).all Char.isDigit) =
      false := by
      simp [hc]
    refine .inr (.inr ⟨?_, .inr ⟨c, ds, rfl, hc, hall⟩⟩)
    rw [hasBaseMark_lower_of_isDigit hall, if_neg (by decide), if_neg (Bool.eq_false_iff.1 hzero)]

/-- An integer is lowered to an integer literal. -/
theorem exists_lowerNumber (h : isInteger token = true) :
    ∃ digits, lowerNumber token = .ok digits ∧ Script.Numeral digits := by
  obtain ⟨digits, -, ⟨mark, p, d, ds, rfl, hmark, hall, hrun⟩ | ⟨d, ds, rfl, hall, hrun⟩ |
    ⟨hrun, rfl | ⟨c, ds, rfl, hc, hall⟩⟩⟩ := lowerNumber_cases h
  · obtain ⟨hdigit, hlowered, -⟩ := baseDigit?_lower hmark
    refine ⟨_, hrun, .based hlowered fun c hc => ?_⟩
    obtain ⟨e, he, rfl⟩ := List.mem_map.1 (List.map_cons ▸ hc)
    exact (hdigit e (hall e he)).2
  · refine ⟨_, hrun, ?_⟩
    split
    · exact .zero
    · rename_i hnonzero
      have hmem : ∀ c ∈ ('0' :: d :: ds).dropWhile (· = '0'), isOctalDigit c = true := by
        intro c hc
        rcases List.mem_cons.1 (List.dropWhile_subset _ hc) with rfl | hc
        · rfl
        · exact hall c hc
      cases hdrop : ('0' :: d :: ds).dropWhile (· = '0') with
      | nil => exact absurd (List.all_eq_true.2 (List.dropWhile_eq_nil_iff.1 hdrop)) hnonzero
      | cons e es => exact .based rfl (hdrop ▸ hmem)
  · exact ⟨_, hrun, .zero⟩
  · exact ⟨_, hrun, .decimal hc hall⟩

end Literal

end ScriptCompiler
