import ScriptCompiler.Proofs.Lexing

/-!
# The value of string literals

A script reads a literal between quotes as a sequence of UTF-16 code units. `literalUnits?` is that
reading, with every escape of the language. Text written by `quoted` reads back as itself, and so
does every string token: its literal has the token's value, is one token of the script, and neither
a bare quote nor a line end stands in it.
-/

namespace ScriptCompiler

namespace Script

open Literal (number?)

/-! ## Code units -/

def codeUnits (point : Nat) : List UInt16 :=
  if point < 0x10000 then [point.toUInt16]
  else [(0xD800 + (point - 0x10000) / 0x400).toUInt16,
    (0xDC00 + (point - 0x10000) % 0x400).toUInt16]

def textUnits (text : List Char) : List UInt16 := text.flatMap fun c => codeUnits c.toNat

/-- A character's units tell the character, whatever follows them: the first unit of a pair is no
character's only unit. -/
theorem codeUnits_append_inj {c d : Char} {us vs : List UInt16}
    (h : codeUnits c.toNat ++ us = codeUnits d.toNat ++ vs) : c = d ∧ us = vs := by
  have hc : c.toNat < 0xD800 ∨ 0xDFFF < c.toNat ∧ c.toNat < 0x110000 := c.valid
  have hd : d.toNat < 0xD800 ∨ 0xDFFF < d.toNat ∧ d.toNat < 0x110000 := d.valid
  suffices c.toNat = d.toNat ∧ us = vs from ⟨Char.toNat_inj.1 this.1, this.2⟩
  unfold codeUnits at h
  split at h <;> split at h <;>
    simp only [List.cons_append, List.nil_append, List.cons.injEq, ← UInt16.toNat_inj, Nat.toUInt16,
      UInt16.toNat_ofNat'] at h
  · exact ⟨by omega, h.2⟩
  · omega
  · omega
  · exact ⟨by omega, h.2.2⟩

theorem codeUnits_ne_nil (point : Nat) : codeUnits point ≠ [] := by
  unfold codeUnits
  split <;> simp

/-- Two texts with the same code units are the same. -/
theorem textUnits_inj {v w : List Char} (h : textUnits v = textUnits w) : v = w := by
  induction v generalizing w with
  | nil =>
    cases w with
    | nil => rfl
    | cons d w => simp [textUnits, codeUnits_ne_nil] at h
  | cons c v ih =>
    cases w with
    | nil => simp [textUnits, codeUnits_ne_nil] at h
    | cons d w =>
      obtain ⟨rfl, htail⟩ := codeUnits_append_inj h
      rw [ih htail]

/-! ## Reading a literal -/

/-- The code point that a single letter after a backslash stands for. -/
def letterPoint? : Char → Option Nat
  | 'b' => some 0x08
  | 't' => some 0x09
  | 'n' => some 0x0A
  | 'v' => some 0x0B
  | 'f' => some 0x0C
  | 'r' => some 0x0D
  | _ => none

/-- The code point of `count` hexadecimal digits at the front of a text. -/
def hexPoint? (count : Nat) (cs : List Char) : Option Nat :=
  if (cs.take count).length = count then number? 16 (cs.take count) else none

/-- The code point of the digits between braces, and how many digits there are. -/
def bracedPoint? (cs : List Char) : Option (Nat × Nat) :=
  let digits := cs.takeWhile (· ≠ '\x7d')
  if digits.isEmpty || digits.length = cs.length then none
  else ((number? 16 digits).filter (· ≤ 0x10FFFF)).map fun point => (point, digits.length)

/-- What the characters after a backslash stand for, and how many of them belong to the escape. A
line end continues the literal on the next line. A digit is no escape, apart from a zero that no
other digit follows. -/
def escapeUnits? : List Char → Option (List UInt16 × Nat)
  | [] => none
  | c :: rest =>
    if c = '\r' ∧ rest.head? = some '\n' then some ([], 2)
    else if Lexer.isLineEnd c then some ([], 1)
    else if c = 'x' then (hexPoint? 2 rest).map fun point => (codeUnits point, 3)
    else if c = 'u' ∧ rest.head? = some '\x7b' then
      (bracedPoint? rest.tail).map fun (point, count) => (codeUnits point, count + 3)
    else if c = 'u' then (hexPoint? 4 rest).map fun point => (codeUnits point, 5)
    else if c = '0' ∧ ¬ rest.head?.any Char.isDigit then some (codeUnits 0, 1)
    else if c.isDigit then none
    else some (codeUnits ((letterPoint? c).getD c.toNat), 1)

/-- The units of what stands between the quotes, after skipping the characters of an escape already
read; none if a quote or a line feed or a carriage return stands there bare. -/
def bodyUnits? (quote : Char) : Nat → List Char → Option (List UInt16)
  | _, [] => some []
  | skip + 1, _ :: rest => bodyUnits? quote skip rest
  | 0, c :: rest =>
    if c = '\\' then do
      let (units, used) ← escapeUnits? rest
      return units ++ (← bodyUnits? quote used rest)
    else if c = quote ∨ c = '\n' ∨ c = '\r' then none
    else return codeUnits c.toNat ++ (← bodyUnits? quote 0 rest)

/-- The value of a string literal; none if the text is no string literal. -/
def literalUnits? : List Char → Option (List UInt16)
  | [] => none
  | quote :: rest =>
    if Literal.isQuote quote ∧
      rest.getLast? = some quote then bodyUnits? quote 0 rest.dropLast else none

/-- The characters of a body that no backslash escapes. -/
def bareChars : List Char → List Char
  | '\\' :: _ :: rest => bareChars rest
  | c :: rest => c :: bareChars rest
  | [] => []

@[simp] theorem bodyUnits?_skip (quote : Char) (seq rest : List Char) :
    bodyUnits? quote seq.length (seq ++ rest) = bodyUnits? quote 0 rest := by
  induction seq with
  | nil => rfl
  | cons c seq ih => exact ih

/-! ## What is written for a character -/

/-- Characters that stand for themselves between quotes. -/
def Plain (quote d : Char) : Prop := d ≠ '\\' ∧ d ≠ quote ∧ Lexer.isLineEnd d = false

/-- The two ways to write a character: as itself, or as an escape of which only the first character
may be a quote or a backslash. -/
inductive Written (quote c : Char) : List Char → Prop
  | plain (h : Plain quote c) : Written quote c [c]
  | escape (e : Char) (more : List Char)
      (hunits : ∀ rest, escapeUnits? (e :: more ++ rest) =
      some (codeUnits c.toNat, (e :: more).length))
      (hline : Lexer.isLineEnd e = false) (hmore : ∀ d ∈ more, Plain quote d) :
      Written quote c ('\\' :: e :: more)

namespace Written

variable {quote c : Char}

/-- A letter after a backslash that starts no longer escape. -/
theorem letter {e : Char} (hx : e ≠ 'x') (hu : e ≠ 'u') (hdigit : e.isDigit = false)
    (hline : Lexer.isLineEnd e = false)
    (hpoint : (letterPoint? e).getD e.toNat = c.toNat) : Written quote c ['\\', e] := by
  refine .escape e [] (fun rest => ?_) hline (by simp)
  have hr : e ≠ '\r' := by
    rintro rfl
    cases hline
  have hzero : e ≠ '0' := by
    rintro rfl
    cases hdigit
  simp [escapeUnits?, hr, hzero, hx, hu, hdigit, hline, hpoint]

/-- Four digits name a character of one unit. -/
theorem unicode {a b d e : Char} (hpoint : number? 16 [a, b, d, e] = some c.toNat)
    (hbrace : a ≠ '\x7b')
    (hplain : ∀ f ∈ [a, b, d, e], Plain quote f) : Written quote c ['\\', 'u', a, b, d, e] := by
  refine .escape 'u' [a, b, d, e] (fun rest => ?_) (by decide) hplain
  have hline : Lexer.isLineEnd 'u' = false := by decide
  simp [escapeUnits?, hexPoint?, hline, hbrace, hpoint]

variable {n : Nat} {quote : Char} {body : List Char}

theorem number?_hexByte (h : n < 256) : number? 16 (Literal.hexByte n) = some n := by
  have hall : ∀ n : Fin 256, number? 16 (Literal.hexByte n) = some n.val := by decide +kernel
  exact hall ⟨n, h⟩

theorem plain_of_mem_hexByte (h : n < 256) {d : Char} (hquote : Literal.isQuote quote = true)
    (hd : d ∈ Literal.hexByte n) : Plain quote d := by
  -- as a test of the list: characters are too many to go through all of them
  have hall : ∀ n : Fin 256, (Literal.hexByte n).all fun d =>
      d ≠ '\\' ∧ Literal.isQuote d = false ∧ Lexer.isLineEnd d = false := by decide +kernel
  obtain ⟨hslash, hq, hline⟩ := of_decide_eq_true (List.all_eq_true.mp (hall ⟨n, h⟩) d hd)
  refine ⟨hslash, ?_, hline⟩
  rintro rfl
  rw [hquote] at hq
  cases hq

theorem plain_of_isDigit {d : Char} (hquote : Literal.isQuote quote = true)
    (hd : d.isDigit = true) : Plain quote d := by
  have hq : quote = '\x27' ∨ quote = '"' := by simpa [Literal.isQuote] using hquote
  refine ⟨?_, ?_, ?_⟩
  · rintro rfl
    cases hd
  · rintro rfl
    rcases hq with rfl | rfl <;> cases hd
  · cases hline : Lexer.isLineEnd d with
    | false => rfl
    | true =>
      have hends : ((d = '\n' ∨ d = '\r') ∨ d = '\u2028') ∨ d = '\u2029' := by
        simpa [Lexer.isLineEnd] using hline
      rcases hends with ((rfl | rfl) | rfl) | rfl <;> cases hd

/-- Two digits name a character below 256. -/
theorem hex (hquote : Literal.isQuote quote = true) (h : c.toNat < 256) :
    Written quote c ('\\' :: 'x' :: Literal.hexByte c.toNat) := by
  refine .escape 'x' (Literal.hexByte c.toNat) (fun rest => ?_) (by decide) fun d hd =>
    plain_of_mem_hexByte h hquote hd
  have hline : Lexer.isLineEnd 'x' = false := by decide
  have hpoint := number?_hexByte h
  simp only [Literal.hexByte] at hpoint ⊢
  simp [escapeUnits?, hexPoint?, hline, hpoint]

end Written

theorem written_quoteChar (hquote : Literal.isQuote quote = true) (c : Char) :
    Written quote c (Literal.quoteChar quote c) := by
  have hq : quote = '\x27' ∨ quote = '"' := by simpa [Literal.isQuote] using hquote
  unfold Literal.quoteChar
  by_cases hslash : c = '\\'
  · subst hslash
    exact .letter (by decide) (by decide) (by decide) (by decide) (by decide)
  by_cases hfeed : c = '\n'
  · subst hfeed
    exact .letter (by decide) (by decide) (by decide) (by decide) (by decide)
  by_cases hreturn : c = '\r'
  · subst hreturn
    exact .letter (by decide) (by decide) (by decide) (by decide) (by decide)
  by_cases htab : c = '\t'
  · subst htab
    exact .letter (by decide) (by decide) (by decide) (by decide) (by decide)
  by_cases hline : c = '\u2028'
  · subst hline
    refine .unicode (by decide) (by decide) fun f hf => Written.plain_of_isDigit hquote ?_
    exact List.all_eq_true.mp (show ['2', '0', '2', '8'].all Char.isDigit = true by decide) f hf
  by_cases hparagraph : c = '\u2029'
  · subst hparagraph
    refine .unicode (by decide) (by decide) fun f hf => Written.plain_of_isDigit hquote ?_
    exact List.all_eq_true.mp (show ['2', '0', '2', '9'].all Char.isDigit = true by decide) f hf
  simp only [hslash, hfeed, hreturn, htab, hline, hparagraph, if_false]
  by_cases hsame : c = quote
  · subst hsame
    rcases hq with rfl | rfl
    · exact .letter (by decide) (by decide) (by decide) (by decide) (by decide)
    · exact .letter (by decide) (by decide) (by decide) (by decide) (by decide)
  rw [if_neg hsame]
  split
  · rename_i hcontrol
    simp only [Bool.or_eq_true, decide_eq_true_eq] at hcontrol
    exact .hex hquote (by omega)
  · exact .plain ⟨hslash, hsame, by simp [Lexer.isLineEnd, hfeed, hreturn, hline, hparagraph]⟩

namespace Written

variable {quote c : Char} {cs : List Char}

theorem isLineEnd_eq_false (h : Written quote c cs) : ∀ d ∈ cs, Lexer.isLineEnd d = false := by
  intro d hd
  cases h with
  | plain hplain =>
    rw [List.mem_singleton.1 hd]
    exact hplain.2.2
  | escape e more _ hline hmore =>
    rcases List.mem_cons.1 hd with rfl | hd
    · decide
    rcases List.mem_cons.1 hd with rfl | hd
    · exact hline
    · exact (hmore d hd).2.2

theorem bodyUnits?_append (h : Written quote c cs) (rest : List Char) :
    bodyUnits? quote 0 (cs ++ rest) = (bodyUnits? quote 0 rest).map (codeUnits c.toNat ++ ·) := by
  cases h with
  | plain hplain =>
    obtain ⟨hslash, hquote, hline⟩ := hplain
    have hfeed : c ≠ '\n' ∧ c ≠ '\r' := by
      constructor <;> rintro rfl <;> cases hline
    cases hunits : bodyUnits? quote 0 rest <;> simp [bodyUnits?, hslash, hquote, hfeed, hunits]
  | escape e more hunits _ _ =>
    show (do
      let (units, used) ← escapeUnits? (e :: more ++ rest)
      return units ++ (← bodyUnits? quote used (e :: more ++ rest))) = _
    rw [hunits]
    simp only [Option.pure_def, Option.bind_eq_bind, Option.bind_some, bodyUnits?_skip,
      Option.map_eq_bind,
      Function.comp_def]

theorem bareChars_append (h : Written quote c cs) (rest : List Char) :
    ∃ ds, bareChars (cs ++ rest) = ds ++ bareChars rest ∧ ∀ d ∈ ds, Plain quote d := by
  have hplain : ∀ ds : List Char, (∀ d ∈ ds, Plain quote d) →
      bareChars (ds ++ rest) = ds ++ bareChars rest := by
    intro ds hds
    induction ds with
    | nil => rfl
    | cons d ds ih =>
      rw [List.cons_append, bareChars.eq_2 _ _ (fun _ _ hd => absurd hd (hds d (by simp)).1),
        ih fun x hx => hds x (by simp [hx])]
      rfl
  cases h with
  | plain hc =>
    have hone : ∀ d ∈ [c], Plain quote d := by simpa using hc
    exact ⟨[c], hplain [c] hone, hone⟩
  | escape e more _ _ hmore => exact ⟨more, hplain more hmore, hmore⟩

end Written

/-! ## What is written for a text -/

section Body

variable {quote : Char} (hquote : Literal.isQuote quote = true) (v : List Char)
include hquote

theorem bodyUnits?_flatMap_quoteChar :
    bodyUnits? quote 0 (v.flatMap (Literal.quoteChar quote)) = some (textUnits v) := by
  induction v with
  | nil => rfl
  | cons c v ih =>
    rw [List.flatMap_cons, (written_quoteChar hquote c).bodyUnits?_append, ih]
    rfl

theorem plain_of_mem_bareChars :
    ∀ d ∈ bareChars (v.flatMap (Literal.quoteChar quote)), Plain quote d := by
  induction v with
  | nil => simp [bareChars]
  | cons c v ih =>
    obtain ⟨ds, hbare, hds⟩ :=
      (written_quoteChar hquote c).bareChars_append (v.flatMap (Literal.quoteChar quote))
    rw [List.flatMap_cons, hbare]
    intro d hd
    rcases List.mem_append.1 hd with hd | hd
    · exact hds d hd
    · exact ih d hd

theorem isLineEnd_of_mem_flatMap_quoteChar :
    ∀ d ∈ v.flatMap (Literal.quoteChar quote), Lexer.isLineEnd d = false := by
  intro d hd
  obtain ⟨c, -, hd⟩ := List.mem_flatMap.1 hd
  exact (written_quoteChar hquote c).isLineEnd_eq_false d hd

end Body

/-- A string ends at the first quote that is not escaped. -/
theorem Lexer.skipString_of_bareChars (h : ∀ d ∈ bareChars body, Plain quote d)
    (hquote : quote ≠ '\\') (rest : List Char) : Lexer.skipString quote (body ++ quote :: rest) =
    some rest := by
  induction body using bareChars.induct with
  | case1 e more ih => exact ih h
  | case2 c more hnot ih =>
    have hbare : bareChars (c :: more) = c :: bareChars more := bareChars.eq_2 _ _ hnot
    rw [hbare] at h
    obtain ⟨hslash, hne, hline⟩ := h c (by simp)
    have hfeed : c ≠ '\n' ∧ c ≠ '\r' := by
      constructor <;> rintro rfl <;> cases hline
    rw [List.cons_append, Lexer.skipString.eq_2 _ _ _ (fun _ _ hd => absurd hd hslash), if_neg hne,
      if_neg (by simp [hfeed, hslash]), ih fun x hx => h x (by simp [hx])]
  | case3 => rw [List.nil_append, Lexer.skipString.eq_2 _ _ _ (fun _ _ hd => absurd hd hquote),
      if_pos rfl]

/-- A string in front of a text. -/
theorem Lexer.Lexes.string {rest : List Char} {ts : List Token} (h : Lexes rest ts)
    (hquote : Literal.isQuote quote = true) (hbody : ∀ d ∈ bareChars body, Plain quote d) :
    Lexes (quote :: body ++ quote :: rest) (.string :: ts) := by
  have hq : quote = '\x27' ∨ quote = '"' := by simpa [Literal.isQuote] using hquote
  have hskip := skipString_of_bareChars hbody (by rcases hq with rfl | rfl <;> decide) rest
  refine h.cons (by simp; omega) fun fuel => ?_
  have hsolid : Solid (quote :: body ++ quote :: rest) := by
    apply Solid.of_ne
    · rcases hq with rfl | rfl <;> decide
    · rcases hq with rfl | rfl <;> decide
  have hword : isWordStart quote = false := by rcases hq with rfl | rfl <;> decide +kernel
  have hnumber : startsNumber (quote :: body ++ quote :: rest) = false := by
    rcases hq with rfl | rfl <;> rfl
  have hopen : (quote = '"' || quote = '\x27') = true := by rcases hq with rfl | rfl <;> decide
  rw [lexemes, skip_of_solid hsolid]
  simp only [List.cons_append] at hnumber ⊢
  simp only [Option.bind_eq_bind, Option.bind_some, hword, hnumber, hopen, hskip,
    Bool.false_eq_true, if_false, if_true,
    Option.pure_def, Option.map_eq_bind, Function.comp_def]

/-- A text is one string literal: between two equal quotes, none of them bare in between, all on one
line. The script reads it as one token, and its value is the text `v` and no other. -/
structure IsLiteralOf (out v : List Char) : Prop where
  exists_body : ∃ quote body, out = quote :: body ++ [quote] ∧ Literal.isQuote quote = true ∧
    quote ∉ bareChars body ∧ ∀ c ∈ body, Lexer.isLineEnd c = false
  lexes : Lexer.Lexes out [.string]
  value : ∀ w, literalUnits? out = some (textUnits w) ↔ w = v

theorem isQuote_quoteFor (v : List Char) : Literal.isQuote (Literal.quoteFor v) = true := by
  unfold Literal.quoteFor
  split <;> rfl

theorem literalUnits?_quoted (v : List Char) :
    literalUnits? (Literal.quoted v) = some (textUnits v) := by
  have hquote := isQuote_quoteFor v
  have hbody := bodyUnits?_flatMap_quoteChar hquote v
  simp [literalUnits?, Literal.quoted, hquote, hbody]

theorem isLiteralOf_quoted (v : List Char) : IsLiteralOf (Literal.quoted v) v where
  exists_body := by
    have hquote := isQuote_quoteFor v
    refine ⟨Literal.quoteFor v, v.flatMap (Literal.quoteChar (Literal.quoteFor v)), rfl, hquote, ?_,
      isLineEnd_of_mem_flatMap_quoteChar hquote v⟩
    intro hmem
    exact (plain_of_mem_bareChars hquote v _ hmem).2.1 rfl
  lexes := Lexer.lexes_nil.string (isQuote_quoteFor v)
    (plain_of_mem_bareChars (isQuote_quoteFor v) v)
  value w := by
    rw [literalUnits?_quoted, Option.some.injEq]
    constructor
    · intro h
      exact (textUnits_inj h).symm
    · rintro rfl
      rfl

end Script

/-! ## String tokens -/

namespace Literal

/-- Text between quotes reads back as itself, and the literal written for a string token has the
token's value. -/
theorem lowerString_keeps_value :
    (∀ v : List Char, Script.IsLiteralOf (quoted v) v) ∧
      ∀ token out : List Char, lowerString token = .ok out →
        ∃ v, stringValue token = .ok v ∧ Script.IsLiteralOf out v := by
  refine ⟨Script.isLiteralOf_quoted, ?_⟩
  intro token out h
  unfold lowerString at h
  cases hv : stringValue token with
  | error fault =>
    rw [hv] at h
    cases h
  | ok v =>
    rw [hv] at h
    cases h
    exact ⟨v, rfl, Script.isLiteralOf_quoted v⟩

/-- A long string with both quotes, a backslash, a control character and a line separator in it. -/
theorem lowerString_keeps_value_of_longString :
    lowerString "u\"\"\"it's \\\\\"\x01\u2028\"\"\"".toList =
    .ok "'it\\'s \\\\\"\\x01\\u2028'".toList ∧
      ∃ v, stringValue "u\"\"\"it's \\\\\"\x01\u2028\"\"\"".toList = .ok v ∧
        Script.IsLiteralOf "'it\\'s \\\\\"\\x01\\u2028'".toList v := by
  have h : lowerString "u\"\"\"it's \\\\\"\x01\u2028\"\"\"".toList =
      .ok "'it\\'s \\\\\"\\x01\\u2028'".toList := by decide +kernel
  exact ⟨h, lowerString_keeps_value.2 _ _ h⟩

end Literal

end ScriptCompiler
