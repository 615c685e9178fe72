import Mathlib.Data.List.TakeWhile
import Mathlib.Tactic.SplitIfs
import ScriptCompiler.Lowering.Fragment

/-!
# The value of static text

The static text of a format string is made single by removing one of each two equal braces, and
decoded after that. Here it is read in one go from left to right instead. Both give the same,
because no escape sequence goes on past a brace.
-/

namespace ScriptCompiler

variable {c b brace : Char} {raw : Bool} {cs p meaning : List Char} {used : Nat}

namespace Literal

def isBrace (c : Char) : Bool := c = '\x7b' || c = '\x7d'

/-- The value of static text, after skipping the characters of what was already read. Two equal
braces stand for one, and a backslash in front of a brace stands for itself. -/
def staticFrom (raw : Bool) : Nat → List Char → Except Fault (List Char)
  | _, [] => .ok []
  | skip + 1, _ :: rest => staticFrom raw skip rest
  | 0, c :: rest =>
    if isBrace c then return c :: (← staticFrom raw (if rest.head? = some c then 1 else 0) rest)
    else if c = '\\' && !raw && !rest.head?.any isBrace then do
      let (meaning, used) ← escape rest
      return meaning ++ (← staticFrom raw used rest)
    else return c :: (← staticFrom raw 0 rest)

/-- The text that the static text of a format string stands for. -/
def staticValue (raw : Bool) (text : List Char) : Except Fault (List Char) := staticFrom raw 0 text

/-! ## Skipping -/

theorem staticFrom_eq_drop (raw : Bool) (skip : Nat) (cs : List Char) :
    staticFrom raw skip cs = staticValue raw (cs.drop skip) := by
  induction skip generalizing cs with
  | zero => rfl
  | succ skip ih =>
    cases cs with
    | nil => rfl
    | cons c rest => exact ih rest

theorem decodeFrom_eq_drop (skip : Nat) (cs : List Char) :
    decodeFrom skip cs = decode (cs.drop skip) := by
  induction skip generalizing cs with
  | zero => rfl
  | succ skip ih =>
    cases cs with
    | nil => rfl
    | cons c rest => exact ih rest

theorem decode_cons (hc : c ≠ '\\') (cs : List Char) :
    decode (c :: cs) = (decode cs).map (c :: ·) := by
  show decodeFrom 0 (c :: cs) = _
  rw [decodeFrom, if_neg hc]
  show (decode cs).bind _ = _
  cases decode cs <;> rfl

theorem decode_escape (cs : List Char) :
    decode ('\\' :: cs) = (escape cs).bind fun p => (decode (cs.drop p.2)).map (p.1 ++ ·) := by
  show decodeFrom 0 ('\\' :: cs) = _
  rw [decodeFrom]
  cases escape cs with
  | error f => rfl
  | ok p =>
    show (decodeFrom p.2 cs).bind _ = (decode (cs.drop p.2)).map _
    rw [decodeFrom_eq_drop]
    cases decode (cs.drop p.2) <;> rfl

theorem staticValue_brace (hb : isBrace b = true) (cs : List Char) : staticValue raw (b :: cs) =
      (staticValue raw (cs.drop (if cs.head? = some b then 1 else 0))).map (b :: ·) := by
  show staticFrom raw 0 (b :: cs) = _
  rw [staticFrom, if_pos hb, staticFrom_eq_drop]
  cases staticValue raw (cs.drop (if cs.head? = some b then 1 else 0)) <;> rfl

theorem staticValue_escape (hcs : cs.head?.any isBrace = false) : staticValue false ('\\' :: cs) =
      (escape cs).bind fun p => (staticValue false (cs.drop p.2)).map (p.1 ++ ·) := by
  show staticFrom false 0 ('\\' :: cs) = _
  rw [staticFrom, if_neg (by decide), if_pos (by simp [hcs])]
  cases escape cs with
  | error f => rfl
  | ok p =>
    show (staticFrom false p.2 cs).bind _ = (staticValue false (cs.drop p.2)).map _
    rw [staticFrom_eq_drop]
    cases staticValue false (cs.drop p.2) <;> rfl

theorem staticValue_cons (hbrace : isBrace c = false)
    (hc : (c = '\\' && !raw && !cs.head?.any isBrace) = false) :
    staticValue raw (c :: cs) = (staticValue raw cs).map (c :: ·) := by
  show staticFrom raw 0 (c :: cs) = _
  rw [staticFrom, if_neg (by simp [hbrace]), if_neg (by simp [hc])]
  show (staticValue raw cs).bind _ = _
  cases staticValue raw cs <;> rfl

/-! ## Escapes in front of a brace -/

theorem number?_eq_none {base : Nat} (hc : c ∈ cs) (hdigit : digitIn? base c = none) :
    number? base cs = none := by
  have hnone : ∀ ds : List Char,
      ds.foldl (fun n? d => do return (← n?) * base + (← digitIn? base d))
      (none : Option Nat) = none := by
    intro ds
    induction ds with
    | nil => rfl
    | cons d ds ih => exact ih
  unfold number?
  generalize some 0 = start
  induction cs generalizing start with
  | nil => cases hc
  | cons d cs ih =>
    rw [List.foldl_cons]
    rcases List.mem_cons.mp hc with rfl | hc
    · rw [hdigit]
      cases start <;> exact hnone cs
    · exact ih hc _

theorem digitIn?_brace (hb : isBrace b = true) : digitIn? 16 b = none := by
  have hcases : b = '\x7b' ∨ b = '\x7d' := by simpa [isBrace] using hb
  rcases hcases with rfl | rfl <;> decide

theorem isOctal_brace (hb : isBrace b = true) : isOctal b = false := by
  have hcases : b = '\x7b' ∨ b = '\x7d' := by simpa [isBrace] using hb
  rcases hcases with rfl | rfl <;> decide

theorem hexEscape_append_brace (hb : isBrace b = true) (count : Nat) (p cs : List Char) :
    hexEscape count (p ++ b :: cs) = hexEscape count p := by
  unfold hexEscape
  by_cases hlength : count ≤ p.length
  · rw [List.take_append_of_le_length hlength]
  · -- The brace stands among the digits, or there are too few of them anyway.
    have hmem : b ∈ (p ++ b :: cs).take count := by
      rw [List.take_append]
      refine List.mem_append_right _ ?_
      obtain ⟨k, hk⟩ : ∃ k, count - p.length = k + 1 := ⟨count - p.length - 1, by omega⟩
      rw [hk]
      exact List.mem_cons_self
    have hnone :
        (if ((p ++ b :: cs).take count).length = count then number? 16
        ((p ++ b :: cs).take count) else none) = none := by
      split_ifs
      · exact number?_eq_none hmem (digitIn?_brace hb)
      · rfl
    have hshort : (p.take count).length ≠ count := by
      rw [List.length_take]
      omega
    dsimp only
    rw [hnone, if_neg hshort]

theorem takeWhile_take_append_brace (hb : isOctal b = false) (count : Nat) (p cs : List Char) :
    ((p ++ b :: cs).take count).takeWhile isOctal = (p.take count).takeWhile isOctal := by
  induction p generalizing count with
  | nil =>
    cases count with
    | zero => rfl
    | succ count => simp [hb]
  | cons c p ih =>
    cases count with
    | zero => rfl
    | succ count => simp only [List.cons_append, List.take_succ_cons, List.takeWhile_cons, ih]

/-- A brace ends an escape just as the end of the text does. -/
theorem escape_append_brace (hb : isBrace b = true) (hp : p ≠ []) (cs : List Char) :
    escape (p ++ b :: cs) = escape p := by
  cases p with
  | nil => exact absurd rfl hp
  | cons c p =>
    have hdigits := takeWhile_take_append_brace (isOctal_brace hb) 3 (c :: p) cs
    rw [List.cons_append] at hdigits ⊢
    simp only [escape, hdigits, hexEscape_append_brace hb]

theorem used_le_of_hexEscape {count : Nat} (h : hexEscape count cs = .ok (meaning, used)) :
    used ≤ cs.length + 1 := by
  unfold hexEscape at h
  dsimp only at h
  by_cases hlength : (cs.take count).length = count
  · split at h
    · cases h
    · split_ifs at h
      cases h
      rw [List.length_take] at hlength
      omega
  · rw [if_neg hlength] at h
    cases h

/-- An escape is no longer than what follows its backslash. -/
theorem used_le_of_escape (h : escape cs = .ok (meaning, used)) : used ≤ cs.length := by
  unfold escape at h
  split at h
  · cases h
    exact Nat.le_refl 0
  · next c rest =>
      split at h
      · cases h
        simp
      · split_ifs at h
        · cases h
          exact Nat.le_trans (List.takeWhile_prefix _).length_le (List.take_prefix _ _).length_le
        · exact used_le_of_hexEscape h
        · exact used_le_of_hexEscape h
        · exact used_le_of_hexEscape h
        · cases h
          simp

end Literal

namespace Script

open Literal

/-! ## Single braces -/

theorem undoubled_cons_ne (hc : c ≠ brace) (cs : List Char) :
    undoubled brace (c :: cs) = c :: undoubled brace cs := by
  cases cs with
  | nil => rfl
  | cons d cs => rw [undoubled, if_neg fun h => hc h.1]

theorem undoubled_cons_cons (brace : Char) (cs : List Char) :
    undoubled brace (brace :: brace :: cs) = brace :: undoubled brace cs := by
  rw [undoubled, if_pos ⟨rfl, rfl⟩]

theorem undoubled_single (hcs : cs.head? ≠ some brace) :
    undoubled brace (brace :: cs) = brace :: undoubled brace cs := by
  cases cs with
  | nil => rfl
  | cons d cs =>
    rw [undoubled, if_neg]
    rintro ⟨-, rfl⟩
    exact hcs rfl

theorem head?_undoubled (brace : Char) (cs : List Char) :
    (undoubled brace cs).head? = cs.head? := by
  fun_induction undoubled brace cs with
  | case1 => rfl
  | case2 c => rfl
  | case3 c d rest h ih => simp [h.1]
  | case4 c d rest h ih => rfl

/-- The static text of a format string without the second of each two equal braces. -/
def undouble (cs : List Char) : List Char := undoubled '\x7d' (undoubled '\x7b' cs)

theorem head?_undouble (cs : List Char) : (undouble cs).head? = cs.head? := by
  rw [undouble, head?_undoubled, head?_undoubled]

theorem undouble_cons (hc : isBrace c = false) (cs : List Char) :
    undouble (c :: cs) = c :: undouble cs := by
  obtain ⟨hopen, hclose⟩ : c ≠ '\x7b' ∧ c ≠ '\x7d' := by simpa [isBrace] using hc
  rw [undouble, undoubled_cons_ne hopen, undoubled_cons_ne hclose]
  rfl

theorem undouble_append (hp : ∀ c ∈ p, isBrace c = false) (cs : List Char) :
    undouble (p ++ cs) = p ++ undouble cs := by
  induction p with
  | nil => rfl
  | cons c p ih =>
    rw [List.cons_append, undouble_cons (hp c List.mem_cons_self),
      ih fun d hd => hp d (List.mem_cons_of_mem _ hd)]
    rfl

theorem undouble_brace (hb : isBrace b = true) (cs : List Char) :
    undouble (b :: cs) = b :: undouble (cs.drop (if cs.head? = some b then 1 else 0)) := by
  have hcases : b = '\x7b' ∨ b = '\x7d' := by simpa [isBrace] using hb
  have hne : ('\x7b' : Char) ≠ '\x7d' := by decide
  by_cases hhead : cs.head? = some b
  · obtain ⟨rest, rfl⟩ := List.head?_eq_some_iff.mp hhead
    rcases hcases with rfl | rfl
    · rw [undouble, undoubled_cons_cons, undoubled_cons_ne hne]
      rfl
    · rw [undouble, undoubled_cons_ne hne.symm, undoubled_cons_ne hne.symm]
      rfl
  · rw [if_neg hhead]
    rcases hcases with rfl | rfl
    · rw [undouble, undoubled_single hhead, undoubled_cons_ne hne]
      rfl
    · rw [undouble, undoubled_cons_ne hne.symm, undoubled_single (by rwa [head?_undoubled])]
      rfl

/-- An escape means the same before and after braces are made single, and what follows it is made
single alike. -/
theorem escape_undouble (hcs : cs.head?.any isBrace = false) : escape (undouble cs) = escape cs ∧
      ∀ meaning used, escape cs = .ok (meaning, used) →
      (undouble cs).drop used = undouble (cs.drop used) := by
  obtain ⟨p, r, rfl, hp, hr⟩ : ∃ p r, cs = p ++ r ∧ (∀ c ∈ p, isBrace c = false) ∧
      ∀ c ∈ r.head?, isBrace c = true := by
    refine ⟨cs.takeWhile (!isBrace ·), cs.dropWhile (!isBrace ·),
      (List.takeWhile_append_dropWhile).symm, ?_, ?_⟩
    · intro c hc
      simpa using List.mem_takeWhile_imp hc
    · intro c hc
      have := List.head?_dropWhile_not (fun c => !isBrace c) cs
      rw [Option.mem_def.mp hc] at this
      simpa using this
  rw [undouble_append hp]
  -- Both texts go on with the same brace behind `p`, or both end there.
  have hescape : escape (p ++ undouble r) = escape p ∧ escape (p ++ r) = escape p := by
    cases r with
    | nil => exact ⟨by rw [show undouble [] = [] from rfl, List.append_nil], by
      rw [List.append_nil]⟩
    | cons b r =>
      have hb : isBrace b = true := hr b rfl
      have hne : p ≠ [] := by
        rintro rfl
        simp [hb] at hcs
      rw [undouble_brace hb]
      exact ⟨escape_append_brace hb hne _, escape_append_brace hb hne _⟩
  refine ⟨hescape.1.trans hescape.2.symm, ?_⟩
  intro meaning used hused
  have hle := used_le_of_escape (hescape.2 ▸ hused)
  rw [List.drop_append_of_le_length hle, List.drop_append_of_le_length hle,
    undouble_append fun c hc => hp c (List.mem_of_mem_drop hc)]

variable (text : List Char)

/-- Making braces single first and decoding afterwards gives the value of static text. -/
theorem decode_undouble : decode (undouble text) = staticValue false text := by
  induction hn : text.length using Nat.strong_induction_on generalizing text with
  | _ n ih =>
    subst hn
    cases text with
    | nil => rfl
    | cons c rest =>
      have hrest : decode (undouble rest) = staticValue false rest :=
        ih rest.length (by simp) rest rfl
      by_cases hbrace : isBrace c = true
      · have hslash : c ≠ '\\' := by
          rintro rfl
          cases hbrace
        rw [undouble_brace hbrace, decode_cons hslash, staticValue_brace hbrace]
        rw [ih _ ?_ (rest.drop _) rfl]
        rw [List.length_drop, List.length_cons]
        omega
      rw [Bool.not_eq_true] at hbrace
      rw [undouble_cons hbrace]
      by_cases hslash : c = '\\'
      · subst hslash
        by_cases hnext : rest.head?.any isBrace = true
        · -- A backslash that no escape follows stands for itself.
          obtain ⟨b, hb, hbrace'⟩ := (Option.any_eq_true _ _).mp hnext
          obtain ⟨more, hmore⟩ := List.head?_eq_some_iff.mp ((head?_undouble rest).trans hb)
          have hescape : escape (b :: more) = .ok (['\\', b], 1) := by
            have hcases : b = '\x7b' ∨ b = '\x7d' := by simpa [isBrace] using hbrace'
            rcases hcases with rfl | rfl <;> rfl
          have hslash' : b ≠ '\\' := by
            rintro rfl
            cases hbrace'
          rw [staticValue_cons hbrace (by simp [hnext]), ← hrest, hmore, decode_escape, hescape,
            decode_cons hslash']
          show (decode more).map _ = ((decode more).map _).map _
          cases decode more <;> rfl
        · rw [Bool.not_eq_true] at hnext
          obtain ⟨hescape, hdrop⟩ := escape_undouble hnext
          rw [decode_escape, staticValue_escape hnext, hescape]
          cases hmeaning : escape rest with
          | error f => rfl
          | ok p =>
            show (decode _).map _ = (staticValue false _).map _
            rw [hdrop p.1 p.2 hmeaning, ih _ ?_ (rest.drop p.2) rfl]
            rw [List.length_drop, List.length_cons]
            omega
      · rw [decode_cons hslash, hrest, staticValue_cons hbrace (by simp [hslash])]

theorem ok_undouble : .ok (undouble text) = staticValue true text := by
  induction hn : text.length using Nat.strong_induction_on generalizing text with
  | _ n ih =>
    subst hn
    cases text with
    | nil => rfl
    | cons c rest =>
      by_cases hbrace : isBrace c = true
      · rw [undouble_brace hbrace, staticValue_brace hbrace, ← ih _ ?_ (rest.drop _) rfl]
        · rfl
        · rw [List.length_drop, List.length_cons]
          omega
      · rw [Bool.not_eq_true] at hbrace
        rw [undouble_cons hbrace, staticValue_cons hbrace (by simp),
          ← ih rest.length (by simp) rest rfl]
        rfl

/-- The static text between two holes is written as its value. -/
theorem templateSegment_eq (raw : Bool) (text : List Char) :
    templateSegment raw text = (staticValue raw text).map fun value =>
    String.ofList (templateText value) := by
  cases raw with
  | true =>
    rw [← ok_undouble]
    rfl
  | false =>
    rw [← decode_undouble]
    show (decode (undouble text)).bind _ = _
    cases decode (undouble text) <;> rfl

end Script

end ScriptCompiler
