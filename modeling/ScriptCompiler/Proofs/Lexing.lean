import ScriptCompiler.Script.Token
import ScriptCompiler.Proofs.Reading
import ScriptCompiler.Proofs.Elementary

/-!
# Lexing pieces of a script

How the tokens of a text come from those of its pieces. A piece is followed by something that does
not go on with its last token: a word or a number would go on with a letter or a digit, and a number
also with a point.
-/

namespace ScriptCompiler.Script.Lexer

variable {ts : List Token} {c : Char} {rest cs : List Char} {w s : String}
  {pieces : List (List Char × List Token)}

/-- The tokens of a text. -/
def Lexes (cs : List Char) (ts : List Token) : Prop :=
  ∀ fuel, cs.length < fuel → (lexemes fuel [] cs).map (·.map (·.token)) = some ts

theorem Lexes.exists_lexemes {text : String} (h : Lexes text.toList ts) :
    ∃ lexemes, lexemes? text = some lexemes ∧ lexemes.map (·.token) = ts :=
  Option.map_eq_some_iff.1 (h (text.length + 1) (by rw [String.length_toList]; omega))

theorem lexes_nil : Lexes [] [] := by
  intro fuel hfuel
  cases fuel with
  | zero => simp at hfuel
  | succ fuel => rfl

/-! ## Spaces -/

/-- Whether a text begins with a token. -/
def Solid (cs : List Char) :
    Prop := ∃ c rest, cs = c :: rest ∧ isSpace c = false ∧ (c = '/' → rest.head? = some ' ')

theorem Solid.of_ne (hspace : isSpace c = false) (hslash : c ≠ '/') : Solid (c :: rest) :=
  ⟨c, rest, rfl, hspace, fun h => absurd h hslash⟩

theorem skip_of_solid (h : Solid cs) (n : Nat) (line : Bool) :
    skip n cs line = some (cs, line) := by
  obtain ⟨c, rest, rfl, hspace, hslash⟩ := h
  cases n with
  | zero => rfl
  | succ n =>
    rw [skip]
    simp only [List.takeWhile_cons, List.dropWhile_cons, hspace, Bool.false_eq_true, if_false,
      List.any_nil,
      Bool.or_false]
    -- neither kind of comment begins here
    split
    · rename_i h
      cases h
      simp at hslash
    · rename_i h
      cases h
      simp at hslash
    · rfl

theorem skip_space (h : Solid cs) (n : Nat) :
    skip (n + 1) (' ' :: cs) false = some (cs, false) := by
  have hsolid := skip_of_solid h (n + 1) false
  exact hsolid

theorem Lexes.space (h : Lexes cs ts) (hsolid : Solid cs) : Lexes (' ' :: cs) ts := by
  intro fuel hfuel
  have hspace : lexemes fuel [] (' ' :: cs) = lexemes fuel [] cs := by
    cases fuel with
    | zero => rfl
    | succ fuel => rw [lexemes, lexemes, List.length_cons, skip_space hsolid, skip_of_solid hsolid]
  rw [hspace]
  exact h fuel (by simp at hfuel; omega)

/-- A token in front of a text. -/
theorem Lexes.cons {token : Token} (h : Lexes rest ts) (hlt : rest.length < cs.length)
    (htoken : ∀ fuel, lexemes (fuel + 1) [] cs = (lexemes fuel [] rest).map (⟨token, false⟩ :: ·)) :
    Lexes cs (token :: ts) := by
  intro fuel hfuel
  cases fuel with
  | zero => omega
  | succ fuel =>
    obtain ⟨lexemes, hlexemes, rfl⟩ := Option.map_eq_some_iff.1 (h fuel (by omega))
    rw [htoken, hlexemes]
    rfl

/-! ## Words -/

theorem isWordPart_of_isWordStart (h : isWordStart c = true) : isWordPart c = true := by
  simp only [isWordStart, isWordPart, Identifier.isStart, Identifier.isContinue, Char.isAlphanum,
    Bool.or_eq_true,
    Bool.and_eq_true, decide_eq_true_eq] at h ⊢
  rcases h with (h | h) | (h | h) | h <;> simp [h]

theorem isWordPart_of_isDigit (h : c.isDigit = true) : isWordPart c = true := by
  simp [isWordPart, Identifier.isContinue, Char.isAlphanum, h]

theorem isWordStart_of_isSpace (h : isSpace c = true) : isWordStart c = false := by
  simp only [isSpace, isLineEnd, Bool.or_eq_true, decide_eq_true_eq] at h
  rcases h with (((((rfl | rfl) | rfl) | rfl) | rfl) | rfl) | (((rfl | rfl) | rfl) | rfl) <;>
    decide +kernel

theorem Solid.of_isWordStart (h : isWordStart c = true) (rest : List Char) : Solid (c :: rest) := by
  refine .of_ne (Bool.eq_false_iff.2 fun hspace => ?_) ?_
  · simp [isWordStart_of_isSpace hspace] at h
  · rintro rfl
    exact absurd h (by decide)

theorem Lexes.word (h : Lexes rest ts) (hstart : isWordStart c = true)
    (hparts : ∀ d ∈ cs, isWordPart d = true)
    (hrest : ∀ d ∈ rest.head?, isWordPart d = false) :
    Lexes (c :: cs ++ rest) (.word (String.ofList (c :: cs)) :: ts) := by
  have hall : ∀ d ∈ c :: cs, isWordPart d = true := by
    rintro d hd
    rcases List.mem_cons.1 hd with rfl | hd
    · exact isWordPart_of_isWordStart hstart
    · exact hparts d hd
  obtain ⟨htake, hdrop⟩ := span_append hall hrest
  have hsolid : Solid (c :: cs ++ rest) := .of_isWordStart hstart _
  refine h.cons (by rw [List.length_append, List.length_cons]; omega) fun fuel => ?_
  rw [lexemes, skip_of_solid hsolid]
  simp only [Option.bind_eq_bind, Option.bind_some, List.cons_append, hstart,
    if_true] at htake hdrop ⊢
  rw [htake, hdrop]
  cases lexemes fuel [] rest <;> rfl

theorem exists_of_isWord (hw : Identifier.IsWord w) :
    ∃ c cs, w.toList = c :: cs ∧ isWordStart c = true ∧ ∀ d ∈ cs, isWordPart d = true := by
  unfold Identifier.IsWord at hw
  cases hcs : w.toList with
  | nil =>
    rw [hcs] at hw
    cases hw
  | cons c cs =>
    rw [hcs, Identifier.split?, Option.ite_none_right_eq_some] at hw
    obtain ⟨hstart, hsplit⟩ := hw
    have hall : cs.dropWhile Identifier.isContinue = [] := (Prod.mk.inj (Option.some.inj hsplit)).2
    refine ⟨c, cs, rfl, by simp [isWordStart, hstart], fun d hd => ?_⟩
    have hcontinue : Identifier.isContinue d = true := List.dropWhile_eq_nil_iff.1 hall d hd
    simp [isWordPart, hcontinue]

theorem Lexes.ofWord (h : Lexes rest ts) (hw : Identifier.IsWord w)
    (hrest : ∀ d ∈ rest.head?, isWordPart d = false) :
    Lexes (w.toList ++ rest) (.word w :: ts) := by
  obtain ⟨c, cs, hcs, hstart, hparts⟩ := exists_of_isWord hw
  have hword := h.word hstart hparts hrest
  rwa [← hcs, String.ofList_toList] at hword

/-! ## Numbers -/

theorem isDigit_plain (h : c.isDigit = true) :
    isWordStart c = false ∧ isSpace c = false ∧ c ≠ '/' ∧ c ≠ '.' := by
  -- digits are checked one by one, as code points
  have hall : ∀ n < 58, (Char.ofNat n).isDigit = true → isWordStart (Char.ofNat n) = false ∧
      isSpace (Char.ofNat n) = false ∧ Char.ofNat n ≠ '/' ∧ Char.ofNat n ≠ '.' := by decide +kernel
  have hle : 48 ≤ c.toNat ∧ c.toNat ≤ 57 := by simpa [Char.isDigit, UInt32.le_iff_toNat_le] using h
  have hc := hall c.toNat (by omega)
  rw [Char.ofNat_toNat] at hc
  exact hc h

theorem Lexes.number (h : Lexes rest ts) (hstart : c.isDigit = true)
    (hnumber : skipNumber (c :: cs ++ rest) = some rest) :
    Lexes (c :: cs ++ rest) (.number (String.ofList (c :: cs)) :: ts) := by
  obtain ⟨hword, hspace, hslash, hpoint⟩ := isDigit_plain hstart
  have hsolid : Solid (c :: cs ++ rest) := .of_ne hspace hslash
  have htext : (c :: cs ++ rest).take ((c :: cs ++ rest).length - rest.length) = c :: cs := by
    rw [List.length_append, Nat.add_sub_cancel, List.take_left]
  have hdigit : startsNumber (c :: cs ++ rest) = true := by
    simpa [startsNumber, hpoint] using hstart
  refine h.cons (by rw [List.length_append, List.length_cons]; omega) fun fuel => ?_
  rw [lexemes, skip_of_solid hsolid]
  simp only [Option.bind_eq_bind, Option.bind_some, List.cons_append, hword, Bool.false_eq_true,
    if_false] at htext hdigit hnumber ⊢
  rw [hdigit, hnumber]
  simp only [Option.bind_some, if_true, htext]
  cases lexemes fuel [] rest <;> rfl

/-! ## Symbols -/

/-- Characters that symbols begin with, other than braces. -/
def signs : List Char :=
  ['(', ')', '[', ']', '.', ',', '?', ':', '!', '~', '+', '-', '*', '/', '%', '<', '>', '=',
    '&', '|', '^']

theorem Lexes.symbol (h : Lexes rest ts) (cs : List Char) (hsign : c ∈ signs)
    (hsolid : Solid (c :: cs ++ rest))
    (hnumber : startsNumber (c :: cs ++ rest) = false)
    (hsymbol : symbol? (c :: cs ++ rest) = some (s, rest)) :
    Lexes (c :: cs ++ rest) (.symbol s :: ts) := by
  have hplain :
      signs.all (fun c => decide (isWordStart c = false ∧ (c = '"' || c = '\x27') = false ∧
      c ≠ '\x60' ∧
      (c = '\x7d' && ([] : List Nat).head? == some 0) = false)) = true := by decide
  obtain ⟨hword, hquote, htemplate, hbrace⟩ := of_decide_eq_true (List.all_eq_true.1 hplain c hsign)
  refine h.cons (by rw [List.length_append, List.length_cons]; omega) fun fuel => ?_
  rw [lexemes, skip_of_solid hsolid]
  simp only [Option.bind_eq_bind, Option.bind_some, List.cons_append, hword, hquote,
    htemplate, hbrace,
    Bool.false_eq_true, if_false] at hnumber hsymbol ⊢
  rw [hnumber, hsymbol]
  simp only [Option.bind_some, if_false, Bool.false_eq_true]
  cases lexemes fuel [] rest <;> rfl

/-- A bracket or a comma is a symbol of its own. -/
theorem Lexes.bracket (h : Lexes rest ts)
    (hc : c ∈ ['(', ')', '[', ']', ',']) :
    Lexes (c :: rest) (.symbol (String.singleton c) :: ts) := by
  simp only [List.mem_cons, List.not_mem_nil, or_false] at hc
  rcases hc with rfl | rfl | rfl | rfl | rfl
  all_goals exact h.symbol [] (by decide) (.of_ne (by decide) (by decide)) rfl rfl

theorem Lexes.point (h : Lexes (c :: rest) ts)
    (hstart : isWordStart c = true) : Lexes ('.' :: c :: rest) (.symbol "." :: ts) := by
  have hpoint : c ≠ '.' := by
    rintro rfl
    exact absurd hstart (by decide)
  have hdigit : c.isDigit = false := by
    refine Bool.eq_false_iff.2 fun hdigit => ?_
    simp [(isDigit_plain hdigit).1] at hstart
  refine h.symbol [] (by decide) (.of_ne (by decide) (by decide)) hdigit ?_
  simp [symbol?, symbols, List.isPrefixOf, hpoint.symm]
  rfl

/-- An operator in front of an operand in parentheses. -/
theorem Lexes.unary (h : Lexes ('(' :: rest) ts)
    (hs : s ∈ ["!", "~", "+", "-"]) : Lexes (s.toList ++ '(' :: rest) (.symbol s :: ts) := by
  simp only [List.mem_cons, List.not_mem_nil, or_false] at hs
  rcases hs with rfl | rfl | rfl | rfl
  all_goals exact h.symbol [] (by decide) (.of_ne (by decide) (by decide)) rfl rfl

/-- Operators that are written between spaces. -/
def spacedSymbols : List String := [
  "+", "-", "*", "/", "%", "<<", ">>", "|", "^", "&", "&&", "||", "==", "!=", "<", "<=", ">", ">=",
  "===", "!==", "?", ":"]

theorem symbol?_of_spaced (hs : s ∈ spacedSymbols) (rest : List Char) :
    (∃ c cs, s.toList = c :: cs ∧ c ∈ signs) ∧ Solid (s.toList ++ ' ' :: rest) ∧
      startsNumber (s.toList ++ ' ' :: rest) = false ∧ symbol? (s.toList ++ ' ' :: rest) =
      some (s, ' ' :: rest) := by
  simp only [spacedSymbols, List.mem_cons, List.not_mem_nil, or_false] at hs
  rcases hs with rfl | rfl | rfl | rfl | rfl | rfl | rfl | rfl | rfl | rfl | rfl | rfl | rfl | rfl | rfl | rfl | rfl |
    rfl | rfl | rfl | rfl | rfl
  all_goals
    refine ⟨⟨_, _, rfl, by decide⟩, ⟨_, _, rfl, by decide, ?_⟩, rfl, rfl⟩
    first
      | exact fun _ => rfl
      | exact fun h => absurd h (by decide)

theorem Lexes.spaced (h : Lexes rest ts) (hsolid : Solid rest)
    (hs : s ∈ spacedSymbols) : Lexes (' ' :: s.toList ++ ' ' :: rest) (.symbol s :: ts) := by
  obtain ⟨⟨c, cs, hcs, hsign⟩, hfront, hnumber, hsymbol⟩ := symbol?_of_spaced hs rest
  refine Lexes.space ?_ hfront
  rw [hcs] at hfront hnumber hsymbol ⊢
  exact (h.space hsolid).symbol cs hsign hfront hnumber hsymbol

/-! ## Pieces -/

/-- What may follow a piece: nothing that goes on with a word, and a point only if the piece does
not end in a number. -/
def Apart (point : Bool) (rest : List Char) : Prop :=
  ∀ c ∈ rest.head?, isWordPart c = false ∧ (c = '.' → point = true)

theorem Apart.of_mem (hc : c ∈ ['(', ')', '[', ']', ',', ' ']) (point : Bool) (rest : List Char) :
    Apart point (c :: rest) := by
  have hplain : ['(', ')', '[', ']', ',', ' '].all
      (fun c => decide (isWordPart c = false ∧ c ≠ '.')) = true := by
    decide
  obtain ⟨hpart, hpoint⟩ := of_decide_eq_true (List.all_eq_true.1 hplain c hc)
  rintro _ ⟨⟩
  exact ⟨hpart, fun h => absurd h hpoint⟩

/-- A piece of a text with its tokens. -/
structure Lexed (point : Bool) (cs : List Char) (ts : List Token) : Prop where
  solid : ∀ rest, Solid (cs ++ rest)
  lexes : ∀ ⦃rest us⦄, Apart point rest → Lexes rest us → Lexes (cs ++ rest) (ts ++ us)

namespace Lexed

variable {p q : Bool} {cs ds : List Char} {ts us : List Token}

theorem loosen (h : Lexed p cs ts) : Lexed false cs ts where
  solid := h.solid
  lexes := fun _ _ hapart hrest => h.lexes (fun c hc => ⟨(hapart c hc).1, fun hpoint => by
    simpa using (hapart c hc).2 hpoint⟩) hrest

theorem lexes_all (h : Lexed p cs ts) : Lexes cs ts := by
  simpa using h.lexes (by simp [Apart]) lexes_nil

theorem word (hw : Identifier.IsWord w) : Lexed true w.toList [.word w] where
  solid := by
    intro rest
    obtain ⟨c, cs, hcs, hstart, -⟩ := exists_of_isWord hw
    rw [hcs]
    exact .of_isWordStart hstart _
  lexes := fun _ _ hapart hrest => hrest.ofWord hw fun d hd => (hapart d hd).1

theorem parens (h : Lexed p cs ts) :
    Lexed true ('(' :: cs ++ [')']) (.symbol "(" :: ts ++ [.symbol ")"]) where
  solid := fun _ => .of_ne (by decide) (by decide)
  lexes := by
    intro rest us _ hrest
    have hclose : Lexes (')' :: rest) (.symbol ")" :: us) := hrest.bracket (by decide)
    have hinner := h.lexes (.of_mem (by decide) p rest) hclose
    have hopen : Lexes ('(' :: _) (.symbol "(" :: _) := hinner.bracket (by decide)
    simpa using hopen

theorem unary (h : Lexed p cs ts) (hs : s ∈ ["!", "~", "+", "-"]) :
    Lexed true (s.toList ++ ('(' :: cs ++ [')']))
    (.symbol s :: (.symbol "(" :: ts ++ [.symbol ")"])) where
  solid := by
    intro rest
    simp only [List.mem_cons, List.not_mem_nil, or_false] at hs
    rcases hs with rfl | rfl | rfl | rfl
    all_goals exact .of_ne (by decide) (by decide)
  lexes := by
    intro rest us hapart hrest
    have hoperand := h.parens.lexes hapart hrest
    have hsign : Lexes (s.toList ++ '(' :: _) (.symbol s :: _) := Lexes.unary hoperand hs
    simpa using hsign

theorem member (h : Lexed true cs ts) {key : String} (hkey : Identifier.IsWord key) :
    Lexed true (cs ++ '.' :: key.toList) (ts ++ [.symbol ".", .word key]) where
  solid := fun rest => by simpa using h.solid ('.' :: (key.toList ++ rest))
  lexes := by
    intro rest us hapart hrest
    have hword := hrest.ofWord hkey fun d hd => (hapart d hd).1
    obtain ⟨c, ds, hds, hstart, -⟩ := exists_of_isWord hkey
    rw [hds] at hword
    have hpoint : Lexes ('.' :: (key.toList ++ rest)) (.symbol "." :: .word key :: us) := by
      rw [hds]
      exact hword.point hstart
    have hbefore : Apart true ('.' :: (key.toList ++ rest)) := by
      rintro _ ⟨⟩
      exact ⟨by decide, fun _ => rfl⟩
    simpa using h.lexes hbefore hpoint

theorem index (h : Lexed p cs ts) (hkey : Lexed q ds us) :
    Lexed true (cs ++ '[' :: ds ++ [']']) (ts ++ .symbol "[" :: us ++ [.symbol "]"]) where
  solid := fun rest => by simpa using h.solid ('[' :: (ds ++ ']' :: rest))
  lexes := by
    intro rest vs _ hrest
    have hclose : Lexes (']' :: rest) (.symbol "]" :: vs) := hrest.bracket (by decide)
    have hinner := hkey.lexes (.of_mem (by decide) q rest) hclose
    have hopen : Lexes ('[' :: _) (.symbol "[" :: _) := hinner.bracket (by decide)
    simpa using h.lexes (.of_mem (by decide) p _) hopen

/-- Two pieces with an operator between them. -/
theorem spaced (h : Lexed p cs ts) (h' : Lexed q ds us) (hs : s ∈ spacedSymbols) :
    Lexed q (cs ++ ' ' :: s.toList ++ ' ' :: ds) (ts ++ .symbol s :: us) where
  solid := fun rest => by simpa using h.solid (' ' :: (s.toList ++ ' ' :: (ds ++ rest)))
  lexes := by
    intro rest vs hapart hrest
    have hsymbol := (h'.lexes hapart hrest).spaced (h'.solid rest) hs
    simpa using h.lexes (.of_mem (by decide) p _) hsymbol

/-- Pieces with commas between them. -/
theorem commas (hne : pieces ≠ []) (h : ∀ piece ∈ pieces, Lexed false piece.1 piece.2) :
    Lexed false ([',', ' '].intercalate (pieces.map (·.1)))
    ([.symbol ","].intercalate (pieces.map (·.2))) := by
  induction pieces with
  | nil => exact absurd rfl hne
  | cons piece pieces ih =>
    cases pieces with
    | nil => simpa [List.intercalate] using h piece (by simp)
    | cons other pieces =>
      have hfirst := h piece (by simp)
      have hothers := ih (by simp) fun piece hpiece => h piece (List.mem_cons_of_mem _ hpiece)
      constructor
      · intro rest
        simpa [List.intercalate] using hfirst.solid (',' :: ' ' :: _)
      · intro rest us hapart hrest
        have hspace := (hothers.lexes hapart hrest).space (hothers.solid rest)
        have hcomma : Lexes (',' :: _) (.symbol "," :: _) := hspace.bracket (by decide)
        simpa [List.intercalate] using hfirst.lexes (.of_mem (by decide) false _) hcomma

/-- Pieces in parentheses after another piece. -/
theorem call (h : Lexed p cs ts) (hpieces : ∀ piece ∈ pieces, Lexed false piece.1 piece.2) :
    Lexed true (cs ++ ('(' :: [',', ' '].intercalate (pieces.map (·.1)) ++ [')']))
      (ts ++ (.symbol "(" :: [.symbol ","].intercalate (pieces.map (·.2)) ++ [.symbol ")"])) where
  solid := fun rest => by simpa using h.solid ('(' :: _)
  lexes := by
    intro rest vs hapart hrest
    have hclose : Lexes (')' :: rest) (.symbol ")" :: vs) := hrest.bracket (by decide)
    have hinner : Lexes ([',', ' '].intercalate (pieces.map (·.1)) ++ ')' :: rest)
        ([.symbol ","].intercalate (pieces.map (·.2)) ++ .symbol ")" :: vs) := by
      cases pieces with
      | nil => simpa [List.intercalate] using hclose
      | cons piece pieces =>
        exact (commas (by simp) hpieces).lexes (.of_mem (by decide) false rest) hclose
    have hopen : Lexes ('(' :: _) (.symbol "(" :: _) := hinner.bracket (by decide)
    simpa using h.lexes (.of_mem (by decide) p _) hopen

end Lexed

end ScriptCompiler.Script.Lexer
