import ScriptCompiler.Script.Grammar

/-!
# Expressions of scripts

The grammar of operators, member accesses and calls in scripts. Every rule forms expressions of one
level; the higher the level, the tighter they bind, and an expression of a level is also one of each
level below.

level 0: comma · 1: conditional · 2 to 11: binary operators that group to the left · 12: powers,
which group to the right · 13: operators in front · 14: members, subscripts and calls · 15: words,
numbers and parentheses

Main statement: a sequence of tokens is an expression in one way at most (`Derives.unique`).
Operators that are also used in front, such as `-`, and the rules that recur on their left side are
why this is no matter of course. It is shown by a second reading that goes through the tokens from
left to right and never has a choice.
-/

namespace ScriptCompiler.Script

variable {op : Token} {n : Nat} {ts rest rest' : List Token}

inductive Tree where
  | word (text : String)
  | number (text : String)
  | member (object : Tree) (key : String)
  | index (object key : Tree)
  | call (function : Tree) (arguments : List Tree)
  | unary (op : String) (operand : Tree)
  | binary (op : String) (left right : Tree)
  | conditional (condition consequent alternative : Tree)

/-- Whether a word names a variable wherever it stands. -/
def isIdentifier (w : String) : Bool := !reservedWords.contains w && w != "await" && w != "yield"

/-- The levels of the binary operators that group to the left. -/
def symbolStrengths : List (String × Nat) := [
  (",", 0), ("||", 2), ("&&", 3), ("|", 4), ("^", 5), ("&", 6), ("==", 7), ("!=", 7), ("===", 7),
  ("!==", 7), ("<", 8),
  (">", 8), ("<=", 8), (">=", 8), ("<<", 9), (">>", 9), (">>>", 9), ("+", 10), ("-", 10),
  ("*", 11), ("/", 11),
  ("%", 11)]

namespace Token

def spelling : Token → String
  | .word w | .symbol w => w
  | _ => ""

/-- Whether a token is an operator in front of its operand. -/
def isUnary : Token → Bool
  | .symbol s => ["!", "~", "+", "-"].contains s
  | .word w => prefixWords.contains w
  | _ => false

/-- The level of a binary operator that groups to the left. -/
def strength? : Token → Option Nat
  | .symbol s => symbolStrengths.lookup s
  | .word w => if binaryWords.contains w then some 8 else none
  | _ => none

end Token

/-- The expressions of a level, with the tokens that they are written as. -/
inductive Derives : Nat → List Token → Tree → Prop
  | tighter {n ts t} : Derives (n + 1) ts t → Derives n ts t
  | word {w} : isIdentifier w = true → Derives 15 [.word w] (.word w)
  | number {d} : Derives 15 [.number d] (.number d)
  | group {ts t} : Derives 0 ts t → Derives 15 (.symbol "(" :: ts ++ [.symbol ")"]) t
  | member {ts t key} :
      Derives 14 ts t → Derives 14 (ts ++ [.symbol ".", .word key]) (.member t key)
  | index {ts t is i} : Derives 14 ts t → Derives 0 is i →
      Derives 14 (ts ++ .symbol "[" :: is ++ [.symbol "]"]) (.index t i)
  | call {ts f} {arguments : List (List Token × Tree)} :
      Derives 14 ts f → (∀ a ∈ arguments, Derives 1 a.1 a.2) →
      Derives 14 (ts ++ .symbol "(" :: [.symbol ","].intercalate
      (arguments.map (·.1)) ++ [.symbol ")"])
        (.call f (arguments.map (·.2)))
  | unary {op ts t} : op.isUnary = true → Derives 13 ts t →
      Derives 13 (op :: ts) (.unary op.spelling t)
  | power {ls l rs r} : Derives 14 ls l → Derives 12 rs r →
      Derives 12 (ls ++ .symbol "**" :: rs) (.binary "**" l r)
  | binary {n op ls l rs r} : op.strength? = some n → Derives n ls l → Derives (n + 1) rs r →
      Derives n (ls ++ op :: rs) (.binary op.spelling l r)
  | conditional {cs c bs b as a} : Derives 2 cs c → Derives 1 bs b → Derives 1 as a →
      Derives 1 (cs ++ .symbol "?" :: bs ++ .symbol ":" :: as) (.conditional c b a)

/-- An expression that a text is written as. -/
def Parses (text : String) (t : Tree) : Prop :=
  ∃ lexemes, lexemes? text = some lexemes ∧ Derives 0 (lexemes.map (·.token)) t

/-! ## Where expressions begin -/

/-- Whether a token begins a word, a number or a group. -/
def Token.begins : Token → Bool
  | .word w => isIdentifier w
  | .number _ => true
  | .symbol s => s == "("
  | _ => false

theorem Token.isUnary_of_begins {token : Token} (h : token.begins = true) :
    token.isUnary = false := by
  have hreserved : ∀ w ∈ prefixWords, w ∈ reservedWords := by decide
  cases token with
  | word w =>
    refine Bool.eq_false_iff.2 fun hunary => ?_
    have hmem : w ∈ prefixWords := List.contains_iff_mem.1 hunary
    have hnot : w ∉ reservedWords := by
      simp only [begins, isIdentifier, Bool.and_eq_true, Bool.not_eq_true', List.contains_eq_mem,
        decide_eq_false_iff_not] at h
      exact h.1.1
    exact hnot (hreserved w hmem)
  | symbol s =>
    obtain rfl : s = "(" := by simpa [begins] using h
    decide
  | _ => rfl

namespace Derives

variable {n m : Nat} {ts : List Token} {t : Tree}

theorem level_le (h : Derives n ts t) : n ≤ 15 := by
  induction h with
  | tighter _ ih => omega
  | binary hop _ _ _ ih => omega
  | _ => decide

theorem mono (hle : m ≤ n) (h : Derives n ts t) : Derives m ts t := by
  induction hle with
  | refl => exact h
  | step _ ih => exact ih h.tighter

theorem head_begins (h : Derives n ts t) :
    ∃ token rest, ts = token :: rest ∧ (token.begins = true ∨ n ≤ 13 ∧ token.isUnary = true) := by
  induction h with
  | tighter _ ih =>
    obtain ⟨token, rest, rfl, hfirst⟩ := ih
    exact ⟨token, rest, rfl, hfirst.imp_right fun h => ⟨by omega, h.2⟩⟩
  | word hw => exact ⟨_, _, rfl, .inl hw⟩
  | number | group _ _ => exact ⟨_, _, rfl, .inl rfl⟩
  | unary hop _ _ => exact ⟨_, _, rfl, .inr ⟨Nat.le_refl _, hop⟩⟩
  | binary hop _ hr ihl _ =>
    obtain ⟨token, rest, rfl, hfirst⟩ := ihl
    exact ⟨token, _, rfl, hfirst⟩
  | conditional _ _ _ ihc _ _ | member _ ihc | index _ _ ihc _ | call _ _ ihc _ | power _ _ ihc _ =>
    obtain ⟨token, rest, rfl, hfirst⟩ := ihc
    exact ⟨token, _, rfl, hfirst.imp_right fun h => ⟨by omega, h.2⟩⟩

theorem head_isUnary (h : Derives 14 ts t) (rest : List Token) :
    (ts ++ rest).head?.any Token.isUnary = false := by
  obtain ⟨token, more, rfl, hfirst⟩ := h.head_begins
  rcases hfirst with hfirst | ⟨hle, -⟩
  · simp [Token.isUnary_of_begins hfirst]
  · omega

theorem head_ne_close (h : Derives n ts t) :
    ∃ token rest, ts = token :: rest ∧ token ≠ .symbol ")" := by
  obtain ⟨token, rest, rfl, hfirst⟩ := h.head_begins
  refine ⟨token, rest, rfl, ?_⟩
  rintro rfl
  rcases hfirst with hfirst | ⟨-, hfirst⟩ <;> exact absurd hfirst (by decide)

end Derives

/-! ## Reading without a choice -/

/-- The level at which a token goes on with an expression before it. -/
def Token.level? : Token → Option Nat
  | .symbol "?" => some 1
  | .symbol "**" => some 12
  | .symbol "." | .symbol "[" | .symbol "(" => some 14
  | token => token.strength?

theorem Token.strength?_cases (h : op.strength? = some n) :
    op.level? = some n ∧ n ≠ 1 ∧ n ≤ 11 := by
  have htable : ∀ p ∈ symbolStrengths, (Token.symbol p.1).level? = some p.2 ∧ p.2 ≠ 1 ∧
      p.2 ≤ 11 := by decide
  cases op with
  | symbol s =>
    obtain ⟨front, back, heq, -⟩ := List.lookup_eq_some_iff.1 h
    exact htable (s, n) (heq ▸ by simp)
  | word w =>
    have hn : n = 8 := by
      simp only [strength?, Option.ite_none_right_eq_some, Option.some.injEq] at h
      exact h.2.symm
    exact ⟨h, by omega, by omega⟩
  | _ => cases h

theorem Token.level?_cases (h : op.level? = some n) : n ≤ 12 ∨ n = 14 := by
  unfold level? at h
  split at h
  case h_6 => exact .inl (Nat.le_succ_of_le (strength?_cases h).2.2)
  all_goals
    cases h
    decide

/-- What is to be read: an expression of a level, what goes on with an expression of a level, or
further arguments of a call. -/
inductive Goal where
  | expression (n : Nat)
  | more (n : Nat) (t : Tree)
  | arguments (function : Tree) (before : List Tree)

/-- Reading from left to right: the next token decides how to go on. What is read is an expression
with the tokens after it. -/
inductive Reads : Goal → List Token → Tree → List Token → Prop
  | descend {n ts t us t' rest} : n < 15 → (n = 13 → ts.head?.any Token.isUnary = false) →
      Reads (.expression (n + 1)) ts t us → Reads (.more n t) us t' rest →
      Reads (.expression n) ts t' rest
  | unary {op ts t rest} : op.isUnary = true → Reads (.expression 13) ts t rest →
      Reads (.expression 13) (op :: ts) (.unary op.spelling t) rest
  | word {w rest} : isIdentifier w = true → Reads (.expression 15) (.word w :: rest) (.word w) rest
  | number {d rest} : Reads (.expression 15) (.number d :: rest) (.number d) rest
  | group {ts t rest} : Reads (.expression 0) ts t (.symbol ")" :: rest) →
      Reads (.expression 15) (.symbol "(" :: ts) t rest
  | stop {n t rest} : (∀ op ∈ rest.head?, op.level? ≠ some n) → Reads (.more n t) rest t rest
  | binary {n op l ts r us t rest} : op.strength? = some n → Reads (.expression (n + 1)) ts r us →
      Reads (.more n (.binary op.spelling l r)) us t rest → Reads (.more n l) (op :: ts) t rest
  | power {l ts r rest} : Reads (.expression 12) ts r rest →
      Reads (.more 12 l) (.symbol "**" :: ts) (.binary "**" l r) rest
  | conditional {c ts b us a rest} : Reads (.expression 1) ts b (.symbol ":" :: us) →
      Reads (.expression 1) us a rest →
      Reads (.more 1 c) (.symbol "?" :: ts) (.conditional c b a) rest
  | member {o key ts t rest} : Reads (.more 14 (.member o key)) ts t rest →
      Reads (.more 14 o) (.symbol "." :: .word key :: ts) t rest
  | index {o ts i us t rest} : Reads (.expression 0) ts i (.symbol "]" :: us) →
      Reads (.more 14 (.index o i)) us t rest → Reads (.more 14 o) (.symbol "[" :: ts) t rest
  | noArguments {f ts t rest} : Reads (.more 14 (.call f [])) ts t rest →
      Reads (.more 14 f) (.symbol "(" :: .symbol ")" :: ts) t rest
  | someArguments {f ts t rest} : ts.head? ≠ some (.symbol ")") →
      Reads (.arguments f []) ts t rest →
      Reads (.more 14 f) (.symbol "(" :: ts) t rest
  | lastArgument {f before ts a us t rest} : Reads (.expression 1) ts a (.symbol ")" :: us) →
      Reads (.more 14 (.call f (before ++ [a]))) us t rest → Reads (.arguments f before) ts t rest
  | nextArgument {f before ts a us t rest} : Reads (.expression 1) ts a (.symbol "," :: us) →
      Reads (.arguments f (before ++ [a])) us t rest → Reads (.arguments f before) ts t rest

namespace Reads

section Inversion

variable {o t : Tree} {ts rest : List Token}

theorem of_point (h : Reads (.more 14 o) (.symbol "." :: ts) t rest) :
    ∃ key us, ts = .word key :: us ∧ Reads (.more 14 (.member o key)) us t rest := by
  generalize htokens : Token.symbol "." :: ts = tokens at h
  cases h with
  | member h =>
    obtain ⟨-, rfl⟩ := List.cons.inj htokens
    exact ⟨_, _, rfl, h⟩
  | stop hstop =>
    subst htokens
    exact absurd rfl (hstop _ rfl)
  | binary hop _ _ =>
    obtain ⟨rfl, -⟩ := List.cons.inj htokens
    exact absurd hop (by decide)
  | index _ _ | noArguments _ | someArguments _ _ => simp at htokens

theorem of_bracket (h : Reads (.more 14 o) (.symbol "[" :: ts) t rest) :
    ∃ i us, Reads (.expression 0) ts i (.symbol "]" :: us) ∧
    Reads (.more 14 (.index o i)) us t rest := by
  generalize htokens : Token.symbol "[" :: ts = tokens at h
  cases h with
  | index hi h =>
    obtain ⟨-, rfl⟩ := List.cons.inj htokens
    exact ⟨_, _, hi, h⟩
  | stop hstop =>
    subst htokens
    exact absurd rfl (hstop _ rfl)
  | binary hop _ _ =>
    obtain ⟨rfl, -⟩ := List.cons.inj htokens
    exact absurd hop (by decide)
  | member _ | noArguments _ | someArguments _ _ => simp at htokens

theorem of_parenthesis (h : Reads (.more 14 o) (.symbol "(" :: ts) t rest) :
    (∃ us, ts = .symbol ")" :: us ∧ Reads (.more 14 (.call o [])) us t rest) ∨
      ts.head? ≠ some (.symbol ")") ∧ Reads (.arguments o []) ts t rest := by
  generalize htokens : Token.symbol "(" :: ts = tokens at h
  cases h with
  | noArguments h =>
    obtain ⟨-, rfl⟩ := List.cons.inj htokens
    exact .inl ⟨_, rfl, h⟩
  | someArguments hclose h =>
    obtain ⟨-, rfl⟩ := List.cons.inj htokens
    exact .inr ⟨hclose, h⟩
  | stop hstop =>
    subst htokens
    exact absurd rfl (hstop _ rfl)
  | binary hop _ _ =>
    obtain ⟨rfl, -⟩ := List.cons.inj htokens
    exact absurd hop (by decide)
  | member _ | index _ _ => simp at htokens

end Inversion

variable {t : Tree}

theorem unique {g : Goal} {t' : Tree} (h : Reads g ts t rest) (h' : Reads g ts t' rest') :
    t = t' ∧ rest = rest' := by
  induction h generalizing t' rest' with
  | descend hlt hfirst _ _ ihe ihm =>
    cases h' with
    | descend _ _ he hm =>
      obtain ⟨rfl, rfl⟩ := ihe he
      exact ihm hm
    | unary hop _ => simp [hop] at hfirst
    | word _ | number | group _ => omega
  | unary hop _ ih =>
    cases h' with
    | descend _ hfirst _ _ => simp [hop] at hfirst
    | unary _ h =>
      obtain ⟨rfl, rfl⟩ := ih h
      exact ⟨rfl, rfl⟩
  | word _ | number =>
    cases h' with
    | descend hlt _ _ _ => omega
    | _ => exact ⟨rfl, rfl⟩
  | group _ ih =>
    cases h' with
    | descend hlt _ _ _ => omega
    | group h =>
      obtain ⟨rfl, hrest⟩ := ih h
      exact ⟨rfl, (List.cons.inj hrest).2⟩
  | stop hstop =>
    cases h' with
    | stop _ => exact ⟨rfl, rfl⟩
    | binary hop _ _ => exact absurd (Token.strength?_cases hop).1 (hstop _ rfl)
    | power _ | conditional _ _ | member _ | index _ _ | noArguments _ | someArguments _ _ =>
      exact absurd rfl (hstop _ rfl)
  | binary hop _ _ ihr ihm =>
    obtain ⟨hlevel, hone, hle⟩ := Token.strength?_cases hop
    cases h' with
    | stop hstop => exact absurd hlevel (hstop _ rfl)
    | binary _ hr hm =>
      obtain ⟨rfl, rfl⟩ := ihr hr
      exact ihm hm
    | conditional _ _ => exact absurd rfl hone
    | power _ | member _ | index _ _ | noArguments _ | someArguments _ _ => omega
  | power _ ih =>
    cases h' with
    | stop hstop => exact absurd rfl (hstop _ rfl)
    | binary hop _ _ => exact absurd hop (by decide)
    | power hr =>
      obtain ⟨rfl, rfl⟩ := ih hr
      exact ⟨rfl, rfl⟩
  | conditional _ _ ihb iha =>
    cases h' with
    | stop hstop => exact absurd rfl (hstop _ rfl)
    | binary hop _ _ => exact absurd hop (by decide)
    | conditional hb ha =>
      obtain ⟨rfl, hrest⟩ := ihb hb
      cases hrest
      obtain ⟨rfl, rfl⟩ := iha ha
      exact ⟨rfl, rfl⟩
  | member _ ih =>
    obtain ⟨key, us, htokens, hm⟩ := h'.of_point
    cases htokens
    exact ih hm
  | index _ _ ihi ihm =>
    obtain ⟨i, us, hi, hm⟩ := h'.of_bracket
    obtain ⟨rfl, hrest⟩ := ihi hi
    cases hrest
    exact ihm hm
  | noArguments _ ih =>
    rcases h'.of_parenthesis with ⟨us, htokens, hm⟩ | ⟨hclose, -⟩
    · cases htokens
      exact ih hm
    · exact absurd rfl hclose
  | someArguments hclose _ ih =>
    rcases h'.of_parenthesis with ⟨us, rfl, -⟩ | ⟨-, hm⟩
    · exact absurd rfl hclose
    · exact ih hm
  | lastArgument _ _ iha ihm =>
    cases h' with
    | lastArgument ha hm =>
      obtain ⟨rfl, hrest⟩ := iha ha
      cases hrest
      exact ihm hm
    | nextArgument ha _ => exact absurd (iha ha).2 (by simp)
  | nextArgument _ _ iha ihm =>
    cases h' with
    | lastArgument ha _ => exact absurd (iha ha).2 (by simp)
    | nextArgument ha hm =>
      obtain ⟨rfl, hrest⟩ := iha ha
      cases hrest
      exact ihm hm

/-- Only at the levels of some token reading goes on. -/
theorem eq_of_more {t' : Tree} (hn : n = 13 ∨ n = 15)
    (h : Reads (.more n t) rest t' rest') : t' = t ∧ rest' = rest := by
  refine h.unique (.stop fun op _ hlevel => ?_)
  have := Token.level?_cases hlevel
  omega

end Reads

/-! ## Every expression is read -/

/-- Whether an expression of level `n` ends here whatever rule forms it. -/
def Ends (n : Nat) (rest : List Token) : Prop := ∀ op ∈ rest.head?, ∀ m, op.level? = some m → m < n

/-- Whether an expression of level `n` ends here, or goes on as the left operand of another one of
that level. -/
def Pauses (n : Nat) (rest : List Token) : Prop :=
  ∀ op ∈ rest.head?, ∀ m, op.level? = some m → m < n ∨ m = n ∧ n ≠ 1 ∧ n ≠ 12

section Pauses

variable {n m : Nat} {op : Token} {rest : List Token}

theorem Ends.cons (h : op.level?.all (· < n) = true) : Ends n (op :: rest) := by
  rintro _ ⟨⟩ m hm
  simpa [hm] using h

theorem Ends.stop (h : Ends n rest) : Reads (.more n t) rest t rest := by
  refine .stop fun op hop hlevel => ?_
  have := h op hop n hlevel
  omega

theorem Ends.pauses (h : Ends n rest) : Pauses n rest := fun op hop m hm => .inl (h op hop m hm)

theorem Pauses.ends (h : Pauses n rest) (hlt : n < m) : Ends m rest := by
  intro op hop k hk
  rcases h op hop k hk with h | ⟨rfl, -⟩
  · omega
  · exact hlt

/-- At the levels whose rules recur on their right side nothing goes on after an expression. -/
theorem Pauses.ends_of_right (h : Pauses n rest) (hn : n = 1 ∨ n = 12 ∨ n = 13) : Ends n rest := by
  intro op hop k hk
  have hlevels := Token.level?_cases hk
  rcases h op hop k hk with h | ⟨rfl, h⟩
  · exact h
  · omega

theorem Pauses.cons (h : op.level? = some n) (hn : n ≠ 1 ∧ n ≠ 12) : Pauses n (op :: rest) := by
  rintro _ ⟨⟩ m hm
  obtain rfl : n = m := by simpa [h] using hm
  exact .inr ⟨rfl, hn⟩

end Pauses

/-- However an expression goes on, it is read first. -/
def Readable (n : Nat) (ts : List Token) (t : Tree) : Prop :=
  ∀ ⦃rest rest' t'⦄, Pauses n rest → Reads (.more n t) rest t' rest' →
    Reads (.expression n) (ts ++ rest) t' rest'

theorem Readable.reads (h : Readable n ts t) (hends : Ends n rest) :
    Reads (.expression n) (ts ++ rest) t rest :=
  h hends.pauses hends.stop

/-- The arguments of a call are read one by one. -/
theorem Reads.arguments {f t : Tree} {a : List Token × Tree}
    {arguments : List (List Token × Tree)} (hreadable : ∀ b ∈ a :: arguments, Readable 1 b.1 b.2)
    {before : List Tree}
    (h : Reads (.more 14 (.call f (before ++ (a :: arguments).map (·.2)))) rest t rest') :
    Reads (.arguments f before)
      ([.symbol ","].intercalate ((a :: arguments).map (·.1)) ++ .symbol ")" :: rest) t rest' := by
  induction arguments generalizing a before with
  | nil =>
    have ha : Reads (.expression 1) (a.1 ++ .symbol ")" :: rest) a.2 (.symbol ")" :: rest) :=
      (hreadable a List.mem_cons_self).reads (.cons rfl)
    refine .lastArgument ?_ h
    simpa [List.intercalate] using ha
  | cons b arguments ih =>
    have hothers : ∀ c ∈ b :: arguments, Readable 1 c.1 c.2 :=
      fun c hc => hreadable c (List.mem_cons_of_mem _ hc)
    have hrest : Reads (.arguments f (before ++ [a.2])) _ t rest' := ih hothers (by simpa using h)
    have ha {us : List Token} :
        Reads (.expression 1) (a.1 ++ .symbol "," :: us) a.2 (.symbol "," :: us) :=
      (hreadable a List.mem_cons_self).reads (.cons rfl)
    refine .nextArgument ?_ hrest
    simpa [List.intercalate] using ha

theorem Derives.readable (h : Derives n ts t) : Readable n ts t := by
  induction h with
  | @tighter n ts t h ih =>
    intro rest rest' t' hpauses hmore
    have hends : Ends (n + 1) rest := hpauses.ends (by omega)
    refine .descend (by have := h.level_le; omega) ?_ (ih.reads hends) hmore
    rintro rfl
    exact h.head_isUnary rest
  | word hw =>
    intro rest rest' t' _ hmore
    obtain ⟨rfl, rfl⟩ := hmore.eq_of_more (.inr rfl)
    exact .word hw
  | number =>
    intro rest rest' t' _ hmore
    obtain ⟨rfl, rfl⟩ := hmore.eq_of_more (.inr rfl)
    exact .number
  | group _ ih =>
    intro rest rest' t' _ hmore
    obtain ⟨rfl, rfl⟩ := hmore.eq_of_more (.inr rfl)
    have hinner : Reads (.expression 0) _ t' (.symbol ")" :: rest') := ih.reads (.cons rfl)
    simpa using hinner.group
  | @member ts t key _ ih =>
    intro rest rest' t' _ hmore
    have hpoint : Pauses 14 (.symbol "." :: .word key :: rest) := .cons rfl (by decide)
    simpa using ih hpoint hmore.member
  | @index ts t is i _ _ iht ihi =>
    intro rest rest' t' _ hmore
    have hkey : Reads (.expression 0) _ i (.symbol "]" :: rest) := ihi.reads (.cons rfl)
    have hbracket : Pauses 14 (.symbol "[" :: (is ++ .symbol "]" :: rest)) := .cons rfl (by decide)
    simpa using iht hbracket (.index hkey hmore)
  | @call ts f arguments hf harguments ihf iha =>
    intro rest rest' t' _ hmore
    have hparenthesis {us : List Token} : Pauses 14 (.symbol "(" :: us) := .cons rfl (by decide)
    cases arguments with
    | nil => simpa [List.intercalate] using ihf hparenthesis hmore.noArguments
    | cons a arguments =>
      have hread : Reads (.arguments f []) _ t' rest' := Reads.arguments iha hmore
      obtain ⟨token, more, htokens, hclose⟩ := (harguments a List.mem_cons_self).head_ne_close
      have hfirst :
          ([.symbol ","].intercalate ((a :: arguments).map (·.1)) ++ .symbol ")" :: rest).head? ≠
          some (.symbol ")") := by
        cases arguments <;> simp [List.intercalate, htokens, hclose]
      have hcall := ihf hparenthesis (.someArguments hfirst hread)
      simpa using hcall
  | @unary op ts t hop _ ih =>
    intro rest rest' t' hpauses hmore
    obtain ⟨rfl, rfl⟩ := hmore.eq_of_more (.inl rfl)
    exact .unary hop (ih.reads (hpauses.ends_of_right (by decide)))
  | @power ls l rs r hl _ ihl ihr =>
    intro rest rest' t' hpauses hmore
    have hends : Ends 12 rest := hpauses.ends_of_right (by decide)
    obtain ⟨rfl, rfl⟩ := hmore.unique hends.stop
    have hright : Reads (.more 12 l) (.symbol "**" :: (rs ++ rest')) (.binary "**" l r) rest' :=
      .power (ihr.reads hends)
    have hleft : Reads (.expression 14) _ l (.symbol "**" :: (rs ++ rest')) := ihl.reads (.cons rfl)
    have hsign : Reads (.expression 13) _ l _ :=
      .descend (by decide) (fun _ => hl.head_isUnary _) hleft
      (Ends.stop (.cons rfl))
    have hpower : Reads (.expression 12) _ _ rest' := .descend (by decide) nofun hsign hright
    simpa using hpower
  | @binary n op ls l rs r hop _ _ ihl ihr =>
    intro rest rest' t' hpauses hmore
    obtain ⟨hlevel, hone, hle⟩ := Token.strength?_cases hop
    have hpause : Pauses n (op :: (rs ++ rest)) := .cons hlevel (by omega)
    have hright := ihr.reads (hpauses.ends (Nat.lt_succ_self n))
    simpa using ihl hpause (.binary hop hright hmore)
  | @conditional cs c bs b as a _ _ _ ihc ihb iha =>
    intro rest rest' t' hpauses hmore
    have hends : Ends 1 rest := hpauses.ends_of_right (by decide)
    obtain ⟨rfl, rfl⟩ := hmore.unique hends.stop
    have hb : Reads (.expression 1) _ b (.symbol ":" :: (as ++ rest')) := ihb.reads (.cons rfl)
    have hcondition :
        Reads (.expression 2) _ c (.symbol "?" :: (bs ++ .symbol ":" :: (as ++ rest'))) :=
      ihc.reads (.cons rfl)
    have hall : Reads (.expression 1) _ _ rest' :=
      .descend (by decide) nofun hcondition (.conditional hb (iha.reads hends))
    simpa using hall

/-- A sequence of tokens is an expression in one way at most. -/
theorem Derives.unique {t' : Tree} (h : Derives 0 ts t) (h' : Derives 0 ts t') : t = t' := by
  have hends : Ends 0 [] := by simp [Ends]
  exact ((h.readable.reads hends).unique (h'.readable.reads hends)).1

theorem Parses.unique {text : String} {t' : Tree} (h : Parses text t) (h' : Parses text t') :
    t = t' := by
  obtain ⟨lexemes, hlexemes, ht⟩ := h
  obtain ⟨lexemes', hlexemes', ht'⟩ := h'
  obtain rfl : lexemes = lexemes' := Option.some.inj (hlexemes.symm.trans hlexemes')
  exact ht.unique ht'

end ScriptCompiler.Script
