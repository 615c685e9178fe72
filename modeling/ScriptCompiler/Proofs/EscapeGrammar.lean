import ScriptCompiler.Lowering.State
import ScriptCompiler.Proofs.NumberValue
import ScriptCompiler.Proofs.StaticText

/-!
# The grammar of escape sequences

The body of a string is a sequence of items: a character, an escape sequence, or a backslash that
ends the body. Here the items are described without the decoder. A body has exactly one sequence of
items, because the digits of an escape go as far as they can, and decoding puts the values of the
items together, up to the first one that is refused (`decode_follows_items`).
-/

namespace ScriptCompiler.Literal

open Script.Lexer (isHexDigit)

variable {c : Char} {p : Char → Bool} {ds rest cs : List Char} {base count : Nat}

/-! ## Digits -/

theorem digitIn?_of_isHexDigit (h : isHexDigit c = true) :
    digitIn? 16 c = some (digitValue c) ∧ digitValue c < 16 :=
  of_isHexDigit (P := fun c => digitIn? 16 c = some (digitValue c) ∧ digitValue c < 16)
    (by decide +kernel) h

theorem digitIn?_of_isOctal (h : isOctal c = true) :
    digitIn? 8 c = some (digitValue c) ∧ digitValue c < 8 :=
  of_isHexDigit (P := fun c => isOctal c = true → digitIn? 8 c = some (digitValue c) ∧
    digitValue c < 8)
    (by decide +kernel) (isHexDigit_of_isDigit (isDigit_of_isOctalDigit h)) h

theorem digitIn?_eq_none (h : isHexDigit c = false) : digitIn? 16 c = none := by
  simp only [isHexDigit, Bool.or_eq_false_iff] at h
  obtain ⟨⟨hdigit, hsmall⟩, hlarge⟩ := h
  simp only [digitIn?, hdigit, hsmall, hlarge, Bool.false_eq_true, if_false, Option.filter_none]

theorem number?_eq_magnitude (hdigits : ∀ c ∈ ds, digitIn? base c = some (digitValue c)) :
    number? base ds = some (magnitude base ds) := by
  induction ds using List.reverseRecOn with
  | nil => rfl
  | append_singleton ds c ih =>
    have hfront := ih fun d hd => hdigits d (List.mem_append_left _ hd)
    rw [number?] at hfront
    rw [number?, List.foldl_append, hfront, List.foldl_cons, List.foldl_nil, hdigits c (by simp),
      magnitude_concat]
    rfl

/-- Digits in front of a rest: no more than `count`, and as many of them as there are. -/
structure Longest (count : Nat) (p : Char → Bool) (ds rest : List Char) : Prop where
  length_le : ds.length ≤ count
  digits : ∀ c ∈ ds, p c = true
  stops : ds.length < count → ∀ c ∈ rest.head?, p c = false

/-- The longest run is found by looking. -/
theorem Longest.eq_takeWhile (h : Longest count p ds rest) :
    ((ds ++ rest).take count).takeWhile p = ds := by
  have hds : ds.takeWhile p = ds := List.takeWhile_eq_self_iff.2 h.digits
  have hrest : (rest.take (count - ds.length)).takeWhile p = [] := by
    by_cases hlt : ds.length < count
    · cases rest with
      | nil => simp
      | cons c rest =>
        obtain ⟨n, hn⟩ := Nat.exists_eq_succ_of_ne_zero (Nat.sub_ne_zero_of_lt hlt)
        rw [hn, List.take_succ_cons, List.takeWhile_cons, h.stops hlt c rfl]
        rfl
    · rw [Nat.sub_eq_zero_of_le (Nat.le_of_not_lt hlt)]
      rfl
  rw [List.take_append, List.take_of_length_le h.length_le, List.takeWhile_append, hds,
    if_pos rfl, hrest,
    List.append_nil]

theorem exists_longest (count : Nat) (p : Char → Bool) (cs : List Char) :
    ∃ ds rest, cs = ds ++ rest ∧ Longest count p ds rest := by
  induction count generalizing cs with
  | zero => exact ⟨[], cs, rfl, by simp, by simp, fun h => absurd h (Nat.lt_irrefl 0)⟩
  | succ count ih =>
    cases cs with
    | nil => exact ⟨[], [], rfl, by simp, by simp, by simp⟩
    | cons c cs =>
      by_cases hc : p c = true
      · obtain ⟨ds, rest, rfl, hlongest⟩ := ih cs
        refine ⟨c :: ds, rest, rfl, Nat.succ_le_succ hlongest.length_le, ?_, ?_⟩
        · rintro d (_ | ⟨_, hd⟩)
          · exact hc
          · exact hlongest.digits d hd
        · exact fun hlt => hlongest.stops (Nat.lt_of_succ_lt_succ hlt)
      · refine ⟨[], c :: cs, rfl, by simp, by simp, fun _ d hd => ?_⟩
        cases hd
        exact Bool.eq_false_iff.2 hc

/-! ## Items -/

/-- What the character after a backslash begins. -/
inductive EscapeForm where
  /-- A line feed, which is left out with its backslash. -/
  | continuation
  /-- A letter or mark that stands for one character. -/
  | single (meaning : Char)
  | octal
  /-- A code point in as many hexadecimal digits as the letter says. -/
  | hex (count : Nat)
  | named
  /-- Any other character. The escape means nothing and is kept. -/
  | unknown
deriving DecidableEq

def escapeForm (c : Char) : EscapeForm :=
  match c with
  | '\n' => .continuation
  | '\\' => .single '\\'
  | '\x27' => .single '\x27'
  | '"' => .single '"'
  | 'a' => .single '\x07'
  | 'b' => .single '\x08'
  | 'f' => .single '\x0c'
  | 'n' => .single '\n'
  | 'r' => .single '\r'
  | 't' => .single '\t'
  | 'v' => .single '\x0b'
  | 'x' => .hex 2
  | 'u' => .hex 4
  | 'U' => .hex 8
  | 'N' => .named
  | c => if isOctal c then .octal else .unknown

/-- The most digits that follow the character after the backslash, and which ones. -/
def EscapeForm.digits : EscapeForm → Nat × (Char → Bool)
  | .octal => (2, isOctal)
  | .hex count => (count, isHexDigit)
  | _ => (0, fun _ => false)

inductive EscapeItem where
  | char (c : Char)
  /-- A backslash, the character after it, and the digits that belong to it. -/
  | escape (c : Char) (digits : List Char)
  /-- A backslash that ends the body. -/
  | backslash
deriving DecidableEq

namespace EscapeItem

def text : EscapeItem → List Char
  | char c => [c]
  | escape c digits => '\\' :: c :: digits
  | backslash => ['\\']

/-- Whether an item can stand in front of a rest. -/
def Fits (rest : List Char) : EscapeItem → Prop
  | char c => c ≠ '\\'
  | escape c digits => Longest (escapeForm c).digits.1 (escapeForm c).digits.2 digits rest
  | backslash => rest = []

/-- The construct for which an item is refused. -/
def refusal? : EscapeItem → Option String
  | escape c digits =>
    match escapeForm c with
    | .hex count =>
      if digits.length < count then some "truncated hex escape"
      else if (magnitude 16 digits).isValidChar then none
      else some "invalid code point escape"
    | .named => some "named unicode escape (\\N\x7b...\x7d)"
    | _ => none
  | _ => none

def value : EscapeItem → List Char
  | char c => [c]
  | escape c digits =>
    match escapeForm c with
    | .continuation => []
    | .single meaning => [meaning]
    | .octal => [Char.ofNat (magnitude 8 (c :: digits))]
    | .hex _ => [Char.ofNat (magnitude 16 digits)]
    | .named | .unknown => ['\\', c]
  | backslash => ['\\']

end EscapeItem

/-- A body and its items, from left to right. -/
inductive Splits : List EscapeItem → List Char → Prop
  | nil : Splits [] []
  | cons {item items rest} : item.Fits rest → Splits items rest →
      Splits (item :: items) (item.text ++ rest)

variable {item item' : EscapeItem} {rest' body : List Char}

theorem EscapeItem.text_ne_nil (item : EscapeItem) : item.text ≠ [] := by
  cases item <;> exact List.cons_ne_nil _ _

/-- What stands at the front of a body is one item only. -/
theorem EscapeItem.Fits.unique (h : item.Fits rest) (h' : item'.Fits rest')
    (heq : item.text ++ rest = item'.text ++ rest') : item = item' ∧ rest = rest' := by
  cases item with
  | char c =>
    cases item' with
    | char c' =>
      cases heq
      exact ⟨rfl, rfl⟩
    | escape c' digits' => exact absurd (List.cons.inj heq).1 h
    | backslash => exact absurd (List.cons.inj heq).1 h
  | escape c digits =>
    cases item' with
    | char c' => exact absurd (List.cons.inj heq).1.symm h'
    | escape c' digits' =>
      obtain ⟨rfl, hrest⟩ : c = c' ∧ digits ++ rest = digits' ++ rest' :=
        List.cons.inj (List.cons.inj heq).2
      have hdigits : digits = digits' := by
        rw [← Longest.eq_takeWhile h, hrest]
        exact Longest.eq_takeWhile h'
      subst hdigits
      exact ⟨rfl, List.append_cancel_left hrest⟩
    | backslash =>
      rw [show rest' = [] from h'] at heq
      cases (List.cons.inj heq).2
  | backslash =>
    rw [show rest = [] from h] at heq ⊢
    cases item' with
    | char c' => exact absurd (List.cons.inj heq).1.symm h'
    | escape c' digits' => cases (List.cons.inj heq).2
    | backslash => exact ⟨rfl, (show rest' = [] from h').symm⟩

theorem exists_item (h : body ≠ []) :
    ∃ item rest, body = EscapeItem.text item ++ rest ∧ item.Fits rest := by
  cases body with
  | nil => exact absurd rfl h
  | cons c body =>
    by_cases hc : c = '\\'
    · subst hc
      cases body with
      | nil => exact ⟨.backslash, [], rfl, rfl⟩
      | cons c body =>
        obtain ⟨ds, rest, rfl, hlongest⟩ :=
          exists_longest (escapeForm c).digits.1 (escapeForm c).digits.2 body
        exact ⟨.escape c ds, rest, rfl, hlongest⟩
    · exact ⟨.char c, body, rfl, hc⟩

theorem exists_splits (body : List Char) : ∃ items, Splits items body := by
  induction hlength : body.length using Nat.strong_induction_on generalizing body with
  | _ n ih =>
    by_cases hbody : body = []
    · exact ⟨[], hbody ▸ .nil⟩
    · obtain ⟨item, rest, rfl, hfits⟩ := exists_item hbody
      have hlt : rest.length < n := by
        have hpos := List.length_pos_iff.2 item.text_ne_nil
        rw [← hlength, List.length_append]
        omega
      obtain ⟨items, hitems⟩ := ih _ hlt rest rfl
      exact ⟨item :: items, .cons hfits hitems⟩

theorem Splits.unique {items items' : List EscapeItem} (h : Splits items body)
    (h' : Splits items' body) : items = items' := by
  induction h generalizing items' with
  | nil =>
    generalize hbody : ([] : List Char) = body at h'
    cases h' with
    | nil => rfl
    | cons _ _ => exact absurd (List.append_eq_nil_iff.1 hbody.symm).1 (EscapeItem.text_ne_nil _)
  | @cons item items rest hfits _ ih =>
    generalize hbody : item.text ++ rest = body at h'
    cases h' with
    | nil => exact absurd (List.append_eq_nil_iff.1 hbody).1 item.text_ne_nil
    | cons hfits' hitems' =>
      obtain ⟨rfl, rfl⟩ := hfits.unique hfits' hbody
      rw [ih hitems']

/-! ## Decoding an item -/

theorem escape_cons (c : Char) (cs : List Char) :
    escape (c :: cs) =
      match escapeForm c with
      | .continuation => .ok ([], 1)
      | .single meaning => .ok ([meaning], 1)
      | .octal =>
        let digits := ((c :: cs).take 3).takeWhile isOctal
        .ok ([Char.ofNat ((number? 8 digits).getD 0)], digits.length)
      | .hex count => hexEscape count cs
      | .named => .error (.unsupported "named unicode escape (\\N\x7b...\x7d)")
      | .unknown => .ok (['\\', c], 1) := by
  fun_cases escapeForm c
  case case16 hoctal =>
    have hletter : letterEscape? c = none := by grind [letterEscape?]
    simp only [escape, hletter, hoctal, if_true]
  case case17 hoctal =>
    have hletter : letterEscape? c = none := by grind [letterEscape?]
    grind [escape]
  all_goals rfl

theorem isOctal_of_escapeForm (h : escapeForm c = .octal) : isOctal c = true := by
  unfold escapeForm at h
  split at h
  case h_16 =>
    split_ifs at h with hoctal
    exact hoctal
  all_goals cases h

theorem isValidChar_iff_isScalar (n : Nat) : n.isValidChar ↔ isScalar n = true := by
  simp only [Nat.isValidChar, isScalar, Bool.or_eq_true, Bool.and_eq_true, decide_eq_true_eq]
  omega

theorem hexEscape_of_longest (h : Longest count isHexDigit ds rest) :
    hexEscape count (ds ++ rest) =
      if ds.length < count then .error (.unsupported "truncated hex escape")
      else if (magnitude 16 ds).isValidChar then .ok ([Char.ofNat (magnitude 16 ds)], ds.length + 1)
      else .error (.unsupported "invalid code point escape") := by
  unfold hexEscape
  by_cases hlt : ds.length < count
  · -- What follows the digits is no digit, or the body ends.
    have hnone :
        (if ((ds ++ rest).take count).length = count then number? 16
        ((ds ++ rest).take count) else none) = none := by
      cases rest with
      | nil => rw [List.append_nil, List.take_of_length_le h.length_le, if_neg (Nat.ne_of_lt hlt)]
      | cons d rest =>
        have hmem : d ∈ (ds ++ d :: rest).take count := by
          obtain ⟨n, hn⟩ := Nat.exists_eq_succ_of_ne_zero (Nat.sub_ne_zero_of_lt hlt)
          rw [List.take_append, hn, List.take_succ_cons]
          simp
        rw [number?_eq_none hmem (digitIn?_eq_none (h.stops hlt d rfl)), ite_self]
    simp only [hnone, if_pos hlt]
  · have hlength : ds.length = count := Nat.le_antisymm h.length_le (Nat.le_of_not_lt hlt)
    have htake : (ds ++ rest).take count = ds := List.take_left' hlength
    have hnumber := number?_eq_magnitude fun d hd => (digitIn?_of_isHexDigit (h.digits d hd)).1
    simp only [htake, hlength, if_true, hnumber, Nat.lt_irrefl, if_false, isValidChar_iff_isScalar]

/-- A backslash and what belongs to it is refused, or stands for its value. -/
theorem escape_of_fits (h : EscapeItem.Fits rest (.escape c ds)) :
    escape (c :: (ds ++ rest)) =
      match (EscapeItem.escape c ds).refusal? with
      | some construct => .error (.unsupported construct)
      | none => .ok ((EscapeItem.escape c ds).value, ds.length + 1) := by
  have hlongest : Longest (escapeForm c).digits.1 (escapeForm c).digits.2 ds rest := h
  have hnil : (escapeForm c).digits.1 = 0 → ds = [] := fun hzero => List.length_eq_zero_iff.1 (by
    have hle := hlongest.length_le
    omega)
  rw [escape_cons, EscapeItem.refusal?, EscapeItem.value]
  cases hform : escapeForm c with
  | octal =>
    rw [hform] at hlongest
    have hc := isOctal_of_escapeForm hform
    have htake : ((c :: (ds ++ rest)).take 3).takeWhile isOctal = c :: ds := by
      rw [List.take_succ_cons, List.takeWhile_cons, hc, if_pos rfl]
      exact congrArg (c :: ·) (Longest.eq_takeWhile hlongest)
    have hnumber : number? 8 (c :: ds) = some (magnitude 8 (c :: ds)) :=
      number?_eq_magnitude fun d hd => by
      rcases List.mem_cons.1 hd with rfl | hd
      · exact (digitIn?_of_isOctal hc).1
      · exact (digitIn?_of_isOctal (hlongest.digits d hd)).1
    simp only [htake, hnumber, Option.getD_some, List.length_cons]
  | hex count =>
    have hdigits : Longest count isHexDigit ds rest := by
      rw [hform] at hlongest
      exact hlongest
    simp only [hexEscape_of_longest hdigits]
    split_ifs <;> rfl
  | _ =>
    cases hnil (by rw [hform]; rfl)
    rfl

theorem decode_item_append (h : item.Fits rest) :
    decode (item.text ++ rest) =
      match item.refusal? with
      | some construct => .error (.unsupported construct)
      | none => (decode rest).map (item.value ++ ·) := by
  cases item with
  | char c => exact decode_cons h rest
  | escape c ds =>
    rw [EscapeItem.text, List.cons_append, List.cons_append, decode_escape, escape_of_fits h]
    cases (EscapeItem.escape c ds).refusal? with
    | some construct => rfl
    | none =>
      show (decode ((c :: (ds ++ rest)).drop (ds.length + 1))).map _ = _
      rw [List.drop_succ_cons, List.drop_left]
  | backslash =>
    rw [show rest = [] from h]
    rfl

/-- Decoding gives the values of the items one after the other, unless one of them is refused. -/
theorem decode_of_splits {items : List EscapeItem} (h : Splits items body) :
    decode body =
      match items.findSome? EscapeItem.refusal? with
      | some construct => .error (.unsupported construct)
      | none => .ok (items.flatMap EscapeItem.value) := by
  induction h with
  | nil => rfl
  | @cons item items rest hfits _ ih =>
    rw [decode_item_append hfits, List.findSome?_cons]
    cases item.refusal? with
    | some construct => rfl
    | none =>
      rw [ih]
      cases items.findSome? EscapeItem.refusal? <;> rfl

/-- The digits of an item that fits denote numbers of bounded size. -/
theorem EscapeItem.Fits.magnitude_bound (h : EscapeItem.Fits rest (.escape c ds)) :
    (∀ count, escapeForm c = .hex count → magnitude 16 ds < 2 ^ 32) ∧
      (escapeForm c = .octal → (magnitude 8 (c :: ds)).isValidChar) := by
  have hlongest : Longest (escapeForm c).digits.1 (escapeForm c).digits.2 ds rest := h
  constructor
  · intro count hform
    rw [hform] at hlongest
    have hcount : count ≤ 8 := by
      unfold escapeForm at hform
      split at hform
      case h_16 => split_ifs at hform
      all_goals
        cases hform
        try decide
    calc magnitude 16 ds < 16 ^ ds.length :=
          magnitude_lt (by decide) fun d hd => (digitIn?_of_isHexDigit (hlongest.digits d hd)).2
      _ ≤ 16 ^ 8 := Nat.pow_le_pow_right (by decide) (Nat.le_trans hlongest.length_le hcount)
      _ = 2 ^ 32 := by decide
  · intro hform
    rw [hform] at hlongest
    have hlt : magnitude 8 (c :: ds) < 8 ^ (c :: ds).length :=
      magnitude_lt (by decide) fun d hd => by
      rcases List.mem_cons.1 hd with rfl | hd
      · exact (digitIn?_of_isOctal (isOctal_of_escapeForm hform)).2
      · exact (digitIn?_of_isOctal (hlongest.digits d hd)).2
    have hpow : 8 ^ (c :: ds).length ≤ 8 ^ 3 :=
      Nat.pow_le_pow_right (by decide) (Nat.succ_le_succ hlongest.length_le)
    exact .inl (Nat.lt_trans (Nat.lt_of_lt_of_le hlt hpow) (by decide))

theorem Splits.exists_fits {items : List EscapeItem} (h : Splits items body)
    (hitem : item ∈ items) : ∃ rest, item.Fits rest := by
  induction h with
  | nil => cases hitem
  | cons hfits _ ih =>
    rcases List.mem_cons.1 hitem with rfl | hitem
    · exact ⟨_, hfits⟩
    · exact ih hitem

/-- Every body is the text of one sequence of items, and decoding it at a place gives the values of
the items, or refuses the first item that has none at that place. The numbers in items have at most
32 bits, and those in octal digits are characters. -/
theorem decode_follows_items (body : List Char) :
    ∃ items, (∀ items', Splits items' body ↔ items' = items) ∧
      (∀ c digits, .escape c digits ∈ items →
        (∀ count, escapeForm c = .hex count → magnitude 16 digits < 2 ^ 32) ∧
          (escapeForm c = .octal → (magnitude 8 (c :: digits)).isValidChar)) ∧
      ∀ pos s, (Lowering.locate pos (decode body)).run s =
        match items.findSome? EscapeItem.refusal? with
        | some construct => .error (.unsupported construct pos) s
        | none => .ok (items.flatMap EscapeItem.value) s := by
  obtain ⟨items, hitems⟩ := exists_splits body
  refine ⟨items, fun items' => ⟨fun h => h.unique hitems, fun h => h ▸ hitems⟩,
    fun c digits hmem => ?_,
    fun pos s => ?_⟩
  · obtain ⟨rest, hfits⟩ := hitems.exists_fits hmem
    exact hfits.magnitude_bound
  · rw [decode_of_splits hitems]
    cases items.findSome? EscapeItem.refusal? <;> rfl

end ScriptCompiler.Literal
