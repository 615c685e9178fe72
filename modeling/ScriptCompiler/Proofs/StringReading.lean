import ScriptCompiler.Proofs.Formation
import ScriptCompiler.Proofs.Elementary

/-!
# String tokens as they are read

A string token ends with the quotes that it began with, so that it can be taken apart again, unless
it is opened by a backquote: then nothing tells where its body begins.
-/

namespace ScriptCompiler

variable {letters body token after : List Char} {quote : Char} {s s' : ParserState}
  {count opened closed : Nat}
  {pieces : List Piece} {piece : Piece}

/-! ## Taking a token apart -/

namespace Literal

variable (cs : List Char) {α : Type}

theorem length_le_byteCount : cs.length ≤ byteCount cs := by
  induction cs with
  | nil => exact Nat.le_refl 0
  | cons c rest ih =>
    have hsize := c.utf8Size_pos
    have hcount : byteCount (c :: rest) = c.utf8Size + byteCount rest := rfl
    rw [List.length_cons]
    omega

theorem byteCount_append (cs ds : List Char) :
    byteCount (cs ++ ds) = byteCount cs + byteCount ds := by
  induction cs with
  | nil => simp [byteCount]
  | cons c rest ih =>
    have hcount : ∀ es, byteCount (c :: es) = c.utf8Size + byteCount es := fun _ => rfl
    rw [List.cons_append, hcount, hcount, ih, Nat.add_assoc]

theorem isQuote_of_isStringLetter {c : Char} (h : Token.isStringLetter c = true) :
    isQuote c = false := by
  by_contra hquote
  rw [Bool.not_eq_false] at hquote
  simp only [isQuote, Bool.or_eq_true, decide_eq_true_eq] at hquote
  rcases hquote with rfl | rfl <;> revert h <;> decide

theorem splitString?_ne_none (hletters : ∀ c ∈ letters, Token.isStringLetter c = true)
    (hquote : isQuote quote = true)
    (hsize : 2 * quoteSize (quote :: body) ≤ (quote :: body).length) :
    splitString? (letters ++ quote :: body) ≠ none := by
  have hnot : ∀ c ∈ letters, (!isQuote c) = true := fun c hc => by
    simp [isQuote_of_isStringLetter (hletters c hc)]
  have htake : (letters ++ quote :: body).takeWhile (fun c => !isQuote c) = letters := by
    rw [List.takeWhile_append_of_pos hnot]
    simp [hquote]
  have hdrop : (letters ++ quote :: body).dropWhile (fun c => !isQuote c) = quote :: body := by
    rw [List.dropWhile_append_of_pos hnot]
    simp [hquote]
  have hcount :
      byteCount letters + 2 * quoteSize (quote :: body) ≤ byteCount (letters ++ quote :: body) := by
    have hlength := length_le_byteCount (quote :: body)
    rw [byteCount_append]
    omega
  simp only [splitString?, htake, hdrop]
  rw [if_neg (by simp), if_neg (by omega)]
  simp

theorem quoteSize_le : quoteSize cs ≤ 3 := by
  unfold quoteSize
  split
  · split_ifs <;> omega
  · omega

end Literal

/-! ## Reading a token -/

namespace Parser

theorem exists_of_run_bind {β : Type} {p : Parser α} {f : α → Parser β} {b : β}
    (h : (p >>= f).run s = some (b, s')) : ∃ a t, p.run s = some (a, t) ∧
    (f a).run t = some (b, s') := by
  obtain ⟨⟨a, t⟩, hfirst, hrest⟩ := Option.bind_eq_some_iff.mp h
  exact ⟨a, t, hfirst, hrest⟩

theorem advance_run {u : Unit} (h : (advance count).run s = some (u, s')) :
    count ≤ s.rest.length ∧ s'.rest = s.rest.drop count := by
  induction count generalizing s with
  | zero =>
    cases h
    exact ⟨Nat.zero_le _, rfl⟩
  | succ count ih =>
    obtain ⟨t, t', hget, h⟩ := exists_of_run_bind h
    cases hget
    cases hrest : s.rest with
    | nil =>
      rw [hrest] at h
      cases h
    | cons c more =>
      rw [hrest] at h
      obtain ⟨_, t, hset, h⟩ := exists_of_run_bind h
      cases hset
      obtain ⟨hle, hdrop⟩ := ih h
      exact ⟨by simpa using hle, by simpa using hdrop⟩

end Parser

namespace Grammar

open ScriptCompiler.Parser

variable {hole : Parser Piece} {o : Opening} {p p' : StringProgress} {s s' : ParserState}
  {text : Passage}

/-- How many quotes close a string. -/
def Opening.closing (o : Opening) : Nat := if o.long then 3 else 1

/-- What a string has been read to: its pieces were formed in the text. -/
def StringProgress.Formed (text : Passage) (p : StringProgress) :
    Prop := ∀ piece ∈ p.pieces, piece.Formed text

theorem StringProgress.Formed.allPieces (h : p.Formed text) :
    ∀ piece ∈ p.allPieces, piece.Formed text := by
  intro piece hpiece
  unfold StringProgress.allPieces at hpiece
  split_ifs at hpiece
  · exact h piece (List.mem_reverse.mp hpiece)
  · rcases List.mem_cons.mp (List.mem_reverse.mp hpiece) with rfl | hpiece
    · exact .raw
    · exact h piece hpiece

/-- Where a hole stands beside the body changes nothing about the places and strings in it. -/
theorem formed_markHole {mark : Option HoleOption → Option HoleOption}
    (h : ∀ piece ∈ pieces, piece.Formed text) :
    ∀ piece ∈ markHole mark count pieces, piece.Formed text := by
  unfold markHole
  split
  · next pos option value rest =>
      intro piece hpiece
      rcases List.mem_cons.mp hpiece with rfl | hpiece
      · have hformed := h (.hole pos option value) List.mem_cons_self
        exact ⟨hformed.strings, hformed.placed⟩
      · exact h piece (List.mem_cons_of_mem _ hpiece)
  · exact h

theorem formed_dropFront (h : ∀ piece ∈ pieces, piece.Formed text) :
    ∀ piece ∈ dropFront count pieces, piece.Formed text := by
  unfold dropFront
  split
  · refine List.forall_mem_cons.mpr ⟨.raw, formed_markHole ?_⟩
    exact (List.forall_mem_cons.mp h).2
  · exact formed_markHole h

theorem formed_dropBack (h : ∀ piece ∈ pieces, piece.Formed text) :
    ∀ piece ∈ dropBack count pieces, piece.Formed text := by
  have hreversed : ∀ piece ∈ pieces.reverse, piece.Formed text := forall_mem_reverse h
  unfold dropBack
  split
  · next raw rest hreverse =>
      rw [hreverse] at hreversed
      exact forall_mem_reverse
        (List.forall_mem_cons.mpr ⟨.raw, formed_markHole (List.forall_mem_cons.mp hreversed).2⟩)
  · exact forall_mem_reverse (formed_markHole hreversed)

theorem formed_bodyPieces (h : ∀ piece ∈ pieces, piece.Formed text) :
    ∀ piece ∈ bodyPieces token opened closed pieces, piece.Formed text := by
  unfold bodyPieces
  split
  · exact h
  · exact formed_dropBack (formed_dropFront h)

/-- A step in an open string. It closes the string only by reading its closing quotes. -/
def Steps (text : Passage) (o : Opening) (s : ParserState) (m : Parser (Option StringProgress)) :
    Prop :=
  ∀ next s', m.run s = some (next, s') → s.passage.Holds s' ∧
    ∃ p', next = some p' ∧ p'.Formed text ∧
    (p'.closed = true → s'.rest.length + o.closing ≤ s.rest.length)

theorem steps_failure : Steps text o s failure := by
  intro next s' hrun
  cases hrun

theorem steps_rest {f : List Char → Parser (Option StringProgress)}
    (h : Steps text o s (f s.rest)) : Steps text o s (rest >>= f) := by
  intro next s' hrun
  obtain ⟨cs, t, hrest, hrun⟩ := exists_of_run_bind hrun
  cases hrest
  exact h next s' hrun

/-- A step that leaves the string open. -/
theorem steps_open {m : Parser α} {f : α → StringProgress} (hm : Reads s.passage m)
    (hf : ∀ a t, m.run s = some (a, t) → (f a).Formed text ∧ (f a).closed = false) :
    Steps text o s (m >>= fun a => pure (some (f a))) := by
  intro next s' hrun
  obtain ⟨a, t, hfirst, hrest⟩ := exists_of_run_bind hrun
  cases hrest
  obtain ⟨hformed, hopen⟩ := hf a _ hfirst
  refine ⟨hm.holds s.holds_passage hfirst, f a, rfl, hformed, fun hclosed => ?_⟩
  rw [hopen] at hclosed
  cases hclosed

theorem steps_takeText (hp : p.Formed text) (hopen : p.closed = false) (count : Nat) (run : Bool) :
    Steps text o s (takeText p count run >>= fun p' => pure (some p')) := by
  have htake : ∀ text', Yields text' (takeText p count run) fun p' =>
    p'.pieces = p.pieces ∧ p'.closed = p.closed :=
    fun _ => .seq fun _ => .seq fun _ => .pure ⟨rfl, rfl⟩
  refine steps_open (htake _).reads fun p' t hrun => ?_
  obtain ⟨-, hpieces, hclosed⟩ := htake _ s.holds_passage hrun
  exact ⟨fun piece hpiece => hp piece (hpieces ▸ hpiece), hclosed.trans hopen⟩

theorem steps_hole (hs : text.Holds s) (hpieces : ∀ piece ∈ pieces, piece.Formed text)
    (hhole : ∀ text, Yields text hole (·.Formed text)) (hopen : p.closed = false) : Steps text o s
      (hole >>= fun piece =>
        pure (some { pieces := piece :: pieces, text := [], run := false, closed :=
          p.closed })) := by
  refine steps_open (hhole _).reads fun piece t hrun => ⟨?_, hopen⟩
  exact List.forall_mem_cons.mpr ⟨(hhole text hs hrun).2, hpieces⟩

theorem steps_close (hp : p.Formed text) : Steps text o s
    (advance o.closing >>= fun _ => pure (some { p with closed := true })) := by
  intro next s' hrun
  obtain ⟨_, t, hadvance, hrest⟩ := exists_of_run_bind hrun
  cases hrest
  obtain ⟨hle, hdrop⟩ := advance_run hadvance
  refine ⟨Reads.holds s.holds_passage hadvance, _, rfl, hp, fun _ => ?_⟩
  rw [hdrop, List.length_drop]
  omega

theorem steps_stringStep (hs : text.Holds s) (hp : p.Formed text)
    (hhole : ∀ text, Yields text hole (·.Formed text)) (hopen : p.closed = false) :
    Steps text o s (stringStep hole o p) := by
  have htake := steps_takeText (o := o) (s := s) hp hopen
  have hclose := steps_close (o := o) (s := s) hp
  rw [stringStep, if_neg (by simp [hopen])]
  refine steps_rest ?_
  cases s.rest with
  | nil => exact steps_failure
  | cons c more =>
    dsimp only
    split_ifs with _ _ _ _ _ _ _ _ _ hlong
    · exact steps_failure
    · exact htake _ _
    · exact steps_failure
    · exact steps_hole hs hp hhole hopen
    · exact steps_hole hs (List.forall_mem_cons.mpr ⟨.raw, hp⟩) hhole hopen
    · exact htake _ _
    · exact htake _ _
    · exact htake _ _
    · -- The closing quotes of a long string.
      rw [Opening.closing, if_pos hlong] at hclose
      split
      · split_ifs
        · exact hclose
        · exact htake _ _
        · exact htake _ _
      · exact htake _ _
    · rw [Opening.closing, if_neg hlong] at hclose
      exact hclose
    · exact steps_failure
    · exact htake _ _

/-- A string that is open is read up to its closing quotes. -/
theorem iterateWithin_stringStep_run {fuel : Nat} (hhole : ∀ text, Yields text hole (·.Formed text))
    (h : (iterateWithin (stringStep hole o) fuel p).run s = some (p', s')) (hs : text.Holds s)
    (hp : p.Formed text) :
    p'.Formed text ∧ s.passage.Holds s' ∧
    (p.closed = false → s'.rest.length + o.closing ≤ s.rest.length) := by
  induction fuel generalizing p s with
  | zero => cases h
  | succ fuel ih =>
    obtain ⟨next, t, hstep, h⟩ := exists_of_run_bind h
    cases hopen : p.closed with
    | true =>
      rw [stringStep, if_pos hopen] at hstep
      cases hstep
      cases h
      exact ⟨hp, ParserState.holds_passage _, nofun⟩
    | false =>
      obtain ⟨ht, p₁, rfl, hp₁, hclosed⟩ := steps_stringStep hs hp hhole hopen next t hstep
      obtain ⟨hp', hs', hlength⟩ := ih h (hs.trans ht) hp₁
      refine ⟨hp', ht.trans hs', fun _ => ?_⟩
      have hle : s'.rest.length ≤ t.rest.length := hs'.suffix.length_le
      cases hopen₁ : p₁.closed with
      | true =>
        have := hclosed hopen₁
        omega
      | false =>
        have := hlength hopen₁
        have : t.rest.length ≤ s.rest.length := ht.suffix.length_le
        omega

/-- Three quotes open a string only if it is a long one. -/
theorem quoteSize_eq_one (hquote : quote ≠ '\x60')
    (hshort : (decide (quote ≠ '\x60') && (body ++ after).head? == some quote &&
      ((body ++ after).drop 1).head? == some quote) = false) : Literal.quoteSize
      (quote :: body) = 1 := by
  match body with
  | [] | [_] => rfl
  | c :: d :: more =>
    refine if_neg fun hsame => ?_
    simp only [Bool.and_eq_true, decide_eq_true_eq] at hsame
    obtain ⟨rfl, rfl⟩ := hsame
    simp [hquote] at hshort

theorem isQuote_of_not_isBackquoted
    (hletters : ∀ c ∈ letters, Token.isStringLetter c = true)
    (hquote : Token.isOpeningQuote quote = true)
    (hback : ¬ Token.IsBackquoted (letters ++ quote :: body)) :
    Literal.isQuote quote = true ∧ quote ≠ '\x60' := by
  have hne : quote ≠ '\x60' := by
    rintro rfl
    have hnot : Token.isStringLetter '\x60' = false := by decide
    refine hback ?_
    rw [Token.IsBackquoted, List.dropWhile_append_of_pos hletters]
    simp [hnot]
  exact ⟨by simpa [Token.isOpeningQuote, hne] using hquote, hne⟩

/-- A token that was read with its closing quotes. -/
theorem stringIn_of_read {long : Bool}
    (hletters : ∀ c ∈ letters, Token.isStringLetter c = true)
    (hquote : Token.isOpeningQuote quote = true)
    (hlong : (decide (quote ≠ '\x60') && (body ++ after).head? == some quote &&
      ((body ++ after).drop 1).head? == some quote) = long)
    (hlength : 2 * (if long then 3 else 1) ≤ (quote :: body).length)
    {chars : List Char} (htext : letters ++ quote :: (body ++ after) <:+ chars) :
    Token.StringIn chars (String.ofList (letters ++ quote :: body)) := by
  constructor
  · refine List.IsInfix.trans ⟨[], after, ?_⟩ htext.isInfix
    simp
  · intro hback
    rw [String.toList_ofList] at hback ⊢
    obtain ⟨hquote', hne⟩ := isQuote_of_not_isBackquoted hletters hquote hback
    refine Literal.splitString?_ne_none hletters hquote' ?_
    cases long with
    | true =>
      have := Literal.quoteSize_le (quote :: body)
      simp only [if_true] at hlength
      omega
    | false =>
      rw [quoteSize_eq_one hne hlong]
      simpa using hlength

/-- How a string is opened by some letters and a quote in front of a text. -/
def openingOf (letters : List Char) (quote : Char) (more : List Char) : Opening where
  quote := quote
  long := quote ≠ '\x60' && more.head? == some quote && (more.drop 1).head? == some quote
  flags := .ofLetters letters

/-- A token is read by its letters, its opening quotes and the steps through its body. -/
theorem exists_of_stringToken_run {token : StringToken}
    (h : (stringToken hole).run s = some (token, s')) :
    ∃ letters quote more, (∀ c ∈ letters, Token.isStringLetter c = true) ∧
    Token.isOpeningQuote quote = true ∧
      s.rest = letters ++ quote :: more ∧
      ∃ fuel p u v, (openingOf letters quote more).closing ≤ (quote :: more).length ∧
        u.rest = (quote :: more).drop (openingOf letters quote more).closing ∧ s.passage.Holds u ∧
        (iterateWithin (stringStep hole (openingOf letters quote more)) fuel
        ⟨[], [], false, false⟩).run u =
          some (p, v) ∧
        v.rest = s'.rest ∧ v.pos = s'.pos ∧
        token = .mk s.pos (String.ofList (s.rest.take (s.rest.length - s'.rest.length)))
          (bodyPieces (s.rest.take (s.rest.length - s'.rest.length))
            (Literal.byteCount letters + (openingOf letters quote more).closing)
            (openingOf letters quote more).closing p.allPieces) := by
  replace ⟨s₀, t, hget, h⟩ := exists_of_run_bind h
  cases hget
  replace ⟨_, t, hadvance, h⟩ := exists_of_run_bind h
  replace ⟨cs, t', hcs, h⟩ := exists_of_run_bind h
  cases hcs
  have hletters : ∀ c ∈ s.rest.takeWhile Token.isStringLetter, Token.isStringLetter c = true :=
    fun c hc => List.mem_takeWhile_imp hc
  have hsplit : s.rest = s.rest.takeWhile Token.isStringLetter ++ t.rest := by
    rw [(advance_run hadvance).2]
    exact (List.prefix_iff_eq_append.mp (List.takeWhile_prefix _)).symm
  generalize s.rest.takeWhile Token.isStringLetter = letters at h hletters hsplit
  cases hopening : t.rest with
  | nil =>
    rw [hopening] at h
    cases h
  | cons quote more =>
    rw [hopening] at h hsplit
    dsimp only at h
    by_cases hquote : Token.isOpeningQuote quote = true
    · rw [if_pos hquote] at h
      replace ⟨_, u, hopen, h⟩ := exists_of_run_bind h
      obtain ⟨hle, hu⟩ := advance_run hopen
      have hholds : s.passage.Holds u := Reads.holds (Reads.holds s.holds_passage hadvance) hopen
      replace ⟨_, u', hmodify, h⟩ := exists_of_run_bind h
      cases hmodify
      replace ⟨p, v, hiterate, h⟩ := exists_of_run_bind h
      replace ⟨_, v', hmodify, h⟩ := exists_of_run_bind h
      cases hmodify
      replace ⟨cs, v', hcs, h⟩ := exists_of_run_bind h
      cases hcs
      cases h
      replace ⟨cs, u', hcs, hiterate⟩ := exists_of_run_bind hiterate
      cases hcs
      rw [hopening] at hle hu
      exact ⟨letters, quote, more, hletters, hquote, hsplit, _, p,
        { u with inFormat := (Literal.StringFlags.ofLetters letters).format }, v, hle, hu,
        hholds.congr rfl rfl, hiterate, rfl, rfl, rfl⟩
    · rw [if_neg hquote] at h
      cases h

theorem yields_stringToken (hhole : ∀ text, Yields text hole (·.Formed text)) :
    Yields text (stringToken hole) (·.Formed text) := by
  intro s s' token hs hrun
  obtain ⟨letters, quote, more, hletters, hquote, hsplit, fuel, p, u, v, hle, hu, hholds, hiterate,
      hv', hpos, rfl⟩ :=
    exists_of_stringToken_run hrun
  have hut : u.rest <:+ quote :: more := hu ▸ List.drop_suffix _ _
  obtain ⟨hp, hv, hclosing⟩ := iterateWithin_stringStep_run hhole hiterate (hs.trans hholds) nofun
  have hend : text.Holds s' := ((hs.trans hholds).trans hv).congr hv'.symm hpos.symm
  have hplace : text.Marks s.pos := hs.marks (by rw [hsplit]; simp)
  replace hclosing := hclosing rfl
  have hv : s'.rest <:+ u.rest := hv' ▸ hv.suffix
  rw [hv'] at hclosing
  obtain ⟨front, hfront⟩ := hv.trans hut
  have hlength : 2 * (openingOf letters quote more).closing ≤ front.length := by
    have := congrArg List.length hfront
    rw [List.length_append] at this
    rw [hu, List.length_drop] at hclosing
    omega
  obtain ⟨body, rfl, rfl⟩ : ∃ body, front = quote :: body ∧ more = body ++ s'.rest := by
    cases front with
    | nil =>
      unfold Opening.closing at hlength
      rw [List.length_nil] at hlength
      split_ifs at hlength <;> omega
    | cons c body =>
      rw [List.cons_append, List.cons.injEq] at hfront
      exact ⟨body, by rw [hfront.1], hfront.2.symm⟩
  have hread := stringIn_of_read hletters hquote rfl hlength (hsplit ▸ hs.suffix)
  refine ⟨hend, List.forall_mem_cons.mpr ⟨?_, stringsIn_pieces (formed_bodyPieces hp.allPieces)⟩,
    hplace, placed_pieces fun piece hpiece => (formed_bodyPieces hp.allPieces piece hpiece).placed⟩
  have hall : s.rest = (letters ++ quote :: body) ++ s'.rest := by
    rw [hsplit, List.append_assoc, List.cons_append]
  have hsize : s.rest.length - s'.rest.length = (letters ++ quote :: body).length := by
    rw [hall, List.length_append, Nat.add_sub_cancel]
  rw [hsize, hall, List.take_left]
  exact hread

end Grammar

end ScriptCompiler
