import Mathlib.Data.List.Chain
import ScriptCompiler.Proofs.ExpressionReading

/-!
# Pieces of string tokens

The pieces of a string token spell its body: stretches of text as they stand there, and holes, each
from its opening brace to its closing one. Text is cut only where a hole stands, so no two texts are
next to each other.
-/

namespace ScriptCompiler

variable {pieces : List Piece} {quote : Char} {letters body token : List Char}
  {count opened closed depth nesting : Nat}
  {op : String} {f : Follow} {s s' : ParserState} {piece : Piece} {run : Bool}
  {next : Option StringProgress}

def Piece.isHole : Piece → Bool
  | .text _ => false
  | .hole _ _ _ => true

/-- No two texts are next to each other. -/
def TextsApart (pieces : List Piece) :
    Prop := (pieces.map Piece.isHole).IsChain fun a b => a = true ∨ b = true

theorem TextsApart.reverse (h : TextsApart pieces) : TextsApart pieces.reverse := by
  unfold TextsApart at h ⊢
  rw [List.map_reverse, List.isChain_reverse]
  exact h.imp fun a b hab => hab.symm

/-! ## The body of a token -/

namespace Literal

theorem byteCount_cons (c : Char) (cs : List Char) :
    byteCount (c :: cs) = c.utf8Size + byteCount cs := rfl

theorem takeBytes_zero (cs : List Char) : takeBytes 0 cs = [] := by
  cases cs with
  | nil => rfl
  | cons c cs =>
    have := c.utf8Size_pos
    rw [takeBytes, if_neg (by omega)]

theorem takeBytes_byteCount (cs ds : List Char) : takeBytes (byteCount cs) (cs ++ ds) = cs := by
  induction cs with
  | nil => exact takeBytes_zero ds
  | cons c cs ih =>
    rw [byteCount_cons, List.cons_append, takeBytes, if_pos (by omega), Nat.add_sub_cancel_left, ih]

theorem byteCount_replicate (hquote : isQuote quote = true) (count : Nat) :
    byteCount (List.replicate count quote) = count := by
  have hsize : quote.utf8Size = 1 := by
    have hcases : quote = '\x27' ∨ quote = '"' := by simpa [isQuote] using hquote
    rcases hcases with rfl | rfl <;> decide
  induction count with
  | zero => rfl
  | succ count ih => rw [List.replicate_succ, byteCount_cons, ih, hsize, Nat.add_comm]

/-- A token between equal quotes is taken apart where they stand. -/
theorem splitString?_eq
    (hletters : ∀ c ∈ letters, Token.isStringLetter c = true) (hquote : isQuote quote = true)
    (hcount : 0 < count)
    (hsize : quoteSize (List.replicate count quote ++ (body ++ List.replicate count quote)) =
    count) :
    splitString? (letters ++ (List.replicate count quote ++ (body ++ List.replicate count quote))) =
      some { flags := .ofLetters letters, body := body, first := byteCount letters + count,
             last := byteCount letters + count + byteCount body } := by
  have hnot : ∀ c ∈ letters, (!isQuote c) = true := fun c hc => by
    simp [isQuote_of_isStringLetter (hletters c hc)]
  obtain ⟨rest, hrest⟩ : ∃ rest, List.replicate count quote ++
      (body ++ List.replicate count quote) = quote :: rest := by
    obtain ⟨k, rfl⟩ : ∃ k, count = k + 1 := ⟨count - 1, by omega⟩
    exact ⟨_, rfl⟩
  have htake : (letters ++ quote :: rest).takeWhile (fun c => !isQuote c) = letters := by
    rw [List.takeWhile_append_of_pos hnot]
    simp [hquote]
  have hdrop : (letters ++ quote :: rest).dropWhile (fun c => !isQuote c) = quote :: rest := by
    rw [List.dropWhile_append_of_pos hnot]
    simp [hquote]
  have htotal : byteCount (letters ++ quote :: rest) = byteCount letters +
      (count + (byteCount body + count)) := by
    rw [← hrest, byteCount_append, byteCount_append, byteCount_append, byteCount_replicate hquote]
  have hbody : (quote :: rest).drop count = body ++ List.replicate count quote := by
    rw [← hrest]
    exact List.drop_left' List.length_replicate
  rw [hrest] at hsize ⊢
  simp only [splitString?, htake, hdrop, htotal, hsize, hbody, List.isEmpty_cons,
    Bool.false_eq_true, if_false]
  rw [if_neg (by omega)]
  have hfront :
      byteCount letters + (count + (byteCount body + count)) - count - (byteCount letters + count) =
      byteCount body := by omega
  have hlast : byteCount letters + (count + (byteCount body + count)) - count =
      byteCount letters + count + byteCount body := by omega
  rw [hfront, hlast, takeBytes_byteCount]

end Literal

namespace Grammar

open ScriptCompiler.Parser

theorem markHole_zero (mark : Option HoleOption → Option HoleOption) (pieces : List Piece) :
    markHole mark 0 pieces = pieces := by
  unfold markHole
  split
  · rw [if_pos rfl]
  · rfl

theorem map_isHole_markHole (mark : Option HoleOption → Option HoleOption) (count : Nat)
    (pieces : List Piece) : (markHole mark count pieces).map Piece.isHole =
    pieces.map Piece.isHole := by
  unfold markHole
  split <;> rfl

theorem dropFront_zero (pieces : List Piece) : dropFront 0 pieces = pieces := by
  unfold dropFront
  split
  · rw [Literal.dropBytes, Literal.takeBytes_zero, Nat.zero_sub, markHole_zero]
    rfl
  · rw [markHole_zero]

theorem dropBack_zero (pieces : List Piece) : dropBack 0 pieces = pieces := by
  unfold dropBack
  split
  · next raw rest hreverse =>
      have htake := Literal.takeBytes_byteCount raw []
      rw [List.append_nil] at htake
      rw [Nat.sub_zero, htake, Nat.zero_sub, markHole_zero, ← hreverse, List.reverse_reverse]
  · rw [markHole_zero, List.reverse_reverse]

theorem map_isHole_dropFront (count : Nat) (pieces : List Piece) :
    (dropFront count pieces).map Piece.isHole = pieces.map Piece.isHole := by
  unfold dropFront
  split
  · rw [List.map_cons, map_isHole_markHole]
    rfl
  · rw [map_isHole_markHole]

theorem map_isHole_dropBack (count : Nat) (pieces : List Piece) :
    (dropBack count pieces).map Piece.isHole = pieces.map Piece.isHole := by
  unfold dropBack
  split
  · next raw rest hreverse =>
      rw [← List.reverse_reverse pieces, hreverse, List.map_reverse, List.map_cons,
        map_isHole_markHole]
      simp [Piece.isHole]
  · rw [List.map_reverse, map_isHole_markHole, ← List.map_reverse, List.reverse_reverse]

theorem textsApart_bodyPieces (h : TextsApart pieces) :
    TextsApart (bodyPieces token opened closed pieces) := by
  unfold bodyPieces
  split
  · exact h
  · rw [TextsApart, map_isHole_dropBack, map_isHole_dropFront]
    exact h

/-- Nothing is cut off where the body of a token is all that stands between its quotes. -/
theorem bodyPieces_eq {parts : Literal.StringParts}
    (hparts : Literal.splitString? token = some parts) (hfirst : parts.first = opened)
    (hlast : parts.last + closed = Literal.byteCount token) (pieces : List Piece) :
    bodyPieces token opened closed pieces = pieces := by
  unfold bodyPieces
  rw [hparts]
  dsimp only
  rw [hfirst, ← hlast, Nat.add_sub_cancel, Nat.sub_self, Nat.sub_self, dropFront_zero,
    dropBack_zero]

/-! ## Holes -/

/-- A text from brace to brace that the grammar reads as the given hole. -/
structure IsHole (source : List Char) (piece : Piece) : Prop where
  isHole : piece.isHole = true
  braces : ∃ inner, source = '\x7b' :: inner ++ ['\x7d']
  read : ∃ depth nesting s s', (hole (rules depth) nesting).run s = some (piece, s') ∧
    s.rest = source ++ s'.rest

/-- A parser that gives a hole and stops behind a closing brace. -/
def EndsHole (m : Parser Piece) : Prop :=
  ∀ ⦃s s' : ParserState⦄ ⦃piece : Piece⦄, m.run s = some (piece, s') →
    piece.isHole = true ∧ ∃ front, s.rest = front ++ '\x7d' :: s'.rest

theorem EndsHole.seq {α : Type} {m : Parser α} {f : α → Parser Piece} [hm : ∀ text, Reads text m]
    (hf : ∀ a, EndsHole (f a)) : EndsHole (m >>= f) := by
  intro s s' piece hrun
  obtain ⟨a, t, hfirst, hrest⟩ := exists_of_run_bind hrun
  obtain ⟨front, hfront, -⟩ := (hm _).holds s.holds_passage hfirst
  have hfront : s.rest = front ++ t.rest := hfront
  obtain ⟨hhole, more, hmore⟩ := hf a hrest
  refine ⟨hhole, front ++ more, ?_⟩
  rw [hfront, hmore, List.append_assoc]

theorem prefix_of_operator {cs : List Char} (h : Token.operator cs = op) (hop : op ≠ "") :
    op.toList <+: cs := by
  unfold Token.operator at h
  cases hfound : Token.operators.find? (fun op => op.toList.isPrefixOf cs) with
  | none =>
    rw [hfound] at h
    exact absurd h.symm hop
  | some found =>
    rw [hfound] at h
    obtain rfl : found = op := h
    simpa using List.find?_some hfound

/-- The operator that is expected stands at the reading point, perhaps behind a gap. -/
theorem expectOperator_run (hop : op ≠ "") {u : Unit}
    (h : (expectOperator f op).run s = some (u, s')) : ∃ front,
    s.rest = front ++ (op.toList ++ s'.rest) := by
  obtain ⟨found, t, hahead, h⟩ := exists_of_run_bind h
  obtain ⟨next, t', hnext, hfound⟩ := exists_of_run_bind hahead
  cases hfound
  obtain ⟨front, hfront, -⟩ := Reads.holds s.holds_passage hnext
  have hfront : s.rest = front ++ t.rest := hfront
  by_cases heq : (next == Ahead.operator op) = true
  · rw [if_pos heq] at h
    -- The operator at the reading point is the one that was seen there.
    have hoperator : Token.operator t.rest = op := by
      obtain rfl : next = Ahead.operator op := by simpa using heq
      obtain ⟨g, u, hgap, hnext⟩ := exists_of_run_bind hnext
      cases g with
      | newline => cases hnext
      | indent => cases hnext
      | dedent => cases hnext
      | token =>
        obtain ⟨cs, u', hcs, hnext⟩ := exists_of_run_bind hnext
        cases hcs
        cases hword : Token.word? u.rest with
        | some w =>
          rw [hword] at hnext
          cases hnext
        | none =>
          rw [hword] at hnext
          cases hnext
          rfl
    obtain ⟨more, hmore⟩ := prefix_of_operator hoperator hop
    obtain ⟨-, hdrop⟩ := advance_run h
    refine ⟨front, ?_⟩
    rw [hdrop, hfront, ← hmore, List.append_cancel_left_eq, List.append_cancel_left_eq]
    exact (List.drop_left' String.length_toList).symm
  · rw [if_neg heq] at h
    cases h

theorem endsHole_hole (depth nesting : Nat) : EndsHole (hole (rules depth) nesting) := by
  cases nesting with
  | zero =>
    intro s s' piece hrun
    cases hrun
  | succ nesting =>
    rw [hole]
    have hvalue : ∀ text, Reads text (holeValue (rules depth)) := fun _ => yields_holeValue.reads
    have hhole : ∀ text, Reads text (hole (rules depth) nesting) :=
      fun _ => (yields_hole nesting).reads
    refine .seq fun pos => .seq fun _ => .seq fun _ => .seq fun value => .seq fun documenting => ?_
    extract_lets afterMark
    have hafterMark : ∀ u, EndsHole (afterMark u) := by
      intro u
      refine .seq fun cs => ?_
      extract_lets converted afterConversion
      have hafterConversion : ∀ u, EndsHole (afterConversion u) := by
        intro u
        refine .seq fun cs => ?_
        extract_lets specified option afterSpecifier
        have hafterSpecifier : ∀ u, EndsHole (afterSpecifier u) := by
          intro u s s' piece hrun
          obtain ⟨u, t, hbrace, hrun⟩ := exists_of_run_bind hrun
          cases hrun
          exact ⟨rfl, expectOperator_run (by decide) hbrace⟩
        split_ifs
        · exact .seq fun _ => .seq hafterSpecifier
        · exact hafterSpecifier ()
      split_ifs
      · exact .seq fun _ => .seq hafterConversion
      · exact hafterConversion ()
    split_ifs
    · exact .seq fun _ => .seq hafterMark
    · exact hafterMark ()

/-- What is read as a hole from an opening brace on. -/
theorem exists_isHole (hopen : s.rest.head? = some '\x7b')
    (h : (hole (rules depth) nesting).run s = some (piece, s')) :
    ∃ source, IsHole source piece ∧ s.rest = source ++ s'.rest := by
  obtain ⟨hhole, front, hfront⟩ := endsHole_hole depth nesting h
  have hrest : s.rest = (front ++ ['\x7d']) ++ s'.rest := by
    rw [hfront, List.append_assoc, List.singleton_append]
  cases front with
  | nil =>
    rw [hfront] at hopen
    cases hopen
  | cons c inner =>
    obtain rfl : c = '\x7b' := by
      rw [hfront] at hopen
      simpa using hopen
    exact ⟨_, ⟨hhole, ⟨inner, rfl⟩, ⟨depth, nesting, s, s', h, hrest⟩⟩, hrest⟩

/-! ## Pieces in order -/

/-- Pieces one after the other spell a text. -/
inductive Spells : List Piece → List Char → Prop
  | nil : Spells [] []
  | text {pieces : List Piece} {more : List Char} (raw : List Char) (h : Spells pieces more) :
      Spells (.text raw :: pieces) (raw ++ more)
  | hole {piece : Piece} {pieces : List Piece} {source more : List Char}
      (hhole : IsHole source piece)
      (h : Spells pieces more) : Spells (piece :: pieces) (source ++ more)

theorem Spells.append {others : List Piece} {text more : List Char} (h : Spells pieces text)
    (hothers : Spells others more) : Spells (pieces ++ others) (text ++ more) := by
  induction h with
  | nil => exact hothers
  | text raw _ ih =>
    rw [List.append_assoc]
    exact .text raw ih
  | hole hhole _ ih =>
    rw [List.append_assoc]
    exact .hole hhole ih

namespace StringProgress

variable {p : StringProgress} {done : List Char}

/-- The pieces with the text read last, the latest first. -/
def flushed (p : StringProgress) :
    List Piece := if p.text.isEmpty then p.pieces else .text p.text.reverse :: p.pieces

theorem allPieces_eq (p : StringProgress) : p.allPieces = p.flushed.reverse := by
  unfold allPieces flushed
  split_ifs <;> rfl

/-- What has been read of a body: text after the latest hole, and pieces before it. -/
structure Holds (p : StringProgress) (done : List Char) : Prop where
  spells : ∃ before, Spells p.pieces.reverse before ∧ done = before ++ p.text.reverse
  apart : TextsApart p.pieces
  latest : ∀ piece ∈ p.pieces.head?, piece.isHole = true

theorem Holds.flushed (h : p.Holds done) :
    Spells p.flushed.reverse done ∧ TextsApart p.flushed := by
  obtain ⟨⟨before, hbefore, rfl⟩, hapart, hlatest⟩ := h
  unfold StringProgress.flushed
  by_cases htext : p.text.isEmpty = true
  · rw [List.isEmpty_iff.mp htext]
    exact ⟨by simpa using hbefore, hapart⟩
  · rw [if_neg htext]
    refine ⟨by simpa using hbefore.append (.text p.text.reverse .nil), ?_⟩
    cases hpieces : p.pieces with
    | nil => simp [TextsApart]
    | cons piece pieces =>
      rw [hpieces] at hapart hlatest
      exact List.isChain_cons_cons.mpr ⟨.inr (hlatest piece rfl), hapart⟩

theorem Holds.take (h : p.Holds done) (taken : List Char) (run : Bool) :
    Holds { p with text := taken.reverse ++ p.text, run := run } (done ++ taken) := by
  obtain ⟨⟨before, hbefore, rfl⟩, hapart, hlatest⟩ := h
  exact ⟨⟨before, hbefore, by simp⟩, hapart, hlatest⟩

theorem Holds.hole (h : p.Holds done) {source : List Char} (hhole : IsHole source piece) :
    Holds { p with pieces := piece :: p.flushed, text := [], run := false } (done ++ source) := by
  obtain ⟨hspells, hapart⟩ := h.flushed
  refine ⟨⟨done ++ source, ?_, by simp⟩, ?_, ?_⟩
  · have := hspells.append (.hole hhole .nil)
    simpa using this
  · cases hflushed : p.flushed with
    | nil => simp [TextsApart]
    | cons other pieces =>
      rw [hflushed] at hapart
      exact List.isChain_cons_cons.mpr ⟨.inl hhole.isHole, hapart⟩
  · intro other hother
    cases hother
    exact hhole.isHole

end StringProgress

/-! ## Reading a body -/

section Body

variable {readHole : Parser Piece} {o : Opening} {p p' : StringProgress} {s s' : ParserState}

theorem takeText_run (h : (takeText p count run).run s = some (p', s')) :
    ∃ taken, s.rest = taken ++ s'.rest ∧
    p' = { p with text := taken.reverse ++ p.text, run := run } := by
  obtain ⟨cs, t, hcs, h⟩ := exists_of_run_bind h
  cases hcs
  obtain ⟨u, t, hadvance, h⟩ := exists_of_run_bind h
  cases h
  refine ⟨s.rest.take count, ?_, rfl⟩
  rw [(advance_run hadvance).2, List.take_append_drop]

/-- What a step in an open string does: it takes some text, reads a hole, or closes the string. -/
inductive BodyStep (readHole : Parser Piece) (o : Opening) (p : StringProgress)
    (s s' : ParserState) : Option StringProgress → Prop
  | take {taken : List Char} {run : Bool} (hrest : s.rest = taken ++ s'.rest) :
      BodyStep readHole o p s s' (some { p with text := taken.reverse ++ p.text, run := run })
  | hole {piece : Piece} (hopen : s.rest.head? = some '\x7b')
      (hrun : readHole.run s = some (piece, s')) :
      BodyStep readHole o p s s'
      (some { p with pieces := piece :: p.flushed, text := [], run := false })
  | close (hrest : s.rest = List.replicate o.closing o.quote ++ s'.rest) :
      BodyStep readHole o p s s' (some { p with closed := true })

theorem bodyStep_takeText
    (h : (takeText p count run >>= fun p' => pure (some p')).run s = some (next, s')) :
    BodyStep readHole o p s s' next := by
  obtain ⟨p', t, htake, hnext⟩ := exists_of_run_bind h
  cases hnext
  obtain ⟨taken, hrest, rfl⟩ := takeText_run htake
  exact .take hrest

theorem bodyStep_close (front : List Char) (hfront : front <+: s.rest)
    (hquotes : front = List.replicate o.closing o.quote)
    (h : (advance front.length >>= fun _ => pure (some { p with closed := true })).run s =
    some (next, s')) : BodyStep readHole o p s s' next := by
  obtain ⟨u, t, hadvance, hnext⟩ := exists_of_run_bind h
  cases hnext
  refine .close ?_
  obtain ⟨more, hmore⟩ := hfront
  rw [(advance_run hadvance).2, ← hmore, List.drop_left, hquotes]

theorem bodyStep_hole (hpieces : pieces = p.flushed) (hopen : s.rest.head? = some '\x7b')
    (h : (readHole >>= fun piece =>
      pure (some { pieces := piece :: pieces, text := [], run := false, closed := p.closed })).run
        s =
        some (next, s')) : BodyStep readHole o p s s' next := by
  obtain ⟨piece, t, hrun, hnext⟩ := exists_of_run_bind h
  cases hnext
  subst hpieces
  exact .hole hopen hrun

theorem bodyStep_of_run (hopen : p.closed = false)
    (h : (stringStep readHole o p).run s = some (next, s')) : BodyStep readHole o p s s' next := by
  rw [stringStep, if_neg (by simp [hopen])] at h
  have hstep := exists_of_run_bind h
  clear h
  obtain ⟨cs, t, hcs, h⟩ := hstep
  cases hcs
  cases hrest : s.rest with
  | nil =>
    rw [hrest] at h
    cases h
  | cons c more =>
    rw [hrest] at h
    dsimp only at h
    -- Where a hole is read, an opening brace stands.
    have hbrace (hbraces : (o.flags.format && (c = '\x7b' || c = '\x7d')) = true)
        (hclosing : ¬ c = '\x7d') :
        s.rest.head? = some '\x7b' := by
      rw [Bool.and_eq_true, Bool.or_eq_true, decide_eq_true_iff, decide_eq_true_iff] at hbraces
      rw [hrest]
      exact congrArg some (hbraces.2.resolve_right hclosing)
    split at h
    · cases h
    split at h
    · next hbraces =>
        split at h
        · exact bodyStep_takeText h
        split at h
        · cases h
        · next hclosing =>
            split at h
            · next htext =>
                exact bodyStep_hole (by rw [StringProgress.flushed, if_pos htext])
                  (hbrace hbraces hclosing) h
            · next htext =>
                exact bodyStep_hole (by rw [StringProgress.flushed, if_neg htext])
                  (hbrace hbraces hclosing) h
    split at h
    · -- A backslash and what it hides are text.
      split at h
      · exact bodyStep_takeText h
      · split at h <;> exact bodyStep_takeText h
    split at h
    · next hquote =>
        split at h
        · next hlong =>
            -- A quote in a long string closes it together with two more.
            split at h
            · next d e tail =>
                split at h
                · next hthree =>
                    obtain ⟨rfl, rfl⟩ : d = c ∧ e = c := by simpa using hthree
                    refine bodyStep_close [e, e, e] ⟨tail, hrest.symm⟩ ?_ h
                    rw [Opening.closing, if_pos hlong, hquote]
                    rfl
                · split at h <;> exact bodyStep_takeText h
            · exact bodyStep_takeText h
        · next hlong =>
            refine bodyStep_close [c] ⟨more, hrest.symm⟩ ?_ h
            rw [Opening.closing, if_neg hlong, hquote]
            rfl
    split at h
    · cases h
    · exact bodyStep_takeText h

/-- A string that is open is read up to its closing quotes, and its pieces spell what stands before
them. -/
theorem exists_body_of_run {fuel : Nat} {done : List Char} (hopen : p.closed = false)
    (hp : p.Holds done)
    (h : (iterateWithin (stringStep (hole (rules depth) nesting) o) fuel p).run s = some (p', s')) :
    ∃ body, s.rest = body ++ (List.replicate o.closing o.quote ++ s'.rest) ∧
    p'.Holds (done ++ body) := by
  induction fuel generalizing p s done with
  | zero => cases h
  | succ fuel ih =>
    obtain ⟨next, t, hstep, h⟩ := exists_of_run_bind h
    cases bodyStep_of_run hopen hstep with
    | @take taken run hrest =>
      obtain ⟨body, hbody, hp'⟩ := ih (by exact hopen) (hp.take taken run) h
      refine ⟨taken ++ body, ?_, ?_⟩
      · rw [hrest, hbody, List.append_assoc]
      · rwa [List.append_assoc] at hp'
    | @hole piece hbrace hrun =>
      obtain ⟨source, hhole, hrest⟩ := exists_isHole hbrace hrun
      obtain ⟨body, hbody, hp'⟩ := ih (by exact hopen) (hp.hole hhole) h
      refine ⟨source ++ body, ?_, ?_⟩
      · rw [hrest, hbody, List.append_assoc]
      · rwa [List.append_assoc] at hp'
    | close hrest =>
      -- A closed string is left as it is.
      cases fuel with
      | zero => cases h
      | succ fuel =>
        obtain ⟨next, t', hstop, h⟩ := exists_of_run_bind h
        cases hstop
        cases h
        refine ⟨[], by simpa using hrest, ?_⟩
        rw [List.append_nil]
        exact ⟨hp.spells, hp.apart, hp.latest⟩

end Body

/-! ## Reading a token -/

section Token

variable {depth nesting : Nat} {s s' : ParserState} {token : StringToken}

theorem eq_replicate_closing (letters : List Char) (quote : Char) (more : List Char) :
    quote :: more = List.replicate (openingOf letters quote more).closing quote ++
      (quote :: more).drop (openingOf letters quote more).closing := by
  unfold Opening.closing
  by_cases hlong : (openingOf letters quote more).long = true
  · rw [if_pos hlong]
    simp only [openingOf, Bool.and_eq_true, beq_iff_eq] at hlong
    obtain ⟨⟨-, hsecond⟩, hthird⟩ := hlong
    obtain ⟨rest, rfl⟩ := List.head?_eq_some_iff.mp hsecond
    obtain ⟨rest', hrest'⟩ := List.head?_eq_some_iff.mp hthird
    obtain rfl : rest = quote :: rest' := hrest'
    rfl
  · rw [if_neg hlong]
    rfl

theorem Opening.closing_pos (o : Opening) : 0 < o.closing := by
  unfold Opening.closing
  split_ifs <;> omega

/-- The quotes at the front of a token are those that opened it. -/
theorem quoteSize_eq_closing {inner after : List Char} (hquote : quote ≠ '\x60')
    (hbody : quote :: body =
    List.replicate (openingOf letters quote (body ++ after)).closing quote ++ inner) :
    Literal.quoteSize (quote :: body) = (openingOf letters quote (body ++ after)).closing := by
  unfold Opening.closing at hbody ⊢
  by_cases hlong : (openingOf letters quote (body ++ after)).long = true
  · rw [if_pos hlong] at hbody ⊢
    rw [hbody]
    simp [List.replicate_succ, Literal.quoteSize]
  · rw [if_neg hlong]
    rw [Bool.not_eq_true] at hlong
    exact quoteSize_eq_one hquote hlong

/-- The pieces of a token as they are read: they spell its body, if it is not opened by a
backquote. -/
structure Pieced (token : StringToken) : Prop where
  apart : TextsApart token.pieces
  spells : ¬ Token.IsBackquoted token.token.toList →
    ∃ parts, Literal.splitString? token.token.toList = some parts ∧ Spells token.pieces parts.body

theorem pieced_of_stringToken_run
    (h : (stringToken (hole (rules depth) nesting)).run s = some (token, s')) : Pieced token := by
  obtain ⟨letters, quote, more, hletters, hquote, hsplit, fuel, p, u, v, -, hu, -, hiterate,
      hv, -, rfl⟩ :=
    exists_of_stringToken_run h
  have hopening := eq_replicate_closing letters quote more
  have hstart : StringProgress.Holds ⟨[], [], false, false⟩ [] := ⟨⟨[], .nil, rfl⟩, .nil, nofun⟩
  obtain ⟨body, hbody, hp⟩ := exists_body_of_run rfl hstart hiterate
  obtain ⟨hspells, hapart⟩ := hp.flushed
  rw [← StringProgress.allPieces_eq] at hspells
  have hall : TextsApart p.allPieces := by
    rw [StringProgress.allPieces_eq]
    exact hapart.reverse
  refine ⟨textsApart_bodyPieces hall, ?_⟩
  simp only [StringToken.token, StringToken.pieces, String.toList_ofList]
  -- Equal quotes stand on both sides of the body.
  have hquotes : quote :: more = List.replicate (openingOf letters quote more).closing quote ++
      (body ++ List.replicate (openingOf letters quote more).closing quote) ++ s'.rest := by
    rw [← hu, hbody, hv] at hopening
    simpa [openingOf] using hopening
  have hquoted : List.replicate (openingOf letters quote more).closing quote ++
      (body ++ List.replicate (openingOf letters quote more).closing quote) ≠ [] := by
    have := (openingOf letters quote more).closing_pos
    simp
    omega
  obtain ⟨front, hfront, rfl⟩ : ∃ front, quote :: front =
      List.replicate (openingOf letters quote more).closing quote ++
      (body ++ List.replicate (openingOf letters quote more).closing quote) ∧
      more = front ++ s'.rest := by
    generalize List.replicate (openingOf letters quote more).closing quote ++
      (body ++ List.replicate (openingOf letters quote more).closing quote) = all at hquotes hquoted
    cases all with
    | nil => exact absurd rfl hquoted
    | cons c front =>
      obtain ⟨rfl, rfl⟩ := List.cons.inj hquotes
      exact ⟨front, rfl, rfl⟩
  have htoken : s.rest.take (s.rest.length - s'.rest.length) = letters ++ quote :: front := by
    rw [hsplit, ← List.cons_append, ← List.append_assoc, List.length_append, Nat.add_sub_cancel,
      List.take_left]
  rw [htoken]
  intro hback
  obtain ⟨hquote', hne⟩ := isQuote_of_not_isBackquoted hletters hquote hback
  have hsize := quoteSize_eq_closing hne hfront
  have hparts := Literal.splitString?_eq hletters hquote' (Opening.closing_pos _) (hfront ▸ hsize)
  have hcount : Literal.byteCount (letters ++ quote :: front) = Literal.byteCount letters +
      (openingOf letters quote (front ++ s'.rest)).closing + Literal.byteCount body +
        (openingOf letters quote (front ++ s'.rest)).closing := by
    rw [hfront]
    simp only [Literal.byteCount_append, Literal.byteCount_replicate hquote', Nat.add_assoc]
  rw [← hfront] at hparts
  refine ⟨_, hparts, ?_⟩
  rw [bodyPieces_eq hparts rfl hcount.symm]
  exact hspells

theorem pieced_of_strings_run {e : Expr} (h : (strings (rules depth) f).run s = some (e, s')) :
    OfTokens Pieced e := by
  refine (yields_tokens ?_ f s.holds_passage h).2
  intro nesting t t' token ht hrun
  obtain ⟨hread, -⟩ := yields_stringToken (fun _ => yields_hole nesting) ht hrun
  exact ⟨hread, pieced_of_stringToken_run hrun⟩

end Token

end Grammar

end ScriptCompiler
