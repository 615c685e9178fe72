import ScriptCompiler.Proofs.StringReading

/-!
# Expressions as they are read

Every rule of the grammar that gives an expression forms it. The rules for nested expressions are
assumed to do so, and tied together at the end.
-/

namespace ScriptCompiler.Grammar

open ScriptCompiler.Parser

set_option synthInstance.maxSize 8192

variable {e first : Expr} {items : List Expr} {comma : Bool} {ts : List Target}

abbrev UnitFormed (text : Passage) (e : Expr) : Prop := e.Formed text ∧ e.strength = 24

/-- An expression that binds more tightly than a comparison. -/
abbrev OperandFormed (text : Passage) (e : Expr) : Prop := e.Formed text ∧ 15 < e.strength

theorem UnitFormed.operand {text : Passage} (h : UnitFormed text e) : OperandFormed text e :=
  ⟨h.1, by rw [h.2]; decide⟩

class Rules.Forms (R : Rules) : Prop where
  expression : ∀ {text : Passage} (extent : Extent) (f : Follow),
    Yields text (R.expression extent f) fun e => e.Formed text ∧ min extent.above 13 < e.strength
  operand : ∀ {text : Passage} (above : Nat) (f : Follow),
    Yields text (R.operand above f) (OperandFormed text)
  primary : ∀ {text : Passage} (f : Follow),
    Yields text (R.primary f) (UnitFormed text)
  typeHint : ∀ {text : Passage} (constraints : Bool) (f : Follow),
    Reads text (R.typeHint constraints f)

variable {R : Rules} {text : Passage}

attribute [instance] Rules.Forms.typeHint

theorem Rules.Forms.formed (hR : R.Forms) (extent : Extent) (f : Follow) :
    Yields text (R.expression extent f) (·.Formed text) :=
  (hR.expression extent f).mono fun _ h => h.1

instance [hR : R.Forms] (extent : Extent) (f : Follow) :
    Reads text (R.expression extent f) := (hR.formed extent f).reads

instance [hR : R.Forms] (f : Follow) : Reads text (R.primary f) := (hR.primary f).reads

abbrev AllFormed (text : Passage) (items : List Expr) : Prop := ∀ e ∈ items, e.Formed text

theorem AllFormed.cons (he : e.Formed text) (h : AllFormed text items) :
    AllFormed text (e :: items) :=
  List.forall_mem_cons.mpr ⟨he, h⟩

theorem AllFormed.singleton (he : e.Formed text) : AllFormed text [e] := .cons he nofun

theorem AllFormed.placed (h : AllFormed text items) : itemsPlaced text.Marks items :=
  placed_items fun e he => (h e he).placed

/-- One expression or more, all of them formed. -/
abbrev SomeFormed (text : Passage) (items : List Expr) : Prop := AllFormed text items ∧ items ≠ []

theorem SomeFormed.cons (he : e.Formed text) (h : SomeFormed text items) :
    SomeFormed text (e :: items) :=
  ⟨h.1.cons he, List.cons_ne_nil _ _⟩

theorem SomeFormed.singleton (he : e.Formed text) : SomeFormed text [e] :=
  ⟨.singleton he, List.cons_ne_nil _ _⟩

/-! ## Sequences -/

theorem yields_listStep {σ : Type} {P : σ → Prop} {ended : Bool} {closing : String}
    {closed closed' : σ}
    {item : Parser (Option σ)} (hclosed : P closed) (hclosed' : P closed')
    (hitem : YieldsStep text item P) : YieldsStep text (do
      if ended then return none
      if ← aheadIs { close := true } "," then
        skip ","
        toOperand true
        if Token.operator (← rest) == closing then
          skip closing
          return some closed
        else item
      else
        expectOperator { close := true } closing
        return some closed') P := by
  split_ifs
  · exact .last
  · refine .seq fun next => ?_
    split_ifs
    · refine .seq fun _ => .seq fun _ => .seq fun cs => ?_
      split_ifs
      · exact .seq fun _ => .next hclosed
      · exact hitem
    · exact .seq fun _ => .next hclosed'

section Sequences

variable [hR : R.Forms]

theorem yields_moreExpressions (f : Follow) (hfirst : first.Formed text) :
    Yields text (moreExpressions R f first) fun found => SomeFormed text found.1 := by
  refine .bind (.iterate (P := fun acc => SomeFormed text acc.1) (.singleton hfirst) ?_) ?_
  · rintro ⟨done, comma, ended⟩ hdone
    dsimp only
    split_ifs
    · exact .last
    · refine .seq fun next => ?_
      split_ifs
      · refine .seq fun _ => .seq fun g => ?_
        cases g with
        | newline => exact .next hdone
        | token =>
          refine .seq fun cs => ?_
          split_ifs
          · exact (hR.formed _ _).bind fun e he => .next (.cons he hdone)
          · exact .next hdone
        | indent | dedent => exact .failure
      · exact .last
  · rintro ⟨done, comma, ended⟩ hdone
    exact .pure ⟨forall_mem_reverse hdone.1, List.reverse_ne_nil_iff.mpr hdone.2⟩

theorem yields_expressions (f : Follow) :
    Yields text (expressions R f) fun found => SomeFormed text found.1 :=
  (hR.formed _ _).bind fun _ he => yields_moreExpressions f he

instance (f : Follow) : Reads text (expressions R f) := (yields_expressions f).reads

end Sequences

theorem formed_collect (h : SomeFormed text items) : (collect items comma).Formed text := by
  have hstart {e : Expr} (he : e ∈ items) : text.Marks e.start := (h.1 e he).placed.start
  match items with
  | [] => exact absurd rfl h.2
  | [e] =>
    rw [collect]
    split_ifs
    · exact .sequence (hstart List.mem_cons_self) h.1
    · exact h.1 e List.mem_cons_self
  | _ :: _ :: _ => exact .sequence (hstart List.mem_cons_self) h.1

theorem yields_yieldExpression [hR : R.Forms] (f : Follow) :
    Yields text (yieldExpression R f) (·.Formed text) := by
  refine yields_wordPlace.bind fun ⟨pos, w⟩ hpos => .seq fun g => ?_
  cases g with
  | newline => exact .pure (.foreign hpos)
  | token =>
    refine .seq fun cs => ?_
    split_ifs
    · exact .seq fun _ => .seq fun _ => .seq fun _ =>
        .pure (.foreign hpos)
    · exact .seq fun _ => .pure (.foreign hpos)
    · exact .pure (.foreign hpos)
  | indent | dedent => exact .failure

/-! ## Targets -/

section Targets

variable {Q : Position → Prop}

theorem placed_target {t : Target} (he : e.Placed Q) (h : target? e = some t) : t.Placed Q := by
  have hforeign : ∀ {α : Type} {x : Option α} {pos : Position} {kind : NodeKind}, Q pos →
      x.map (fun _ => Target.foreign pos kind) = some t → t.Placed Q := by
    intro α x pos kind hpos hx
    obtain ⟨_, -, rfl⟩ := Option.map_eq_some_iff.mp hx
    exact hpos
  cases e with
  | name | member | subscript =>
    cases h
    exact he
  | splat pos operand =>
    cases operand <;> cases h <;> exact he.1
  | paren pos inner => exact hforeign he.1 h
  | sequence pos form items =>
    cases form with
    | tuple | list => exact hforeign he.1 h
    | set | bare => cases h
  | _ => cases h

theorem placed_targets (hitems : itemsPlaced Q items)
    (h : target?.targets? items = some ts) : ∀ t ∈ ts, t.Placed Q := by
  induction items generalizing ts with
  | nil =>
    cases h
    exact nofun
  | cons e rest ih =>
    obtain ⟨t, ht, h⟩ := Option.bind_eq_some_iff.mp h
    obtain ⟨more, hmore, h⟩ := Option.bind_eq_some_iff.mp h
    cases h
    exact List.forall_mem_cons.mpr ⟨placed_target hitems.1 ht, ih hitems.2 hmore⟩

theorem placed_bindNames (h : ∀ t ∈ ts, t.Placed Q) : (bindNames ts).Placed Q := by
  induction ts with
  | nil => exact trivial
  | cons t rest ih =>
    obtain ⟨ht, hrest⟩ := List.forall_mem_cons.mp h
    cases t with
    | name pos id =>
      rw [bindNames]
      split
      · exact trivial
      · exact ih hrest
    | member | subscript | foreign => exact ht.start

theorem placed_bracketItems (he : e.Placed Q) (h : bracketItems? e = some ts) :
    ∀ t ∈ ts, t.Placed Q := by
  unfold bracketItems? at h
  split at h
  · obtain ⟨t, ht, rfl⟩ := Option.map_eq_some_iff.mp h
    exact List.forall_mem_singleton.mpr (placed_target he.2 ht)
  · exact placed_targets he.2 h
  · exact placed_targets he.2 h
  · cases h

theorem placed_clauseTarget {target : ClauseTarget} (hitems : AllFormed text items)
    (h : clauseTarget? items comma = some target) : target.Placed text.Marks := by
  unfold clauseTarget? at h
  split at h
  · next e =>
    have he := (hitems e List.mem_cons_self).placed
    split at h
    · next hbrackets =>
      cases h
      exact placed_bindNames (placed_bracketItems he hbrackets)
    · obtain ⟨t, ht, rfl⟩ := Option.map_eq_some_iff.mp h
      have hstart := (placed_target he ht).start
      split
      · exact trivial
      · exact hstart
  · obtain ⟨ts, hts, rfl⟩ := Option.map_eq_some_iff.mp h
    exact placed_bindNames (placed_targets hitems.placed hts)

end Targets

/-! ## Format strings -/

theorem yields_holeValue [hR : R.Forms] : Yields text (holeValue R) (·.Formed text) := by
  refine .seq fun cs => ?_
  split_ifs
  · exact yields_yieldExpression _
  · exact (yields_expressions _).bind fun ⟨_, _⟩ hitems => .pure (formed_collect hitems)

instance {nested : Parser Piece} [Reads text nested] : Reads text (specifier nested) := by
  refine .iterate fun _ => .seq fun cs => ?_
  cases cs <;> dsimp only <;> infer_instance

theorem yields_hole [hR : R.Forms] (depth : Nat) : Yields text (hole R depth) (·.Formed text) := by
  induction depth with
  | zero => exact .failure
  | succ depth ih =>
    refine .atPlace (fun pos hpos => ?_) fun _ => (demands_skip (by decide)).bind
    refine .seq fun _ => .seq fun _ =>
      yields_holeValue.bind fun value hvalue => .seq fun documenting => ?_
    extract_lets afterMark
    have hafterMark : ∀ u, Yields text (afterMark u) (·.Formed text) := by
      intro u
      refine .seq fun cs => ?_
      extract_lets converted afterConversion
      have hafterConversion : ∀ u, Yields text (afterConversion u) (·.Formed text) := by
        intro u
        refine .seq fun cs => ?_
        extract_lets specified option afterSpecifier
        have hafterSpecifier : ∀ u, Yields text (afterSpecifier u) (·.Formed text) := by
          intro u
          exact .seq fun _ => .pure (.hole hpos hvalue)
        have := ih.reads
        split_ifs
        · exact .seq fun _ => .seq hafterSpecifier
        · exact hafterSpecifier ()
      split_ifs
      · exact .seq fun _ => .seq hafterConversion
      · exact hafterConversion ()
    split_ifs
    · exact .seq fun _ => .seq hafterMark
    · exact hafterMark ()

/-- A string, or several adjacent ones, all of whose tokens have a property. -/
inductive OfTokens (P : StringToken → Prop) : Expr → Prop
  | string {token : StringToken} (h : P token) : OfTokens P (.string token)
  | joined {first : StringToken} {rest : List StringToken} (hfirst : P first)
      (hrest : ∀ token ∈ rest, P token) :
      OfTokens P (.joined first rest)

theorem yields_tokens {P : StringToken → Prop}
    (htokens : ∀ nesting, Yields text (stringToken (hole R nesting)) P)
    (f : Follow) : Yields text (strings R f) (OfTokens P) := by
  have htoken : Yields text (do stringToken (hole R (← rest).length)) P := .seq fun cs => htokens _
  refine htoken.bind fun first hfirst => ?_
  refine .bind (.iterate (P := fun done => ∀ t ∈ done, P t) nofun ?_) ?_
  · intro done hdone
    refine yields_get.bind fun s hs => .seq fun g => ?_
    cases g with
    | token =>
      refine .seq fun cs => ?_
      split_ifs
      · exact htoken.bind fun t ht => .next (List.forall_mem_cons.mpr ⟨ht, hdone⟩)
      · exact .last
    | newline =>
      have := Reads.set hs
      exact .seq fun _ => .last
    | indent | dedent => exact .failure
  · intro more hmore
    have htokens := forall_mem_reverse hmore
    cases hreverse : more.reverse with
    | nil => exact .pure (.string hfirst)
    | cons t rest => exact .pure (.joined hfirst (hreverse ▸ htokens))

theorem yields_strings [hR : R.Forms] (f : Follow) :
    Yields text (strings R f) (UnitFormed text) := by
  refine (yields_tokens (fun nesting => yields_stringToken fun _ => yields_hole nesting) f).mono ?_
  intro e he
  cases he with
  | string h => exact ⟨.string h, rfl⟩
  | joined hfirst hrest => exact ⟨.joined hfirst hrest, rfl⟩

instance [R.Forms] (f : Follow) : Reads text (strings R f) := (yields_strings f).reads

/-! ## Displays -/

section Displays

variable [hR : R.Forms]

theorem yields_clause? : YieldsStep text (clause? R) (·.Formed text) := by
  unfold clause?
  extract_lets f inFollow item step more loop
  have hstep : ∀ acc : List Expr × Bool × Bool, AllFormed text acc.1 →
      YieldsStep text (step acc) fun acc => AllFormed text acc.1 := by
    rintro ⟨done, comma, ended⟩ hdone
    dsimp only [step]
    split_ifs
    · exact .last
    · refine .seq fun next => ?_
      split_ifs
      · refine .seq fun _ => .seq fun next => ?_
        split_ifs
        · exact .next hdone
        · exact (hR.primary _).bind fun e he => .next (.cons he.1 hdone)
      · exact .last
  have hloop : ∀ pos isAsync, text.Marks pos → Yields text (loop pos isAsync) (·.Formed text) := by
    intro pos isAsync hpos
    refine .seq fun _ => .seq fun _ => ?_
    refine (hR.primary _).bind fun first hfirst =>
      (Yields.iterate (.singleton hfirst.1) hstep).bind ?_
    rintro ⟨items, comma, ended⟩ hitems
    dsimp only
    split
    · exact .failure
    · next target htarget =>
      refine .seq fun _ => .seq fun _ => ?_
      exact (hR.formed _ _).bind fun iterable hiterable => .seq fun _ =>
        .pure (.loop hpos (placed_clauseTarget (forall_mem_reverse hitems) htarget) hiterable)
  refine .seq fun next => ?_
  split
  · exact .atPlace (fun pos hpos => (hloop pos false hpos).bind fun c hc => .next hc) fun _ =>
      (demands_expectWord _ _).bind.bind
  · exact .atPlace (fun pos hpos => .seq fun _ => (hloop pos true hpos).bind fun c hc => .next hc)
      fun _ => (demands_skip (by decide)).bind
  · exact .seq fun _ => .seq fun _ => (hR.formed _ _).bind fun condition h =>
      .next (.guard h)
  · exact .last

theorem yields_clauses : Yields text (clauses R) fun found => ∀ c ∈ found, c.Formed text := by
  refine .bind (.iterate (P := fun done => ∀ c ∈ done, c.Formed text) nofun ?_) fun done hdone =>
    .pure (forall_mem_reverse hdone)
  intro done hdone
  refine yields_clause?.bind fun found hfound => ?_
  cases found with
  | none => exact .last
  | some c => exact .next (List.forall_mem_cons.mpr ⟨hfound c rfl, hdone⟩)

theorem yields_wideSplat (f : Follow) : Yields text (wideSplat R f) (·.Formed text) := by
  refine .ofPoints fun s hs => .position <| .rest ?_
  refine Yields.atPoint ?_ hs
  split_ifs with hstar
  · have hpos := hs.marks (Token.ne_nil_of_operator (eq_of_beq hstar) (by decide))
    exact .seq fun _ => .seq fun _ => (hR.formed _ _).bind fun e he =>
      .pure (he.splat hpos)
  · exact .failure

theorem yields_parenthesizedSplat :
    Yields text (parenthesizedSplat R) fun found => text.Marks found.1 ∧ found.2.Formed text := by
  refine .ofPoints fun s hs => .position <| .rest ?_
  refine Yields.atPoint ?_ hs
  split_ifs with hparen
  · have hpos := hs.marks (Token.ne_nil_of_operator (eq_of_beq hparen) (by decide))
    refine .seq fun _ => .seq fun _ => .seq fun cs => ?_
    split_ifs
    · refine .seq fun isOperand => ?_
      split_ifs
      · exact .failure
      · exact (yields_wideSplat _).bind fun e he => .seq fun _ => .pure ⟨hpos, he⟩
    · exact .failure
  · exact .failure

theorem yields_element (f : Follow) :
    Yields text (element R f) fun found => found.1.Formed text := by
  refine .seq fun cs => ?_
  split_ifs
  · exact (yields_yieldExpression f).bind fun e he => .pure he
  · exact .orElse ((hR.formed _ _).bind fun e he => .pure he)
      ((yields_wideSplat f).bind fun e he => .pure he)
  · exact .orElse (yields_parenthesizedSplat.bind fun ⟨pos, e⟩ he => .pure (.foreign he.1))
      ((hR.formed _ _).bind fun e he => .pure he)
  · exact (hR.formed _ _).bind fun e he => .pure he

theorem yields_moreElements (closing : String) (hfirst : first.Formed text) :
    Yields text (moreElements R closing first) fun found => AllFormed text found.1 := by
  refine .bind (.iterate (P := fun acc => AllFormed text acc.1) (.singleton hfirst) ?_) ?_
  · rintro ⟨done, comma, ended⟩ hdone
    exact yields_listStep hdone hdone
      ((yields_element _).bind fun ⟨e, form⟩ he => .next (.cons he hdone))
  · rintro ⟨done, comma, ended⟩ hdone
    exact .pure (forall_mem_reverse hdone)

end Displays

instance (f : Follow) : Reads text (clauseAhead f) := by
  refine .seq fun next => ?_
  cases next <;> dsimp only <;> infer_instance

section Brackets

variable [hR : R.Forms]

theorem yields_parenthesized : Yields text (parenthesized R) (UnitFormed text) := by
  refine .atPlace (fun pos hpos => ?_) fun _ => (demands_skip (by decide)).bind
  refine .seq fun _ => .seq fun _ => .seq fun cs => ?_
  split_ifs
  · exact .seq fun _ => .pure ⟨.sequence hpos nofun, rfl⟩
  · refine (yields_element _).bind fun ⟨first, form⟩ hfirst => ?_
    refine .seq fun next => ?_
    split_ifs
    · exact yields_clauses.bind fun cs hcs => .seq fun _ =>
        .pure ⟨.comprehension hpos hfirst hcs, rfl⟩
    · refine (yields_moreElements _ hfirst).bind fun ⟨items, comma⟩ hitems => ?_
      dsimp only
      split
      · exact .pure ⟨(hitems _ List.mem_cons_self).paren hpos, rfl⟩
      · exact .pure ⟨(hitems _ List.mem_cons_self).paren hpos, rfl⟩
      · exact .pure ⟨.sequence hpos hitems, rfl⟩

theorem yields_listDisplay : Yields text (listDisplay R) (UnitFormed text) := by
  refine .atPlace (fun pos hpos => ?_) fun _ => (demands_skip (by decide)).bind
  refine .seq fun _ => .seq fun _ => .seq fun cs => ?_
  split_ifs
  · exact .seq fun _ => .pure ⟨.sequence hpos nofun, rfl⟩
  · refine (yields_element _).bind fun ⟨first, form⟩ hfirst => .seq fun next => ?_
    split_ifs
    · exact yields_clauses.bind fun cs hcs => .seq fun _ =>
        .pure ⟨.comprehension hpos hfirst hcs, rfl⟩
    · exact (yields_moreElements _ hfirst).bind fun ⟨items, comma⟩ hitems =>
        .pure ⟨.sequence hpos hitems, rfl⟩

theorem yields_entry : Yields text (entry R) (·.Formed text) := by
  refine .seq fun cs => ?_
  split_ifs
  · exact .seq fun _ => .seq fun _ => (hR.formed _ _).bind fun e he => .pure (.splat he)
  · exact (hR.formed _ _).bind fun key hkey => .seq fun _ => .seq fun _ =>
      (hR.formed _ _).bind fun value hvalue => .pure (.pair hkey hvalue)

theorem yields_moreEntries {first : Entry} (hfirst : first.Formed text) :
    Yields text (moreEntries R first) fun found => ∀ e ∈ found, e.Formed text := by
  refine .bind
    (.iterate (P := fun acc => ∀ e ∈ acc.1, Entry.Formed text e) (by simpa using hfirst) ?_) ?_
  · rintro ⟨done, ended⟩ hdone
    exact yields_listStep hdone hdone
      (yields_entry.bind fun e he => .next (List.forall_mem_cons.mpr ⟨he, hdone⟩))
  · rintro ⟨done, ended⟩ hdone
    exact .pure (forall_mem_reverse hdone)

theorem yields_braceDisplay : Yields text (braceDisplay R) (UnitFormed text) := by
  refine .atPlace (fun pos hpos => ?_) fun _ => (demands_skip (by decide)).bind
  refine .seq fun _ => .seq fun _ => .seq fun cs => ?_
  split
  · exact .seq fun _ => .pure ⟨.dictionary hpos nofun, rfl⟩
  · exact .seq fun _ => .seq fun _ => .pure ⟨.dictionary hpos nofun, rfl⟩
  · exact yields_entry.bind fun first hfirst =>
      (yields_moreEntries hfirst).bind fun entries hentries =>
      .pure ⟨.dictionary hpos hentries, rfl⟩
  · refine (yields_element _).bind ?_
    rintro ⟨first, form⟩ hfirst
    refine .seq fun next => ?_
    split_ifs
    · refine .seq fun _ => .seq fun _ => (hR.formed _ _).bind fun value hvalue =>
        .seq fun next => ?_
      split_ifs
      · exact yields_clauses.bind fun cs hcs => .seq fun _ =>
          .pure ⟨.dictComprehension hpos hfirst hvalue hcs, rfl⟩
      · exact (yields_moreEntries (.pair hfirst hvalue)).bind fun entries hentries =>
          .pure ⟨.dictionary hpos hentries, rfl⟩
    · refine .seq fun next => ?_
      split_ifs
      · exact yields_clauses.bind fun cs hcs => .seq fun _ =>
          .pure ⟨.comprehension hpos hfirst hcs, rfl⟩
      · refine (yields_moreElements _ hfirst).bind ?_
        rintro ⟨items, comma⟩ hitems
        exact .pure ⟨.sequence hpos hitems, rfl⟩

end Brackets

/-! ## Operands -/

section Operands

variable [hR : R.Forms]

theorem yields_atom (f : Follow) : Yields text (atom R f) (UnitFormed text) := by
  refine .ofPoints fun s hs => .rest <| .position ?_
  refine Yields.atPoint ?_ hs
  split_ifs
  · exact yields_strings f
  · cases hword : Token.word? s.rest with
    | some w =>
      have hpos := hs.marks (Token.ne_nil_of_word? hword)
      refine .seq fun _ => ?_
      split
      · exact .pure ⟨.constant hpos, rfl⟩
      · exact .pure ⟨.constant hpos, rfl⟩
      · exact .pure ⟨.constant hpos, rfl⟩
      · exact .pure ⟨.name hpos (Token.isWord_of_word? hword), rfl⟩
    | none =>
      dsimp only
      split
      · next hnumber =>
        exact .seq fun _ => .pure ⟨.number (hs.marks (Token.ne_nil_of_number? hnumber)), rfl⟩
      · split
        · exact yields_parenthesized
        · exact yields_listDisplay
        · exact yields_braceDisplay
        · next hdots =>
          exact .seq fun _ =>
            .pure ⟨.foreign (hs.marks (Token.ne_nil_of_operator hdots (by decide))), rfl⟩
        · exact .failure

theorem yields_bound? : Yields text (bound? R) (OptionalFormed text) := by
  refine .seq fun _ => .seq fun cs => ?_
  split
  · exact .pure .none
  · exact .pure .none
  · exact .pure .none
  · exact (hR.formed _ _).bind fun e he => .pure (.some he)

theorem yields_index : Yields text (index R) (·.Formed text) := by
  refine .seq fun cs => ?_
  extract_lets afterLower
  have hafterLower : ∀ lower, (∀ e ∈ lower, e.Formed text) →
      Yields text (afterLower lower) (·.Formed text) := by
    intro lower hlower
    have hoptional : OptionalFormed text lower := by
      cases lower with
      | none => exact .none
      | some e => exact .some (hlower e rfl)
    refine .seq fun next => ?_
    split_ifs
    · refine .seq fun _ => yields_bound?.bind fun upper hupper =>
        .seq fun next => ?_
      split_ifs
      · exact .seq fun _ => yields_bound?.bind fun step hstep =>
          .pure (.slice hoptional hupper hstep)
      · exact .pure (.slice hoptional hupper .none)
    · cases lower with
      | some e => exact .pure (.item (hlower e rfl))
      | none => exact .failure
  split_ifs
  · exact Yields.last.bind hafterLower
  · refine ((hR.formed _ _).map fun e he => ?_).bind hafterLower
    rintro _ ⟨⟩
    exact he

theorem yields_indices : Yields text (indices R) fun found => ∀ i ∈ found, i.Formed text := by
  refine .seq fun _ => .seq fun _ => yields_index.bind fun first hfirst => ?_
  refine .bind
    (.iterate (P := fun acc => ∀ i ∈ acc.1, Index.Formed text i) (by simpa using hfirst) ?_) ?_
  · rintro ⟨done, ended⟩ hdone
    exact yields_listStep hdone hdone
      (yields_index.bind fun i hi => .next (List.forall_mem_cons.mpr ⟨hi, hdone⟩))
  · rintro ⟨done, ended⟩ hdone
    exact .pure (forall_mem_reverse hdone)

end Operands

theorem yields_keywordName : Yields text keywordName fun found => text.Marks found.1 := by
  refine yields_wordPlace.bind fun ⟨pos, w⟩ hpos => ?_
  dsimp only
  split_ifs
  · exact .failure
  · exact .seq fun _ => .pure hpos

section Calls

variable [hR : R.Forms]

theorem yields_argument (f : Follow) :
    Yields text (argument R f) fun found => found.1.Formed text := by
  have hplain :
      Yields text (do return (.positional (← R.expression {} f), true) : Parser (Argument × Bool))
      fun found => found.1.Formed text :=
    (hR.formed _ _).bind fun e he => .pure (.positional he)
  refine .ofPoints fun s hs => .rest <| .position ?_
  refine Yields.atPoint ?_ hs
  split
  · next hstars =>
    have hpos := hs.marks (Token.ne_nil_of_operator hstars (by decide))
    exact .seq fun _ => .seq fun _ => .seq fun _ =>
      .pure (.keywordSplat hpos)
  · exact hplain.orElse ((yields_wideSplat f).bind fun e he => .pure (.positional he))
  · refine .orElse ?_ hplain
    exact yields_parenthesizedSplat.bind fun ⟨pos, e⟩ he =>
      .pure (Argument.Formed.positional (he.2.paren he.1))
  · refine .orElse (yields_keywordName.bind fun ⟨pos, name⟩ hpos => .seq fun _ => ?_) hplain
    exact (hR.formed _ _).bind fun e he => .pure (.keyword hpos he)

theorem yields_arguments (generators : Bool) :
    Yields text (arguments R generators) fun found => ∀ a ∈ found, a.Formed text := by
  refine .atPlace (fun pos hpos => ?_) fun _ => (demands_skip (by decide)).bind
  refine .seq fun _ => .seq fun _ => .seq fun cs => ?_
  split
  · exact .seq fun _ => .pure nofun
  · exact .seq fun _ => .seq fun _ => .pure nofun
  · refine (yields_argument _).bind fun ⟨first, plain⟩ hfirst => .seq fun next => ?_
    split_ifs
    · cases first with
      | positional body =>
        refine yields_clauses.bind fun cs hcs => .seq fun _ => .pure ?_
        have hcomprehension : (Expr.comprehension pos .generator body cs).Formed text :=
          .comprehension hpos hfirst.value hcs
        simpa using Argument.Formed.positional hcomprehension
      | keyword | keywordSplat => exact .failure
    · refine .bind
        (.iterate (P := fun acc => ∀ a ∈ acc.1, Argument.Formed text a) (by simpa using hfirst) ?_)
        ?_
      · rintro ⟨done, ended⟩ hdone
        exact yields_listStep hdone hdone
          ((yields_argument _).bind fun ⟨a, _⟩ ha => .next (List.forall_mem_cons.mpr ⟨ha, hdone⟩))
      · rintro ⟨done, ended⟩ hdone
        exact .pure (forall_mem_reverse hdone)

theorem yields_postfixStep (f : Follow) (he : UnitFormed text e) :
    YieldsStep text (postfixStep R f e) (UnitFormed text) := by
  refine .seq fun next => ?_
  split
  · exact .seq fun _ => .seq fun _ => yields_anyWord.bind fun ⟨_, key⟩ hkey =>
      .next ⟨he.1.member hkey, rfl⟩
  · exact yields_indices.bind fun is his => .next ⟨he.1.subscript his, rfl⟩
  · exact (yields_arguments _).bind fun as has => .next ⟨he.1.call he.2 has, rfl⟩
  · exact .last

theorem yields_postfixed (f : Follow) (he : UnitFormed text e) :
    Yields text (postfixed R f e) (UnitFormed text) :=
  .iterate he fun _ h => yields_postfixStep f h

theorem yields_narrowSplat (f : Follow) : Yields text (narrowSplat R f) (UnitFormed text) := by
  refine .atPlace (fun pos hpos => ?_) fun _ => (demands_skip (by decide)).bind
  refine .seq fun _ => .seq fun _ => .seq fun cs => ?_
  cases hword : if Token.startsString cs then none else Token.word? cs with
  | some w =>
    have hw : Identifier.IsWord w := by
      split_ifs at hword
      exact Token.isWord_of_word? hword
    dsimp only
    split_ifs
    · exact .failure
    · exact yields_wordPlace.bind fun ⟨namePos, _⟩ hname =>
        .pure ⟨.splat hpos (.name hname hw), rfl⟩
  | none =>
    refine (yields_atom f).bind fun first hfirst => ?_
    refine .bind (.iterate (P := fun acc => UnitFormed text acc.1) hfirst ?_) ?_
    · rintro ⟨e, ended⟩ he
      dsimp only
      split_ifs
      · exact .last
      · refine (yields_postfixStep f he).bind fun found hfound => ?_
        split
        · exact .next (hfound _ rfl)
        · exact .next (hfound _ rfl)
        · exact .last
    · rintro ⟨e, found⟩ he
      dsimp only
      split_ifs
      · exact .pure ⟨he.1.splat hpos, rfl⟩
      · exact .failure

theorem yields_primary (f : Follow) : Yields text (primary R f) (UnitFormed text) := by
  refine .seq fun cs => ?_
  split_ifs
  · exact (yields_narrowSplat f).bind fun e he => yields_postfixed f he
  · exact (yields_atom f).bind fun e he => yields_postfixed f he

theorem yields_awaited (f : Follow) : Yields text (awaited R f) (OperandFormed text) := by
  refine yields_placedWord.bind fun ⟨pos, w⟩ hw => .seq fun next => ?_
  extract_lets afterChoice
  have hafterChoice : ∀ b, Yields text (afterChoice b) (OperandFormed text) := by
    intro b
    dsimp only [afterChoice]
    split_ifs
    · exact (hR.operand _ _).bind fun e he => .pure ⟨he.1.await hw.1, Nat.le_of_ble_eq_true rfl⟩
    · exact (yields_postfixed f ⟨.name hw.1 hw.2, rfl⟩).mono fun _ h => h.operand
  split
  · exact .seq hafterChoice
  · exact .seq fun cs => .seq hafterChoice

theorem yields_signed (f : Follow) : Yields text (signed R f) (OperandFormed text) := by
  refine .ofPoints fun s hs => .rest <| .position ?_
  refine Yields.atPoint ?_ hs
  have hsigned : ∀ op, op ≠ UnaryOp.not → s.rest ≠ [] → Yields text (do
      advance 1
      toOperand false
      return .unary s.pos op (← R.operand 22 f)) (OperandFormed text) := by
    intro op hop hrest
    refine .seq fun _ => .seq fun _ => (hR.operand _ _).bind fun e he =>
      .pure ⟨he.1.unary (hs.marks hrest), ?_⟩
    cases op with
    | not => exact absurd rfl hop
    | invert | plus | minus => exact Nat.le_of_ble_eq_true rfl
  have hother :
      Yields text (if Token.word? s.rest == some "await" then awaited R f else primary R f)
      (OperandFormed text) := by
    split_ifs
    · exact yields_awaited f
    · exact (yields_primary f).mono fun _ h => h.operand
  split
  · next h => exact hsigned _ (by split <;> simp) (Token.ne_nil_of_operator h (by decide))
  · next h => exact hsigned _ (by split <;> simp) (Token.ne_nil_of_operator h (by decide))
  · next h => exact hsigned _ (by split <;> simp) (Token.ne_nil_of_operator h (by decide))
  · exact hother

theorem yields_operand (above : Nat) (f : Follow) :
    Yields text (operand R above f) (OperandFormed text) := by
  refine (yields_signed f).bind fun left hleft => .iterate hleft fun left hleft => ?_
  refine .seq fun next => ?_
  cases next with
  | stop | word => exact .last
  | operator op =>
    cases hop : BinaryOp.ofText? op with
    | none =>
      simp only [hop]
      exact .last
    | some op =>
      simp only [hop]
      by_cases htight : above < op.strength
      · rw [if_pos htight]
        exact .seq fun _ => .seq fun _ => (hR.operand _ _).bind fun right hright =>
          .next ⟨.binary hleft.1 hright.1 hleft.2 hright.2, op.lt_strength⟩
      · rw [if_neg htight]
        exact .last

end Calls

/-! ## Parameters -/

section Parameters

variable [hR : R.Forms]

theorem yields_parameter (isLambda : Bool) :
    YieldsStep text (parameter R isLambda) (·.Formed text) := by
  refine .ofPoints fun s hs => .position ?_
  extract_lets annotated mark
  refine .rest <| Yields.atPoint ?_ hs
  split
  · next hop =>
    have hpos := hs.marks (Token.ne_nil_of_operator hop (by decide))
    exact .seq fun _ => .seq fun _ => .seq fun _ => .seq fun _ => .next (.foreign hpos)
  · next hop =>
    have hpos := hs.marks (Token.ne_nil_of_operator hop (by decide))
    refine .seq fun _ => .seq fun next => ?_
    split
    · exact .seq fun _ => .seq fun _ => .next (.foreign hpos)
    · exact .next (.foreign hpos)
    · exact .next (.foreign hpos)
    · exact .next (.foreign hpos)
    · exact .failure
  · exact .seq fun _ => .last
  · next hop =>
    have hpos := hs.marks (Token.ne_nil_of_operator hop (by decide))
    have hmark : ∀ u, YieldsStep text (mark u) (·.Formed text) := fun _ => .next (.foreign hpos)
    refine .seq fun e => ?_
    split
    · refine .seq fun next => ?_
      split_ifs
      · exact .seq fun _ => .seq fun _ => .seq fun _ => hmark ()
      · exact hmark ()
    · exact .failure
  · refine .seq fun ⟨_, name⟩ => .seq fun _ => .seq fun next => ?_
    split_ifs
    · exact .seq fun _ => .seq fun _ => (hR.formed _ _).bind fun value hvalue =>
        .next (.withDefault hvalue)
    · exact .next .plain

theorem yields_parameters (isLambda : Bool) (closing : String) :
    Yields text (parameters R isLambda closing) fun found => ∀ p ∈ found, p.Formed text := by
  refine .seq fun next => ?_
  split_ifs
  · exact .seq fun _ => .pure nofun
  · refine .bind (.iterate (P := fun acc => ∀ p ∈ acc.1, Parameter.Formed text p) nofun ?_) ?_
    · rintro ⟨done, ended⟩ hdone
      dsimp -zeta only
      split_ifs
      · exact .last
      · refine (yields_parameter _).bind fun found hfound => ?_
        extract_lets more
        refine .seq fun next => ?_
        have hmore : ∀ p ∈ more, Parameter.Formed text p := by
          cases found with
          | none => exact hdone
          | some p => exact List.forall_mem_cons.mpr ⟨hfound p rfl, hdone⟩
        split_ifs
        · refine .seq fun _ => .seq fun next => ?_
          split_ifs
          · exact .seq fun _ => .next hmore
          · exact .next hmore
        · exact .seq fun _ => .next hmore
    · rintro ⟨done, ended⟩ hdone
      exact .pure (forall_mem_reverse hdone)

theorem yields_lambdaExpression (extent : Extent) (f : Follow) :
    Yields text (lambdaExpression R extent f) (UnitFormed text) :=
  yields_wordPlace.bind fun _ hpos => (yields_parameters _ _).bind fun _ hparameters =>
    .seq fun _ => (hR.formed _ _).bind fun _ hbody => .pure ⟨.lambda hpos hparameters hbody, rfl⟩

end Parameters

/-! ## Expressions -/

instance (f : Follow) : Reads text (comparisonAhead f) := by
  refine .seq fun next => ?_
  split
  · split <;> infer_instance
  all_goals infer_instance

section Expressions

variable [hR : R.Forms]

/-- An expression without loose operators, or that a prefix operator begins. -/
abbrev TightFormed (text : Passage) (e : Expr) : Prop := e.Formed text ∧ 13 < e.strength

theorem yields_comparison (f : Follow) : Yields text (comparison R f) (TightFormed text) := by
  refine (yields_operand 15 f).bind fun first hfirst =>
    .iterate ⟨hfirst.1, by omega⟩ fun left hleft => ?_
  refine .seq fun found => ?_
  cases found with
  | none => exact .last
  | some op =>
    exact .seq fun _ => (hR.operand _ _).bind fun right hright =>
      .next ⟨.comparison hleft.1 hright.1 hright.2, Nat.le_of_ble_eq_true rfl⟩

theorem yields_named (f : Follow) : Yields text (named R f) (TightFormed text) := by
  refine yields_get.bind fun s hs => yields_wordPlace.bind fun ⟨pos, w⟩ hpos =>
    .seq fun next => ?_
  split_ifs
  · exact .seq fun _ => .seq fun _ => .seq fun _ =>
      .pure ⟨.foreign hpos, Nat.le_of_ble_eq_true rfl⟩
  · have := Reads.set hs
    exact .seq fun _ => yields_comparison f

theorem yields_tight (extent : Extent) (f : Follow) :
    Yields text (tight R extent f) (TightFormed text) := by
  refine .ofPoints fun s hs => .rest <| .position ?_
  refine Yields.atPoint ?_ hs
  split
  · next hword =>
    have hpos := hs.marks (Token.ne_nil_of_keyword? hword)
    exact .seq fun _ => .seq fun _ => (hR.formed _ _).bind fun e he =>
      .pure ⟨he.unary hpos, Nat.le_of_ble_eq_true rfl⟩
  · exact (yields_lambdaExpression _ f).mono fun e he => ⟨he.1, by rw [he.2]; decide⟩
  · exact yields_named f
  · exact yields_comparison f

abbrev ExtentFormed (text : Passage) (extent : Extent) (e : Expr) : Prop :=
  e.Formed text ∧ min extent.above 13 < e.strength

theorem yields_looseStep (extent : Extent) (f : Follow) {left : Expr}
    (hleft : ExtentFormed text extent left) :
    YieldsStep text (looseStep R extent f left) (ExtentFormed text extent) := by
  refine .seq fun next => ?_
  split
  · split_ifs with habove
    · refine .seq fun _ => .seq fun _ => (hR.expression _ _).bind fun right hright =>
        .next ⟨.boolean hleft.1 hright.1 hright.2, ?_⟩
      show min extent.above 13 < 12
      omega
    · exact .last
  · split_ifs with habove
    · refine .seq fun _ => .seq fun _ => (hR.expression _ _).bind fun right hright =>
        .next ⟨.boolean hleft.1 hright.1 hright.2, ?_⟩
      show min extent.above 13 < 13
      omega
    · exact .last
  · split_ifs with habove
    · refine .seq fun _ => .seq fun _ => .seq fun _ =>
        .next ⟨.foreign hleft.1.placed.start, ?_⟩
      show min extent.above 13 < 24
      omega
    · exact .last
  · split_ifs with habove
    · refine .seq fun _ => .seq fun _ =>
        (hR.formed _ _).bind fun condition hcondition => .seq fun _ =>
        .seq fun _ =>
        (hR.formed _ _).bind fun alternative halternative =>
          .next ⟨.conditional hleft.1 hcondition halternative, ?_⟩
      show min extent.above 13 < 1
      omega
    · exact .last
  · exact .last

theorem yields_expression (extent : Extent) (f : Follow) :
    Yields text (expression R extent f) (ExtentFormed text extent) :=
  (yields_tight extent f).bind fun _ hleft =>
    .iterate ⟨hleft.1, by have := hleft.2; omega⟩ fun _ h => yields_looseStep extent f h

/-! ## Type hints -/

instance (constraints : Bool) (f : Follow) : Reads text (typeHint R constraints f) := by
  unfold typeHint
  dsimp only
  refine .seq fun _ => .iterate fun _ => .seq fun next => ?_
  split <;> infer_instance

end Expressions

instance forms_rules (depth : Nat) : (rules depth).Forms := by
  induction depth with
  | zero => exact ⟨fun _ _ => .failure, fun _ _ => .failure, fun _ => .failure, fun _ _ => .failure⟩
  | succ depth ih =>
    exact ⟨yields_expression, yields_operand, yields_primary,
      fun _ _ => inferInstanceAs (Reads _ (typeHint _ _ _))⟩

end ScriptCompiler.Grammar
