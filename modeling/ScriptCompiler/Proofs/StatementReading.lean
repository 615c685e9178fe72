import ScriptCompiler.Proofs.ExpressionReading

/-!
# Statements as they are read

The string tokens of a program were all read in its text, and its nodes stand at places of
characters there.
-/

namespace ScriptCompiler

structure Stmt.Formed (text : Passage) (s : Stmt) : Prop where
  strings : StringsIn text.chars s.strings
  placed : s.Placed text.Marks

abbrev BlockFormed (text : Passage) (body : List Stmt) : Prop := ∀ s ∈ body, s.Formed text

structure OtherwiseFormed (text : Passage) (otherwise : Option (List Stmt)) : Prop where
  strings : StringsIn text.chars (otherwiseStrings otherwise)
  placed : otherwisePlaced text.Marks otherwise

structure Branch.Formed (text : Passage) (b : Branch) : Prop where
  strings : StringsIn text.chars (branchStrings [b])
  placed : branchesPlaced text.Marks [b]

structure Target.Formed (text : Passage) (t : Target) : Prop where
  strings : StringsIn text.chars t.strings
  placed : t.Placed text.Marks

structure Assigned.Formed (text : Passage) (a : Assigned) : Prop where
  strings : StringsIn text.chars a.strings
  placed : a.Placed text.Marks

structure FunctionDef.Formed (text : Passage) (d : FunctionDef) : Prop where
  strings : StringsIn text.chars d.strings
  placed : (Stmt.function [] d).Placed text.Marks

structure ClassDef.Formed (text : Passage) (d : ClassDef) : Prop where
  strings : StringsIn text.chars (baseStrings d.bases ++ blockStrings d.body)
  placed : (Stmt.classDef [] d).Placed text.Marks

section Nodes

variable {text : Passage} {pos : Position}

theorem stringsIn_block {body : List Stmt} (h : BlockFormed text body) :
    StringsIn text.chars (blockStrings body) := by
  refine .ofList rfl (fun s rest => by simp [blockStrings]) fun s hs => ?_
  simpa [blockStrings] using (h s hs).strings

theorem BlockFormed.placed {body : List Stmt} (h : BlockFormed text body) :
    blockPlaced text.Marks body :=
  placed_block fun s hs => (h s hs).placed

theorem Stmt.Formed.foreign {kind : NodeKind} {first : Option Node} (hpos : text.Marks pos) :
    (Stmt.foreign pos kind first).Formed text :=
  ⟨.nil, hpos⟩

theorem Stmt.Formed.function {decorators : List Decorator} {d : FunctionDef}
    (hdecorators : decoratorsPlaced text.Marks decorators) (h : d.Formed text) :
    (Stmt.function decorators d).Formed text := by
  cases d
  exact ⟨h.strings, hdecorators, h.placed.2⟩

theorem Stmt.Formed.classDef {decorators : List Decorator} {d : ClassDef}
    (hdecorators : decoratorsPlaced text.Marks decorators) (h : d.Formed text) :
    (Stmt.classDef decorators d).Formed text := by
  cases d
  exact ⟨h.strings, hdecorators, h.placed.2⟩

end Nodes

namespace Grammar

open ScriptCompiler.Parser

set_option synthInstance.maxSize 65536

variable {R : Rules} {text : Passage}

/-! ## Expression statements -/

instance : Reads text statementEnds := by
  refine .seq fun next => ?_
  cases next <;> dsimp only <;> infer_instance

instance : Reads text lineGoesOn := by
  refine .seq fun g => ?_
  cases g <;> dsimp only <;> infer_instance

theorem yields_separated {α : Type} {P : α → Prop} (f : Follow) {item : Parser α}
    (hitem : Yields text item P) :
    Yields text (separated f item) fun found => ∀ a ∈ found, P a := by
  refine hitem.bind fun first hfirst => ?_
  refine .bind (.iterate (P := fun done => ∀ a ∈ done, P a) (by simpa using hfirst) ?_)
    fun done hdone =>
    .pure (forall_mem_reverse hdone)
  intro done hdone
  refine .seq fun next => ?_
  split_ifs
  · exact .seq fun _ => .seq fun _ => hitem.bind fun a ha =>
      .next (List.forall_mem_cons.mpr ⟨ha, hdone⟩)
  · exact .last

instance {α : Type} (f : Follow) (item : Parser α) [h : Reads text item] :
    Reads text (separated f item) :=
  (yields_separated f h.yields).reads

/-- A target holds what the expression that it was read as holds. -/
theorem formed_target {e : Expr} {t : Target} (he : e.Formed text) (h : target? e = some t) :
    t.Formed text := by
  refine ⟨?_, placed_target he.placed h⟩
  have hforeign : ∀ {α : Type} {x : Option α} {pos : Position} {kind : NodeKind},
      x.map (fun _ => Target.foreign pos kind) = some t → StringsIn text.chars t.strings := by
    intro α x pos kind hx
    obtain ⟨_, -, rfl⟩ := Option.map_eq_some_iff.mp hx
    exact .nil
  cases e with
  | name | member | subscript =>
    cases h
    exact he.strings
  | splat pos operand =>
    cases operand <;> cases h <;> exact .nil
  | paren pos inner => exact hforeign h
  | sequence pos form items =>
    cases form with
    | tuple | list => exact hforeign h
    | set | bare => cases h
  | _ => cases h

theorem formed_listTarget {items : List Expr} {comma : Bool} {t : Target}
    (hitems : AllFormed text items)
    (h : listTarget? items comma = some t) : t.Formed text := by
  unfold listTarget? at h
  split at h
  · exact formed_target (hitems _ List.mem_cons_self) h
  · obtain ⟨_, -, rfl⟩ := Option.map_eq_some_iff.mp h
    exact ⟨.nil, (hitems _ List.mem_cons_self).placed.start⟩
  · cases h

/-- The parts of what an expression statement can be. -/
def Reading.Formed (text : Passage) : Reading → Prop
  | .values items _ => SomeFormed text items
  | .assignment target right => target.Formed text ∧ right.Formed text
  | .augmented target _ value => target.Formed text ∧ value.Formed text

theorem Reading.Formed.value {r : Reading} (h : r.Formed text) : r.value.Formed text := by
  cases r with
  | values items comma => exact formed_collect h
  | assignment | augmented => exact .foreign h.1.placed.start

theorem Reading.Formed.assigned {r : Reading} (h : r.Formed text) : r.assigned.Formed text := by
  cases r with
  | values items comma => exact ⟨(formed_collect h).strings, (formed_collect h).placed⟩
  | assignment => exact ⟨.nil, trivial⟩
  | augmented => exact ⟨.nil, h.1.placed.start⟩

section Simple

variable [hR : R.Forms]

theorem yields_optionalExpressions (f : Follow) :
    Yields text (optionalExpressions R f) (OptionalFormed text) := by
  refine .seq fun goesOn => ?_
  split_ifs
  · refine .seq fun cs => ?_
    split_ifs
    · exact (yields_expressions f).bind fun ⟨items, comma⟩ hitems =>
        .pure (.some (formed_collect hitems))
    · exact .pure .none
  · exact .pure .none

theorem yields_reading (fuel : Nat) : Yields text (reading R fuel) (·.Formed text) := by
  induction fuel with
  | zero => exact .failure
  | succ fuel ih =>
    refine .seq fun cs => ?_
    split_ifs
    · exact (yields_yieldExpression _).bind fun e he => .pure (.singleton he)
    · refine (yields_expressions _).bind fun ⟨items, comma⟩ hitems => ?_
      dsimp -zeta only
      extract_lets right toTarget
      have hright : Yields text right (·.Formed text) := .seq fun _ => ih
      have htarget : Yields text toTarget (·.Formed text) := by
        dsimp only [toTarget]
        split
        · next t ht => exact .pure (formed_listTarget hitems.1 ht)
        · exact .failure
      refine .seq fun next => ?_
      split
      · exact htarget.bind fun t ht => .seq fun _ => hright.bind fun r hr => .pure ⟨ht, hr.assigned⟩
      · refine htarget.bind fun t ht => .seq fun _ => .seq fun _ =>
          .seq fun _ => .seq fun next => ?_
        split_ifs
        · exact .seq fun _ => hright.bind fun r hr => .pure ⟨ht, hr.assigned⟩
        · exact .pure ⟨ht, .nil, trivial⟩
      · split
        · exact htarget.bind fun t ht => .seq fun _ => hright.bind fun r hr => .pure ⟨ht, hr.value⟩
        · exact .pure hitems
      · exact .pure hitems

theorem yields_expressionStatement : Yields text (expressionStatement R) (·.Formed text) := by
  refine .seq fun pos => .seq fun cs => (yields_reading _).bind fun r hr => ?_
  cases r with
  | values items comma => exact .pure ⟨stringsIn_items hr.1, hr.1.placed⟩
  | assignment target right | augmented target op value =>
    exact .pure ⟨hr.1.strings.append hr.2.strings, ⟨hr.1.placed, hr.2.placed⟩⟩

/-! ## Simple statements -/

theorem yields_wholeExpressionStatement :
    Yields text (wholeExpressionStatement R) (·.Formed text) := by
  refine yields_expressionStatement.bind fun s hs => .seq fun ends => ?_
  split_ifs
  · exact .pure hs
  · exact .failure

theorem yields_printValues (ended : Bool) : Yields text (printValues R ended) (AllFormed text) := by
  unfold printValues
  extract_lets step afterFirst
  have hstep : ∀ acc : List Expr × Bool, AllFormed text acc.1 →
      YieldsStep text (step acc) fun acc =>
      AllFormed text acc.1 := by
    rintro ⟨done, ended⟩ hdone
    dsimp only [step]
    split_ifs
    · exact .last
    · refine .seq fun next => ?_
      split_ifs
      · refine .seq fun _ => .seq fun goesOn => ?_
        split_ifs
        · refine .seq fun cs => ?_
          split_ifs
          · exact (hR.formed _ _).bind fun e he => .next (.cons he hdone)
          · exact .next hdone
        · exact .next hdone
      · exact .last
  have hafterFirst :
      ∀ first, AllFormed text first → Yields text (afterFirst first) (AllFormed text) := by
    intro first hfirst
    refine .bind (.iterate (P := fun acc => AllFormed text acc.1) hfirst hstep) ?_
    rintro ⟨done, ended⟩ hdone
    exact .pure (forall_mem_reverse hdone)
  split_ifs
  · exact (Yields.pure nofun).bind hafterFirst
  · exact (hR.formed _ _).bind fun e he => hafterFirst _ (.singleton he)

theorem yields_printStatement : Yields text (printStatement R) (·.Formed text) := by
  refine yields_get.bind fun s hs => .seq fun _ => .seq fun next => ?_
  split_ifs
  · refine .atPlace (fun pos hpos => ?_) fun _ => (demands_skip (by decide)).bind
    refine .seq fun _ => .seq fun _ => .seq fun _ =>
      (yields_printValues _).bind fun values hvalues =>
        .pure ⟨stringsIn_items hvalues, ⟨?_, hvalues.placed⟩⟩
    rintro _ ⟨⟩
    exact hpos
  · have := Reads.set hs
    refine .seq fun _ => yields_wholeExpressionStatement.orElse ?_
    exact .seq fun _ => .seq fun _ => (yields_printValues _).bind
      fun values hvalues => .pure ⟨stringsIn_items hvalues, ⟨nofun, hvalues.placed⟩⟩

theorem yields_execStatement : Yields text (execStatement R) (·.Formed text) := by
  refine .ofPoints fun s hs => .get <| .demanding (demands_skip (by decide)).bind fun hrest => ?_
  have hpos := hs.marks hrest
  refine Yields.atPoint ?_ hs
  refine .seq fun _ => ?_
  have hexpression : Yields text (do set s; expressionStatement R) (·.Formed text) := by
    have := Reads.set hs
    exact .seq fun _ => yields_expressionStatement
  refine .seq fun next => ?_
  split
  · exact hexpression
  · refine .seq fun pos => .seq fun cs => ?_
    split_ifs
    · exact (yields_stringToken fun _ => yields_hole _).bind fun _ _ => .seq fun _ =>
        .pure (.foreign hpos)
    · split
      · split_ifs
        · exact hexpression
        · exact .seq fun _ => .seq fun _ => .pure (.foreign hpos)
      · exact hexpression

theorem yields_typeAlias : Yields text (typeAlias R) (·.Formed text) := by
  refine .atPlace (fun start hstart => ?_) fun _ => (demands_skip (by decide)).bind
  refine .seq fun _ => .seq fun _ => .seq fun pos => .seq fun _ => .seq fun _ =>
    .seq fun _ => .seq fun _ => .seq fun ends => ?_
  split_ifs
  · exact .pure (.foreign hstart)
  · exact .failure

end Simple

instance (f : Follow) : Reads text (dottedName f) := .seq fun _ => inferInstance

instance (f : Follow) : Reads text (imported f) := .seq fun _ => inferInstance

instance (f : Follow) : Reads text (importList f) := by
  refine .seq fun first => ?_
  extract_lets step
  have hstep : ∀ ended, Reads text (step ended) := by
    intro ended
    dsimp only [step]
    split_ifs
    · infer_instance
    · refine .seq fun next => ?_
      split_ifs
      · refine .seq fun _ => .seq fun g => ?_
        cases g <;> dsimp only <;> infer_instance
      · infer_instance
  infer_instance

instance : Reads text importedNames := by
  refine .seq fun _ => .seq fun cs => ?_
  split <;> infer_instance

theorem yields_fromImport : Yields text fromImport (·.Formed text) := by
  refine .atPlace (fun start hstart => ?_) fun _ => (demands_skip (by decide)).bind
  refine .seq fun _ => .seq fun _ => .seq fun pos =>
    .seq fun cs => ?_
  split_ifs
  · refine .seq fun _ => .seq fun _ => .seq fun first => ?_
    cases first with
    | some first => exact .pure (.foreign hstart)
    | none => exact .failure
  · refine .seq fun _ => .seq fun now => ?_
    extract_lets relative kind afterModule
    have hafterModule : ∀ u, Yields text (afterModule u) (·.Formed text) := fun _ =>
      .seq fun _ => .seq fun _ => .pure (.foreign hstart)
    refine .seq fun cs => ?_
    split_ifs
    · exact .seq hafterModule
    · exact hafterModule ()

theorem yields_outerNames (isGlobal : Bool) :
    Yields text (outerNames isGlobal) (·.Formed text) := by
  refine .seq fun ⟨pos, _⟩ => .seq fun _ => .seq fun first => ?_
  exact .seq fun names => .pure ⟨.nil, trivial⟩

section Lines

variable [hR : R.Forms]

theorem yields_simpleStatement : Yields text (simpleStatement R) (·.Formed text) := by
  refine .ofPoints fun s hs => .position <| .rest ?_
  refine Yields.atPoint ?_ hs
  have hmark {w : String}
      (h : (if Token.startsString s.rest then none else Token.word? s.rest) = some w) :
      text.Marks s.pos := hs.marks (Token.ne_nil_of_keyword? h)
  split
  · exact .seq fun _ => .pure ⟨.nil, trivial⟩
  · exact .seq fun _ => .pure ⟨.nil, trivial⟩
  · exact .seq fun _ => .pure ⟨.nil, trivial⟩
  · exact .seq fun _ => (yields_optionalExpressions _).bind fun value hvalue =>
      .pure ⟨hvalue.strings, hvalue.placed⟩
  · next h =>
    refine .seq fun _ => (yields_optionalExpressions _).bind fun value hvalue =>
      .seq fun next => ?_
    split_ifs
    · exact .seq fun _ => .seq fun _ => (hR.formed _ _).bind fun cause hcause =>
        .pure ⟨StringsIn.append hvalue.strings hcause.strings, ⟨hmark h, hvalue.placed⟩⟩
    · exact .pure ⟨StringsIn.append hvalue.strings .nil, ⟨hmark h, hvalue.placed⟩⟩
  · exact .seq fun _ => .seq fun _ => (yields_separated _ (hR.formed _ _)).bind
      fun conditions hconditions =>
      .pure ⟨stringsIn_items hconditions, AllFormed.placed hconditions⟩
  · next h =>
    exact .seq fun _ => .seq fun _ => (yields_expressions _).bind
      fun ⟨items, comma⟩ _ => .pure (.foreign (hmark h))
  · exact yields_outerNames true
  · exact yields_outerNames false
  · next h =>
    exact .seq fun _ => .seq fun _ => .seq fun _ =>
      .pure (.foreign (hmark h))
  · exact yields_fromImport
  · exact yields_printStatement
  · exact yields_execStatement
  · exact yields_typeAlias.orElse yields_expressionStatement
  · exact yields_expressionStatement

theorem yields_simpleLine : Yields text (simpleLine R) (BlockFormed text) := by
  refine yields_simpleStatement.bind fun first hfirst => ?_
  have hone : BlockFormed text [first] := List.forall_mem_singleton.mpr hfirst
  refine .bind (.iterate (P := fun acc => BlockFormed text acc.1) hone ?_) ?_
  · rintro ⟨done, ended⟩ hdone
    dsimp only
    split_ifs
    · exact .last
    · refine .seq fun next => ?_
      split
      · exact .last
      · refine .seq fun _ => .seq fun goesOn => ?_
        split_ifs
        · exact yields_simpleStatement.bind fun s hs => .next (List.forall_mem_cons.mpr ⟨hs, hdone⟩)
        · exact .next hdone
      · exact .failure
  · rintro ⟨done, ended⟩ hdone
    exact .pure (forall_mem_reverse hdone)

theorem yields_loopTarget : Yields text (loopTarget R) (·.Formed text) := by
  refine (hR.primary _).bind fun first hfirst => ?_
  refine .bind (.iterate (P := fun acc => AllFormed text acc.1) (.singleton hfirst.1) ?_) ?_
  · rintro ⟨done, comma, ended⟩ hdone
    dsimp only
    split_ifs
    · exact .last
    · refine .seq fun next => ?_
      split_ifs
      · refine .seq fun _ => .seq fun next => ?_
        split_ifs
        · exact .next hdone
        · exact (hR.primary _).bind fun e he => .next (.cons he.1 hdone)
      · exact .last
  · rintro ⟨items, comma, ended⟩ hitems
    dsimp only
    split
    · next t ht => exact .pure (formed_listTarget (forall_mem_reverse hitems) ht)
    · exact .failure

instance : Reads text (typeParameters R) := .seq fun _ => inferInstance

end Lines

/-! ## Compound statements -/

abbrev SuiteFormed (text : Passage) (s : Suite) : Prop := BlockFormed text s.body

instance (words : List String) : Reads text (nextClause words) := by
  refine .bind yields_get fun s hs => .seq fun g => ?_
  have := Reads.set hs
  cases g with
  | token =>
    refine .seq fun cs => ?_
    cases Token.word? cs <;> dsimp only <;> infer_instance
  | newline | indent | dedent => exact inferInstanceAs (Reads text (set s >>= _))

theorem yields_colonSuite {P : Suite → Prop} {suite : Parser Suite} (hsuite : Yields text suite P) :
    Yields text (colonSuite suite) P :=
  .seq fun _ => hsuite

instance {suite : Parser Suite} [h : Reads text suite] : Reads text (colonSuite suite) :=
  (yields_colonSuite h.yields).reads

theorem demands_arguments (R : Rules) (generators : Bool) : Demands (arguments R generators) := by
  exact .seq fun _ => (demands_skip (by decide)).bind

section Compound

variable {suite : Parser Suite} (hsuite : Yields text suite (SuiteFormed text))

section
include hsuite

theorem yields_elseClause :
    Yields text (elseClause suite) (OtherwiseFormed text) := by
  refine .seq fun found => ?_
  cases found with
  | some w => exact (yields_colonSuite hsuite).bind fun s hs => .pure ⟨stringsIn_block hs,
      BlockFormed.placed hs⟩
  | none => exact .pure ⟨.nil, trivial⟩

end

variable [hR : R.Forms]
include hsuite

theorem yields_ifStatement : Yields text (ifStatement R suite) (·.Formed text) := by
  refine .seq fun ⟨pos, _⟩ => .seq fun _ =>
    (hR.formed _ _).bind fun condition hcondition =>
      (yields_colonSuite hsuite).bind fun body hbody => ?_
  refine .bind (.iterate (P := fun done => ∀ b ∈ done, Branch.Formed text b) nofun ?_) ?_
  · intro done hdone
    refine .seq fun found => ?_
    cases found with
    | some w =>
      refine .seq fun _ => (hR.formed _ _).bind fun condition hcondition =>
        (yields_colonSuite hsuite).bind fun body hbody =>
          .next (List.forall_mem_cons.mpr ⟨⟨?_, ?_⟩, hdone⟩)
      · simpa [branchStrings] using hcondition.strings.append (stringsIn_block hbody)
      · exact ⟨⟨hcondition.placed, BlockFormed.placed hbody⟩, trivial⟩
    | none => exact .last
  · intro more hmore
    refine (yields_elseClause hsuite).bind fun otherwise hotherwise => .pure ?_
    have hbranches : StringsIn text.chars (branchStrings more.reverse) :=
      .ofList rfl (fun b rest => by cases b; simp [branchStrings]) fun b hb =>
        (forall_mem_reverse hmore b hb).strings
    have hplaces : branchesPlaced text.Marks more.reverse :=
      placed_branches fun b hb => (forall_mem_reverse hmore b hb).placed
    exact ⟨hcondition.strings.append
      (.append (stringsIn_block hbody) (hbranches.append hotherwise.strings)),
      ⟨hcondition.placed, BlockFormed.placed hbody, hplaces, hotherwise.placed⟩⟩

theorem yields_forStatement {pos : Position} (hpos : text.Marks pos) (isAsync : Bool) :
    Yields text (forStatement R suite pos isAsync) (·.Formed text) := by
  refine .seq fun _ => .seq fun _ => yields_loopTarget.bind fun target htarget =>
    .seq fun _ => .seq fun _ => (yields_expressions _).bind
    fun ⟨items, comma⟩ hitems => (yields_colonSuite hsuite).bind fun body hbody =>
    (yields_elseClause hsuite).bind fun otherwise hotherwise => .pure ⟨?_, ?_⟩
  · exact htarget.strings.append
      ((formed_collect hitems).strings.append (.append (stringsIn_block hbody) hotherwise.strings))
  · exact ⟨hpos, htarget.placed, (formed_collect hitems).placed, BlockFormed.placed hbody,
      hotherwise.placed⟩

theorem yields_whileStatement : Yields text (whileStatement R suite) (·.Formed text) := by
  refine .seq fun ⟨pos, _⟩ => .seq fun _ =>
    (hR.formed _ _).bind fun condition hcondition =>
      (yields_colonSuite hsuite).bind fun body hbody =>
    (yields_elseClause hsuite).bind fun otherwise hotherwise => .pure ⟨?_, ?_⟩
  · exact hcondition.strings.append (.append (stringsIn_block hbody) hotherwise.strings)
  · exact ⟨hcondition.placed, BlockFormed.placed hbody, hotherwise.placed⟩

omit hsuite

theorem yields_withStatement [Reads text suite] {pos : Position} (hpos : text.Marks pos) :
    Yields text (withStatement R suite pos) (·.Formed text) :=
  .seq fun _ => .seq fun _ => .seq fun _ => .seq fun _ => .seq fun _ => .pure (.foreign hpos)

instance [Reads text suite] (mustName : Bool) : Reads text (handler R suite mustName) := by
  refine .seq fun _ => .seq fun cs => ?_
  extract_lets body
  have hbody : ∀ u, Reads text (body u) := fun _ => .seq fun _ => inferInstance
  split_ifs
  · refine .seq fun _ => .seq fun next => ?_
    split <;> infer_instance
  · exact hbody ()

include hsuite

theorem yields_tryStatement : Yields text (tryStatement R suite) (·.Formed text) := by
  have := hsuite.reads
  have := (yields_elseClause hsuite).reads
  refine yields_wordPlace.bind fun ⟨pos, _⟩ hpos => .seq fun body => ?_
  extract_lets groupMark finally? afterHandlers
  have hafterHandlers : ∀ u, Yields text (afterHandlers u) (·.Formed text) :=
    fun _ => .pure (.foreign hpos)
  refine .seq fun found => ?_
  split
  · exact .seq hafterHandlers
  · refine .seq fun groups => .seq fun _ => ?_
    extract_lets step
    have hhandlers : Reads text (iterate step ()) := by
      refine .iterate fun _ => .seq fun found => ?_
      cases found <;> dsimp only <;> infer_instance
    refine .seq fun _ => .seq fun _ => .seq fun last => ?_
    cases last with
    | some w => exact .seq hafterHandlers
    | none => exact hafterHandlers ()
  · exact .seq hafterHandlers

theorem yields_functionDefinition {pos : Position} (hpos : text.Marks pos) (isAsync : Bool) :
    Yields text (functionDefinition R suite pos isAsync) (·.Formed text) := by
  refine .seq fun _ => .seq fun _ => yields_anyWord.bind fun ⟨namePos, name⟩ hname =>
    .seq fun _ => .seq fun _ => (yields_parameters _ _).bind
    fun params hparams => .seq fun next => ?_
  extract_lets afterHint
  have hafterHint : ∀ u, Yields text (afterHint u) (·.Formed text) := by
    intro u
    refine (yields_colonSuite hsuite).bind fun body hbody => .pure ⟨?_, ?_⟩
    · exact (stringsIn_parameters hparams).append (stringsIn_block hbody)
    · exact ⟨nofun, hname, hpos, placed_parameters fun p hp => (hparams p hp).placed,
        BlockFormed.placed hbody⟩
  split_ifs
  · exact .seq fun _ => .seq fun _ => .seq hafterHint
  · exact hafterHint ()

/-- The bases of a class as the grammar forms them. -/
abbrev BasesFormed (text : Passage) (bases : Option (Position × List Argument)) : Prop :=
  StringsIn text.chars (baseStrings bases) ∧ basesPlaced text.Marks bases

theorem yields_classDefinition : Yields text (classDefinition R suite) (·.Formed text) := by
  refine .seq fun keyword => .seq fun _ => yields_anyWord.bind fun name hname => .seq fun _ =>
    .seq fun next => ?_
  extract_lets afterBases
  have hafterBases :
      ∀ bases, BasesFormed text bases → Yields text (afterBases bases) (·.Formed text) := by
    intro bases hbases
    refine (yields_colonSuite hsuite).bind fun body hbody => .pure ⟨?_, ?_⟩
    · exact hbases.1.append (stringsIn_block hbody)
    · exact ⟨nofun, hname, hbases.2, BlockFormed.placed hbody⟩
  split_ifs
  · refine .atPlace (fun bracket hbracket => ?_) fun _ => (demands_arguments R _).bind
    refine (yields_arguments _).bind fun arguments harguments => ?_
    exact .bind (P := BasesFormed text)
      (.pure ⟨stringsIn_arguments harguments, hbracket, placed_arguments fun a ha =>
      (harguments a ha).placed⟩) hafterBases
  · exact .bind (P := BasesFormed text) (.pure ⟨.nil, trivial⟩) hafterBases

theorem yields_decorated : Yields text (decorated R suite) (·.Formed text) := by
  unfold decorated
  extract_lets step
  have hstep : ∀ acc : List Decorator × Bool, decoratorsPlaced text.Marks acc.1 →
      YieldsStep text (step acc) fun acc => decoratorsPlaced text.Marks acc.1 := by
    intro acc hacc
    refine .ofPoints fun s hs => .position <| .rest ?_
    refine Yields.atPoint ?_ hs
    split_ifs with hmark
    · have hpos := hs.marks (Token.ne_nil_of_operator (eq_of_beq hmark) (by decide))
      refine .seq fun _ => .seq fun _ => .seq fun e =>
        .seq fun g => ?_
      cases g with
      | newline => exact .seq fun _ => .next (List.forall_mem_cons.mpr ⟨hpos, hacc⟩)
      | token | indent | dedent => exact .failure
    · exact .last
  refine (Yields.iterate nofun hstep).bind fun ⟨done, _⟩ hdone => .ofPoints fun s hs =>
    .position <| .rest ?_
  refine Yields.atPoint ?_ hs
  have hdecorators : decoratorsPlaced text.Marks done.reverse := forall_mem_reverse hdone
  split
  · next hword =>
    have hpos := hs.marks (Token.ne_nil_of_word? hword)
    exact (yields_functionDefinition hsuite hpos _).bind fun d hd =>
      .pure (.function hdecorators hd)
  · next hword =>
    have hpos := hs.marks (Token.ne_nil_of_word? hword)
    refine .seq fun _ => .seq fun _ => .seq fun cs => ?_
    split_ifs
    · exact (yields_functionDefinition hsuite hpos _).bind fun d hd =>
        .pure (.function hdecorators hd)
    · exact .failure
  · exact (yields_classDefinition hsuite).bind fun d hd => .pure (.classDef hdecorators hd)
  · exact .failure

end Compound

/-! ## Patterns -/

section Patterns

variable [hR : R.Forms]

instance (depth : Nat) (f : Follow) : Reads text (casePattern R depth f) := by
  induction depth generalizing f with
  | zero => exact .failure
  | succ depth ih =>
    unfold casePattern
    extract_lets inner nested items star digits numeral single step
    have hnested : Reads text nested := ih inner
    have hitems : ∀ closing item [Reads text item], Reads text (items closing item) := by
      intro closing item hitem
      dsimp only [items]
      infer_instance
    have hstar : Reads text star := .seq fun _ => inferInstance
    have hdigits : Reads text (digits ()) := by
      refine .seq fun cs => ?_
      split <;> infer_instance
    have hnumeral : Reads text numeral := .seq fun cs => inferInstance
    have hsingle : Reads text single := by
      refine .seq fun cs => ?_
      split_ifs
      · infer_instance
      · refine .seq fun _ => .seq fun next => ?_
        split <;> infer_instance
      · split
        · infer_instance
        · infer_instance
        · infer_instance
        · infer_instance
        · infer_instance
        · refine .seq fun _ => .seq fun next => ?_
          split <;> infer_instance
    refine .seq fun _ => .iterate fun _ => .seq fun next => ?_
    split <;> infer_instance

instance {suite : Parser Suite} [Reads text suite] : Reads text (cases R suite) := by
  refine .seq fun g => ?_
  cases g with
  | indent =>
    refine .iterate fun _ => .seq fun g => ?_
    cases g <;> dsimp only <;> infer_instance
  | newline => exact inferInstanceAs (Reads text (pure ()))
  | token | dedent => exact .failure

theorem yields_matchStatement {suite : Parser Suite} [Reads text suite] :
    Yields text (matchStatement R suite) (·.Formed text) :=
  yields_wordPlace.bind fun _ hpos => .seq fun _ => .seq fun _ => .seq fun _ => .seq fun _ =>
    .pure (.foreign hpos)

end Patterns

/-! ## Blocks -/

/-- Statements in front of those that were read before. -/
theorem blockFormed_reverse_append {found done : List Stmt} (hfound : BlockFormed text found)
    (hdone : BlockFormed text done) : BlockFormed text (found.reverse ++ done) :=
  List.forall_mem_append.mpr ⟨forall_mem_reverse hfound, hdone⟩

section Blocks

variable [hR : R.Forms]

theorem yields_statements {suite : Parser Suite} (hsuite : Yields text suite (SuiteFormed text)) :
    Yields text (statements R suite) (BlockFormed text) := by
  refine .ofPoints fun s hs => .rest <| .position ?_
  extract_lets one
  refine Yields.atPoint ?_ hs
  have hmark {w : String}
      (h : (if Token.startsString s.rest then none else Token.word? s.rest) = some w) :
      text.Marks s.pos := hs.marks (Token.ne_nil_of_keyword? h)
  have hone : ∀ {p : Parser Stmt}, Yields text p (·.Formed text) →
      Yields text (one p) (BlockFormed text) :=
    fun hp => hp.bind fun s hs => .pure (List.forall_mem_singleton.mpr hs)
  have hfunction : ∀ isAsync, text.Marks s.pos →
      Yields text (do return Stmt.function [] (← functionDefinition R suite s.pos isAsync))
      (·.Formed text) :=
    fun _ hpos => (yields_functionDefinition hsuite hpos _).bind fun d hd =>
      .pure (.function nofun hd)
  have := hsuite.reads
  by_cases hdecorated : (Token.operator s.rest == "@") = true
  · rw [if_pos hdecorated]
    exact hone (yields_decorated hsuite)
  · rw [if_neg hdecorated]
    split
    · exact hone (yields_ifStatement hsuite)
    · next h => exact hone (yields_forStatement hsuite (hmark h) _)
    · exact hone (yields_whileStatement hsuite)
    · exact hone (yields_tryStatement hsuite)
    · next h => exact hone (yields_withStatement (hmark h))
    · next h => exact hone (hfunction _ (hmark h))
    · exact hone ((yields_classDefinition hsuite).bind fun d hd => .pure (.classDef nofun hd))
    · exact yields_simpleLine.orElse (hone yields_matchStatement)
    · next h =>
      refine yields_get.bind fun s hs => .seq fun _ => .seq fun _ => .seq fun cs => ?_
      have := Reads.set hs
      split
      · exact hone (hfunction _ (hmark h))
      · exact hone (yields_forStatement hsuite (hmark h) _)
      · exact hone (yields_withStatement (hmark h))
      · exact .seq fun _ => yields_simpleLine
    · exact yields_simpleLine

theorem yields_block {suite : Parser Suite} (hsuite : Yields text suite (SuiteFormed text)) :
    Yields text (block R suite) (BlockFormed text) := by
  refine .bind (.iterate (P := BlockFormed text) nofun ?_) fun done hdone =>
    .pure (forall_mem_reverse hdone)
  intro done hdone
  refine .seq fun g => ?_
  cases g with
  | token =>
    exact (yields_statements hsuite).bind fun found hfound =>
      .next (blockFormed_reverse_append hfound hdone)
  | newline | indent | dedent => exact .last

theorem yields_suite (depth : Nat) : Yields text (suite R depth) (SuiteFormed text) := by
  have hofBody : ∀ fallback {body : List Stmt}, BlockFormed text body →
      SuiteFormed text (.ofBody fallback body) :=
    fun _ _ h => h
  induction depth with
  | zero => exact .failure
  | succ depth ih =>
    refine .seq fun fallback => .seq fun g => ?_
    cases g with
    | indent => exact (yields_block ih).bind fun body hbody => .pure (hofBody _ hbody)
    | newline => exact .pure nofun
    | token => exact yields_simpleLine.bind fun body hbody => .pure (hofBody _ hbody)
    | dedent => exact .failure

theorem yields_program {suite : Parser Suite} (hsuite : Yields text suite (SuiteFormed text)) :
    Yields text (program R suite) (BlockFormed text) := by
  refine .bind (.iterate (P := BlockFormed text) nofun ?_) fun done hdone =>
    .pure (forall_mem_reverse hdone)
  intro done hdone
  refine .seq fun _ => .seq fun cs => ?_
  split_ifs
  · exact .last
  · exact (yields_statements hsuite).bind fun found hfound =>
      .next (blockFormed_reverse_append hfound hdone)

end Blocks

end Grammar

/-- The grammar forms the statements of a program from its text. -/
theorem blockFormed_of_parseProgram? {text : List Char} {program : List Stmt}
    (h : parseProgram? text = some program) : BlockFormed ⟨.first, text⟩ program := by
  obtain ⟨⟨_, s⟩, hrun, rfl⟩ := Option.map_eq_some_iff.mp h
  exact (Grammar.yields_program (Grammar.yields_suite _) (ParserState.holds_passage _) hrun).2

/-- The string tokens of a program were read in its text. -/
theorem stringsIn_of_parseProgram? {text : List Char} {program : List Stmt}
    (h : parseProgram? text = some program) : StringsIn text (blockStrings program) :=
  stringsIn_block (blockFormed_of_parseProgram? h)

end ScriptCompiler
