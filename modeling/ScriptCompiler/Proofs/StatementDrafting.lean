import ScriptCompiler.Proofs.StatementDraft

/-!
# Lowering statements follows their drafts

Every action that lowers a statement meets the statement's references, writes the text of its draft
and leads to the place after it. It refuses loops over values that have an alternative, and classes
with attributes that are no names.
-/

namespace ScriptCompiler

namespace Place

/-- The last scopes count, and the numbers of synthesized names add up. -/
theorem later_later (p : Place) (scopes scopes' : Scopes) (n n' : Nat) :
    (p.later scopes n).later scopes' n' = p.later scopes' (n + n') := by
  simp [later, Nat.add_assoc]

@[simp] theorem inClass_later (p : Place) (scopes : Scopes) (n : Nat) :
    (p.later scopes n).inClass = p.inClass := rfl

@[simp] theorem scopes_later (p : Place) (scopes : Scopes) (n : Nat) :
    (p.later scopes n).scopes = scopes := rfl

@[simp] theorem depth_later (p : Place) (scopes : Scopes) (n : Nat) :
    (p.later scopes n).depth = p.depth := rfl

@[simp] theorem depth_deeper (p : Place) : p.deeper.depth = p.depth + 1 := rfl

/-- A block is passed statement by statement. -/
theorem afterBlock_cons (p : Place) (s : Stmt) (rest : List Stmt) :
    p.afterBlock (s :: rest) = (p.afterStmt s).afterBlock rest := by
  rw [afterBlock, blockScopes, blockSentinels, ← later_later p (s.scopesAfter p.inClass p.scopes)]
  rfl

theorem afterBranches_cons (p : Place) (condition : Expr) (body : List Stmt) (rest : List Branch) :
    p.afterBranches (.mk condition body :: rest) = (p.afterBlock body).afterBranches rest := by
  rw [afterBranches, branchScopes, branchSentinels, ← later_later p
    (blockScopes p.inClass p.scopes body)]
  rfl

theorem afterStmt_branch (p : Place) (pos : Position) (condition : Expr) (body : List Stmt)
    (more : List Branch)
    (otherwise : Option (List Stmt)) :
    p.afterStmt (.branch pos condition body more otherwise) =
      ((p.afterBlock body).afterBranches more).afterOtherwise otherwise := by
  rw [afterStmt, Stmt.scopesAfter, Stmt.sentinels]
  simp only [afterBlock, afterBranches, afterOtherwise, later_later, inClass_later, scopes_later]

theorem afterStmt_whileElse (p : Place) (pos : Position) (condition : Expr)
    (body otherwise : List Stmt) : p.afterStmt (.whileLoop pos condition body (some otherwise)) =
      ((p.later p.scopes 1).afterBlock body).afterBlock otherwise := by
  rw [afterStmt, Stmt.scopesAfter, Stmt.sentinels, otherwiseScopes]
  simp only [afterBlock, later_later, inClass_later, scopes_later]

/-- The members of a class come after the methods that are registered natively. -/
theorem afterStmt_classDef (p : Place) (decorators : List Decorator) (pos headerPos : Position)
    (name : String)
    (bases : Option (Position × List Argument)) (body : List Stmt) :
    p.afterStmt (.classDef decorators (.mk pos headerPos name bases body)) =
      { afterMembers { (p.register name).afterNatives body with className := some name } body with
        className := p.className } := by
  rw [afterStmt, Stmt.scopesAfter, Stmt.sentinels, ← later_later p (p.scopes.register name)]
  rfl

theorem inFunction_append (p : Place) (names : List String) (name : String) :
    p.inFunction (names ++ [name]) = (p.inFunction names).register name := by
  simp [inFunction, inFrame, register, deeper, Scopes.registerAll]

end Place

/-! ## Statements that are lowered -/

mutual

/-- Nothing in a statement is refused that its draft would leave out. The body of a method that is
registered natively is not lowered where the method stands in a block of a class. -/
def Stmt.Accepted (inClass : Bool) : Stmt → Prop
  | .branch _ _ body more otherwise =>
    BlockAccepted inClass body ∧ BranchesAccepted inClass more ∧ OtherwiseAccepted inClass otherwise
  | .forLoop _ _ _ _ body otherwise => otherwise = none ∧ BlockAccepted inClass body
  | .whileLoop _ _ body otherwise => BlockAccepted inClass body ∧
      OtherwiseAccepted inClass otherwise
  | .function decorators (.mk _ _ _ _ _ body) => (inClass && isNative decorators) = false →
      BlockAccepted false body
  | .classDef _ (.mk _ _ _ _ body) => NativesAccepted body ∧ MembersAccepted body
  | .evaluate _ _ | .assign _ _ | .augment _ _ _ | .returns _ _ | .pass _ | .breaks _ | .continues _
  | .outer _ _ _ _
  | .asserts _ _ | .raises _ _ _ | .prints _ _ _ | .foreign _ _ _ => True

def BlockAccepted (inClass : Bool) : List Stmt → Prop
  | [] => True
  | s :: rest => s.Accepted inClass ∧ BlockAccepted inClass rest

def OtherwiseAccepted (inClass : Bool) : Option (List Stmt) → Prop
  | none => True
  | some body => BlockAccepted inClass body

def BranchesAccepted (inClass : Bool) : List Branch → Prop
  | [] => True
  | .mk _ body :: rest => BlockAccepted inClass body ∧ BranchesAccepted inClass rest

def NativesAccepted : List Stmt → Prop
  | [] => True
  | .function decorators (.mk _ _ _ _ _ body) :: rest =>
    (isNative decorators = true → BlockAccepted false body) ∧ NativesAccepted rest
  | _ :: rest => NativesAccepted rest

def MembersAccepted : List Stmt → Prop
  | [] => True
  | .assign left _ :: rest => (∃ pos id, left = .name pos id) ∧ MembersAccepted rest
  | s :: rest => s.Accepted true ∧ MembersAccepted rest

end

/-- A function prints as its header, then its defaults, its receiver and its body. -/
theorem Spans.printAll?_function (ed : Edition) (depth : Nat) (head : Spans)
    (formals : List Spans.Formal)
    (receiver : Lowering.Receiver) (closer : String) (body : Spans) :
    printAll? ed (Spans.function depth head formals receiver closer body) =
      printAll? ed (Spans.line depth (head ++ Spans.signature formals ++ [.text " \x7b"]) ++
        (formals.flatMap (Spans.defaultLine (depth + 1)) ++
        Spans.receiverLine (depth + 1) receiver ++ body ++
          Spans.textLine depth closer)) := by
  have hinner : ∀ xs ys inner : Spans, printAll? ed (xs ++ .function inner :: ys) =
      printAll? ed (xs ++ (inner ++ ys)) := by
    simp
  have hflat :=
    hinner (.margin depth :: head) [.text "\n"]
      (Spans.signature formals ++ [.text " \x7b", .text "\n"] ++
    formals.flatMap (Spans.defaultLine (depth + 1)) ++ Spans.receiverLine
      (depth + 1) receiver ++ body ++
      [.margin depth, .text closer])
  unfold Spans.function
  rw [hflat]
  simp [Spans.line, Spans.textLine]

namespace Lowering

variable {α : Type} {ed : Edition} {A B C : Prop} {p q r : Place} {xs ys zs : Spans}
  {refs more : List Reference} {n : Nat}

namespace Emits

variable {m m' : Lowering Unit}

/-- Spans may be arranged in another way that has the same text. -/
theorem reprint (h : Emits ed A p m refs q xs B) (heq : printAll? ed ys = printAll? ed xs) :
    Emits ed A p m refs q ys B := by
  refine h.weaken fun _ lines hlines => ⟨hlines.1, fun hA => ?_⟩
  rw [Spans.Prints, heq]
  exact hlines.2 hA

theorem ofShows {P : α → Prop} {m : Lowering α} {f : α → String} (hm : Shows ed p m refs q P)
    (h : ∀ a, P a → xs.Prints ed (f a)) :
    Emits ed A p (m >>= fun a => Lowering.write (f a)) refs q (Spans.line q.depth xs) True :=
  Drafts.cast (afterShows hm fun a => write fun hA => h a hA.2) (List.append_nil refs)

theorem textLine (text : String) :
    Emits ed A p (Lowering.write text) [] p (Spans.textLine p.depth text) True :=
  write fun _ => by simp [Spans.Prints]

theorem afterOptional {c : Prop} [Decidable c] {m : Lowering PUnit} {rest : PUnit → Lowering Unit}
    (hm : Emits ed A p m [] p xs True) (h : Emits ed A p (rest ⟨⟩) refs q ys B) :
    Emits ed A p (if c then m >>= rest else rest ⟨⟩) refs q ((if c then xs else []) ++ ys) B := by
  split_ifs
  · exact hm.first h
  · exact h

/-- An action that writes nothing, and of which nothing else matters. -/
theorem after {P : α → Prop} {m : Lowering α} {f : α → Lowering Unit} (hm : Shows ed p m [] q P)
    (hf : ∀ a, Emits ed A q (f a) refs r xs B) : Emits ed A p (m >>= f) refs r xs B :=
  afterShows hm fun a => (hf a).weaken fun _ _ hlines => ⟨hlines.1, fun hA => hlines.2 hA.1⟩

theorem mono (h : Emits ed A p m refs q xs B) (hCA : C → A) : Emits ed C p m refs q xs B :=
  h.weaken fun _ _ hlines => ⟨hlines.1, fun hC => hlines.2 (hCA hC)⟩

end Emits

theorem shows_text (e : Expr) :
    Shows ed p (text e) (e.references p.binding p.scopes) p ((e.draft p).spans.Prints ed) :=
  (shows_fragment p e).returning fun _ hf => hf.spans

theorem shows_texts (items : List Expr) :
    Shows ed p (items.mapM text) (itemReferences p.binding p.scopes items) p
      (List.Forall₂ (Spans.Prints ed) (items.map fun e => (e.draft p).spans)) := by
  induction items with
  | nil =>
    exact .pure .nil
  | cons e rest ih =>
    rw [List.mapM_cons]
    exact (shows_text e).bind fun t => ih.returning fun ts hts ht => .cons ht hts

/-! ## Functions -/

/-- The lines that give parameters their defaults. -/
def defaultTexts (width depth : Nat) (formals : List Script.Formal) : List String :=
  formals.filterMap fun p => p.default.map fun default =>
    Buffer.spaces (depth * width) ++ defaultLine p.name default

theorem drafts_defaults (formals : List Script.Formal) :
    Drafts ed p (formals.forM fun p => match p.default with
      | some default => write (defaultLine p.name default)
      | none => pure ()) [] p fun _ lines => lines = defaultTexts ed.width p.depth formals := by
  induction formals with
  | nil => exact Drafts.pure rfl
  | cons f rest ih =>
    have hfirst : Drafts ed p (match f.default with
        | some default => write (defaultLine f.name default)
        | none => pure ()) [] p fun _ lines => lines = defaultTexts ed.width p.depth [f] := by
      obtain ⟨name, default⟩ := f
      cases default with
      | none => exact Drafts.pure rfl
      | some default =>
        rintro s rfl hwidth
        refine ⟨[_], ⟨rfl, rfl, by simp [Change.apply, Buffer.write]; rfl, rfl, fun _ _ => rfl⟩,
          fun _ => ?_⟩
        rw [← hwidth]
        rfl
    refine hfirst.bind fun _ => ih.weaken ?_
    rintro _ more rfl lines rfl
    simp only [defaultTexts, ← List.filterMap_append, List.singleton_append]

theorem prints_defaults {drafts : List Spans.Formal} {formals : List Script.Formal} (depth : Nat)
    (h : List.Forall₂ (Spans.Formal.Prints ed) drafts formals) :
    Spans.Prints ed (drafts.flatMap (Spans.defaultLine depth))
    (linesText (defaultTexts ed.width depth formals)) := by
  induction h with
  | nil => simp [Spans.Prints, defaultTexts]
  | @cons d f ds fs hfirst _ ih =>
    obtain ⟨name, default⟩ := d
    obtain ⟨name', default'⟩ := f
    obtain ⟨rfl, hdefault⟩ := hfirst
    cases hdefault with
    | none => exact ih
    | @some spans text hspans =>
      have hline : Spans.Prints ed (Spans.defaultLine depth ⟨name, some spans⟩)
          (Buffer.spaces (depth * ed.width) ++ defaultLine name text ++ "\n") := by
        refine Spans.prints_line depth ?_
        simp [Spans.Prints, Spans.parameter_print?, hspans, defaultLine, String.append_assoc]
      have hlines : linesText (defaultTexts ed.width depth (⟨name, some text⟩ :: fs)) =
          Buffer.spaces (depth * ed.width) ++ defaultLine name text ++ "\n" ++
            linesText (defaultTexts ed.width depth fs) := by
        rw [← linesText_singleton, ← linesText_append]
        rfl
      rw [hlines]
      exact hline.append ih

theorem names_of_prints {drafts : List Spans.Formal} {formals : List Script.Formal}
    (h : List.Forall₂ (Spans.Formal.Prints ed) drafts formals) :
    drafts.map (·.name) = formals.map (·.name) := by
  induction h with
  | nil => rfl
  | cons hfirst _ ih => rw [List.map_cons, List.map_cons, hfirst.name, ih]

theorem prints_signature {drafts : List Spans.Formal} {formals : List Script.Formal}
    (h : drafts.map (·.name) = formals.map (·.name)) :
    Spans.Prints ed (Spans.signature drafts) (Script.parens (parameterNames formals)) := by
  refine Spans.prints_parens (Spans.prints_commas ?_)
  rw [← h]
  simp [Spans.Prints, Spans.parameter_print?]

theorem prints_header {drafts : List Spans.Formal} {formals : List Script.Formal} {head : String}
    (hhead : xs.Prints ed head) (h : drafts.map (·.name) = formals.map (·.name)) :
    Spans.Prints ed (xs ++ Spans.signature drafts ++ [.text " \x7b"])
      (head ++ Script.parens (parameterNames formals) ++ " \x7b") :=
  (hhead.append (prints_signature h)).append (by simp [Spans.Prints])

/-- The body of a function, in a frame with its variables. -/
def BodyEmits (ed : Edition) (A : Prop) (p : Place) (names : List String) (body : Lowering Unit)
    (refs : List Reference) (n : Nat) (xs : Spans) (B : Prop) : Prop :=
  ∃ scopes : Scopes, scopes.outer = p.scopes.push.outer ∧
    Emits ed A (p.inFunction names) body refs ((p.inFunction names).later scopes n) xs B

/-- The lines of a function, from what its body emits. -/
theorem emits_functionLines {drafts : List Spans.Formal} {formals : List Script.Formal}
    {receiver : Receiver}
    {body : Lowering Unit} (hformals : A → List.Forall₂ (Spans.Formal.Prints ed) drafts formals)
    (h : BodyEmits ed A p (formals.map (·.name) ++ receiver.boundNames) body refs n xs B) :
    Emits ed A { p.deeper with className := none } (functionLines formals receiver body) refs
      { (p.later p.scopes n).deeper with className := none }
      (drafts.flatMap (Spans.defaultLine (p.depth + 1)) ++
      Spans.receiverLine (p.depth + 1) receiver ++ xs) B := by
  obtain ⟨scopes, houter, hbody⟩ := h
  have hregister : Shows ed (p.inFunction []) (formals.forM (register ·.name)) []
      (p.inFunction (formals.map (·.name))) fun _ => True := shows_registerFormals formals
  have hdefaults :
      Emits ed A (p.inFunction (formals.map (·.name))) _ [] (p.inFunction (formals.map (·.name)))
      (drafts.flatMap (Spans.defaultLine (p.depth + 1))) True :=
      (drafts_defaults formals).weaken (by
    rintro _ lines rfl
    exact ⟨trivial, fun hA => prints_defaults (p.depth + 1) (hformals hA)⟩)
  refine Drafts.inFrame
    ((p.inFunction (formals.map (·.name) ++ receiver.boundNames)).later scopes n)
    (Scopes.pop_of_outer_eq houter) (Emits.after hregister fun _ => ?_)
  rw [List.append_assoc]
  refine hdefaults.first ?_
  cases receiver with
  | bound name =>
    rw [Receiver.boundNames, Place.inFunction_append] at hbody ⊢
    refine Emits.after (shows_register name) fun _ => Emits.afterOptional ?_ hbody
    refine Emits.write fun _ => ?_
    simp [Spans.Prints, Introduction.text, BindingForm.respells, String.append_assoc]
  | absent | unbound =>
    rw [Receiver.boundNames, List.append_nil] at hbody ⊢
    exact hbody

section Functions

variable {head : Spans} {header name className : String} {isAsync : Bool}
  {drafts : List Spans.Formal}
  {formals : List Script.Formal} {body : Lowering Unit}

/-- Step: the body of a function is emitted in a frame of its own. -/
theorem emits_functionBody (receiver : Receiver) (closer : String)
    (hheader : A → Spans.Prints ed (head ++ Spans.signature drafts ++ [.text " \x7b"]) header)
    (hformals : A → List.Forall₂ (Spans.Formal.Prints ed) drafts formals)
    (h : BodyEmits ed A p (formals.map (·.name) ++ receiver.boundNames) body refs n xs B) :
    Emits ed A p (functionBody header formals receiver closer body) refs (p.later p.scopes n)
      (Spans.function p.depth head drafts receiver closer xs) B := by
  refine Emits.reprint ?_ (Spans.printAll?_function ..)
  have hheader : Emits ed A { p with className := none } _ _ _ _ _ := Emits.write hheader
  have hlines :
      Emits ed A { p with className := none }
      (enclosed closer (functionLines formals receiver body))
      refs { p.later p.scopes n with className := none } _ B :=
      Emits.enclosed (emits_functionLines hformals h)
  exact Drafts.inClass (hheader.first hlines)

/-- A first parameter that is a receiver is found in the draft as in the text. -/
theorem splitSelf_eq (hnames : drafts.map (·.name) = formals.map (·.name)) :
    splitSelf formals =
      if Spans.startsWithSelf drafts then (.unbound, formals.tail) else (.absent, formals) := by
  cases formals with
  | nil =>
    obtain rfl : drafts = [] := by simpa using hnames
    rfl
  | cons f fs =>
    obtain ⟨d, ds, rfl⟩ : ∃ d ds, drafts = d :: ds :=
      List.exists_cons_of_ne_nil (by rintro rfl; simp at hnames)
    have hname : d.name = f.name := (List.cons.inj hnames).1
    simp only [splitSelf, Spans.startsWithSelf, hname, decide_eq_true_eq, List.tail_cons]

theorem forall₂_withoutSelf (hnames : drafts.map (·.name) = formals.map (·.name))
    (h : List.Forall₂ (Spans.Formal.Prints ed) drafts formals) :
    List.Forall₂ (Spans.Formal.Prints ed) (Spans.withoutSelf drafts) (splitSelf formals).2 := by
  rw [splitSelf_eq hnames]
  unfold Spans.withoutSelf
  split_ifs
  · rw [← List.drop_one, ← List.drop_one]
    exact List.forall₂_drop 1 h
  · exact h

theorem bodyEmits_splitSelf
    (h : BodyEmits ed A p (withoutSelf (formals.map (·.name))) body refs n xs B) :
    BodyEmits ed A p ((splitSelf formals).2.map (·.name) ++ (splitSelf formals).1.boundNames) body
    refs n xs B := by
  rwa [boundNames_splitSelf, List.append_nil, names_splitSelf]

theorem prints_functionHead (isAsync : Bool) (name : String) :
    (Spans.functionHead isAsync name).Prints ed (asyncMark isAsync ++ "function " ++ name) := by
  simp [Spans.Prints, Spans.functionHead, Introduction.text, BindingForm.respells]

theorem emits_plainFunction (hnames : drafts.map (·.name) = formals.map (·.name))
    (hformals : A → List.Forall₂ (Spans.Formal.Prints ed) drafts formals)
    (h : BodyEmits ed A p (withoutSelf (formals.map (·.name))) body refs n xs B) :
    Emits ed A p (plainFunction isAsync name formals body) refs (p.later p.scopes n)
      (Spans.plainFunction p.depth isAsync name drafts xs) B := by
  have hbody := bodyEmits_splitSelf h
  have hrest := fun hA => forall₂_withoutSelf hnames (hformals hA)
  have hshort : Spans.Prints ed [.text (asyncMark isAsync), .introduction ⟨.function, name⟩]
      (asyncMark isAsync ++ name) := by
    simp [Spans.Prints, Introduction.text, BindingForm.respells]
  unfold plainFunction Spans.plainFunction
  rw [splitSelf_eq hnames] at hbody hrest ⊢
  by_cases hself : Spans.startsWithSelf drafts = true
  · simp only [if_pos hself] at hbody hrest ⊢
    exact emits_functionBody .unbound _
      (fun hA => prints_header hshort (names_of_prints (hrest hA))) hrest hbody
  · simp only [if_neg hself] at hbody hrest ⊢
    exact emits_functionBody .absent _
      (fun hA => prints_header (prints_functionHead isAsync name) (names_of_prints (hrest hA)))
      hrest hbody

theorem emits_namedFunction (hnames : drafts.map (·.name) = formals.map (·.name))
    (hformals : A → List.Forall₂ (Spans.Formal.Prints ed) drafts formals)
    (h : BodyEmits ed A p (withoutSelf (formals.map (·.name))) body refs n xs B) :
    Emits ed A p (namedFunction isAsync name formals body) refs (p.later p.scopes n)
      (Spans.namedFunction p.depth isAsync name drafts xs) B := by
  have hrest := fun hA => forall₂_withoutSelf hnames (hformals hA)
  have hfunction := emits_functionBody (splitSelf formals).1 "\x7d"
    (fun hA => prints_header (prints_functionHead isAsync name) (names_of_prints (hrest hA))) hrest
    (bodyEmits_splitSelf h)
  have hreceiver : Spans.receiverLine (p.depth + 1) (splitSelf formals).1 = [] := by
    rw [splitSelf_eq hnames]
    split_ifs <;> rfl
  unfold Spans.function at hfunction
  rw [hreceiver] at hfunction
  exact hfunction

theorem prints_prototypeHead (isAsync : Bool) (className name : String) :
    (Spans.prototypeHead isAsync className name).Prints ed
      (className ++ ".prototype." ++ name ++ " = " ++ asyncMark isAsync ++ "function") := by
  simp [Spans.Prints, Spans.prototypeHead]

theorem emits_staticMethod (hformals : A → List.Forall₂ (Spans.Formal.Prints ed) drafts formals)
    (h : BodyEmits ed A p (formals.map (·.name)) body refs n xs B) :
    Emits ed A p (staticMethod className isAsync name formals body) refs (p.later p.scopes n)
      (Spans.staticMethod p.depth className isAsync name drafts xs) B := by
  have hbody :
      BodyEmits ed A p (formals.map (·.name) ++ Receiver.absent.boundNames) body refs n xs B := by
    rwa [Receiver.boundNames, List.append_nil]
  exact (emits_functionBody .absent _
    (fun hA => prints_header (prints_prototypeHead isAsync className name)
    (names_of_prints (hformals hA))) hformals hbody).last
    (.textLine _)

/-- The parameters of a draft come apart as those of the text do. -/
theorem exists_cons_drafts {f : Script.Formal} {fs : List Script.Formal}
    (hnames : drafts.map (·.name) = (f :: fs).map (·.name)) :
    ∃ d ds, drafts = d :: ds ∧ d.name = f.name ∧ ∀ ed : Edition,
      List.Forall₂ (Spans.Formal.Prints ed) drafts (f :: fs) →
      List.Forall₂ (Spans.Formal.Prints ed) ds fs := by
  obtain ⟨d, ds, rfl⟩ : ∃ d ds, drafts = d :: ds :=
    List.exists_cons_of_ne_nil (by rintro rfl; simp at hnames)
  exact ⟨d, ds, rfl, (List.cons.inj hnames).1, fun _ h => (List.forall₂_cons.mp h).2⟩

theorem emits_instanceMethod {pos : Position} (hnames : drafts.map (·.name) = formals.map (·.name))
    (hformals : A → List.Forall₂ (Spans.Formal.Prints ed) drafts formals)
    (h : BodyEmits ed A p (receiverLast (formals.map (·.name))) body refs n xs B) :
    Emits ed A p (instanceMethod className pos isAsync name formals body) refs (p.later p.scopes n)
      (Spans.instanceMethod p.depth className isAsync name drafts xs) B := by
  cases formals with
  | nil => exact Drafts.refuse _ _
  | cons f fs =>
    obtain ⟨d, ds, rfl, hname, hrest⟩ := exists_cons_drafts hnames
    have hmethod := emits_functionBody (.bound f.name) "\x7d;"
      (fun hA => prints_header (prints_prototypeHead isAsync className name)
      (names_of_prints (hrest ed (hformals hA))))
      (fun hA => hrest ed (hformals hA)) h
    refine (hmethod.last ((Emits.textLine _).first ((Emits.indented (q := p.later p.scopes n)
      (Emits.textLine _)).first (Emits.textLine _)))).cast rfl rfl ?_
    simp [Spans.instanceMethod, Spans.splitReceiver, hname]

theorem emits_nativeMethod (hnames : drafts.map (·.name) = formals.map (·.name))
    (hformals : A → List.Forall₂ (Spans.Formal.Prints ed) drafts formals)
    (h : BodyEmits ed A p (receiverLast (formals.map (·.name))) body refs n xs B) :
    Emits ed A p (nativeMethod isAsync name formals body) refs (p.later p.scopes n)
      (Spans.nativeMethod p.depth isAsync name drafts xs) B := by
  have hhead : Spans.Prints ed [.text (asyncMark isAsync ++ name)] (asyncMark isAsync ++ name) := by
    simp [Spans.Prints]
  cases formals with
  | nil =>
    obtain rfl : drafts = [] := by simpa using hnames
    exact emits_functionBody .absent _
      (fun hA => prints_header hhead (names_of_prints (hformals hA))) hformals h
  | cons f fs =>
    obtain ⟨d, ds, rfl, hname, hrest⟩ := exists_cons_drafts hnames
    refine (emits_functionBody (.bound f.name) _
      (fun hA => prints_header hhead (names_of_prints (hrest ed (hformals hA))))
      (fun hA => hrest ed (hformals hA)) h).cast rfl rfl ?_
    simp [Spans.nativeMethod, Spans.splitReceiver, hname]

end Functions

/-! ## Simple statements -/

theorem emits_withFormals {parameters : List Parameter} {f : List Script.Formal → Lowering Unit}
    (h : ∀ fs, fs.map (·.name) = declaredNames parameters →
      Emits ed (A ∧ List.Forall₂ (Spans.Formal.Prints ed) (formalSpans p parameters) fs) p
      (f fs) refs q xs B) :
    Emits ed A p (formals parameters >>= f) (parameterReferences p.binding p.scopes parameters ++
    refs) q xs B :=
  (shows_formals p parameters).knowing (fun _ _ _ => names_of_formals) fun fs hfs =>
    (h fs hfs).weaken fun _ _ hlines hprints => ⟨hlines.1, fun hA => hlines.2 ⟨hA, hprints⟩⟩

/-- Whether a variable is declared depends on the innermost frame only. -/
theorem declare_bind {id : String} {f : Declaration → Lowering α} {Q : α → List String → Prop}
    (h : Drafts ed (p.register id) (f (if p.scopes.isDeclaredHere id then .reused else .fresh))
    refs q Q) : Drafts ed p (declare id >>= f) refs q Q := by
  have hdeclare : Shows ed p (declare id) [] (p.register id) fun _ => True := by
    refine Drafts.reading (fun _ _ _ => rfl) fun s _ _ => ?_
    exact (shows_register id).returning fun _ _ => trivial
  refine Drafts.bind_of hdeclare
    (R := (· = if p.scopes.isDeclaredHere id then .reused else .fresh)) ?_ ?_
  · rintro s a t rfl hrun
    cases hrun
    rfl
  · rintro _ rfl
    refine h.weaken ?_
    rintro a lines hQ _ ⟨rfl, -⟩
    exact hQ

theorem shows_declaring (id : String) :
    Shows ed p (declaring id) [] (p.register id) ((p.declaring id).Prints ed) := by
  refine declare_bind ?_
  unfold Place.declaring
  split_ifs <;> exact .pure (by simp [Spans.Prints, Introduction.text, BindingForm.respells])

theorem shows_temporary (stem : String) :
    Shows ed p (temporary stem) [] (p.later p.scopes 1)
      fun name => name = "__" ++ stem ++ toString p.temporaries ++ "__" := by
  rintro s rfl _
  exact ⟨[], ⟨rfl, rfl, by simp [Change.apply], rfl, fun _ _ => rfl⟩, fun _ => ⟨rfl, rfl⟩⟩

/-- The target of an assignment shows its draft. -/
theorem shows_target (t : Target) :
    Shows ed p (target t) (t.references p.binding p.scopes) p ((t.spans p).Prints ed) := by
  unfold target Target.references
  cases t with
  | name pos id =>
    exact .pure (by simp [Spans.Prints, Target.spans, Introduction.text, BindingForm.respells])
  | member object key =>
    refine (shows_text object).returning fun text htext => ?_
    simp [Spans.Prints, Target.spans, htext, String.append_assoc]
  | subscript value indices =>
    refine Drafts.afterRefusal ?_
    exact shows_text (.subscript value indices)
  | foreign pos kind => exact Drafts.refuse _ _

theorem prints_assignment {left right : String} (hleft : xs.Prints ed left)
    (hright : ys.Prints ed right) :
    Spans.Prints ed (xs ++ .text " = " :: ys ++ [.text ";"]) (left ++ " = " ++ right ++ ";") := by
  simp [Spans.Prints, hleft, hright, String.append_assoc]

/-- Step: an assignment emits its draft. -/
theorem emits_assign (left : Target) (right : Assigned) :
    Emits ed A p (assign left right) (assignmentReferences p.binding p.scopes left right)
      { p with scopes := left.boundIn p.scopes } (p.assign left right) True := by
  cases right with
  | chained => exact Drafts.refuse _ _
  | nothing =>
    cases left with
    | name pos id =>
      refine declare_bind ?_
      by_cases hdeclared : p.scopes.isDeclaredHere id = true
      · simp only [Place.assign, if_pos hdeclared]
        exact Emits.nothing
      · simp only [Place.assign, if_neg hdeclared]
        refine Emits.write fun _ => ?_
        simp [Spans.Prints, Introduction.text, BindingForm.respells, String.append_assoc]
    | _ => exact Emits.nothing
  | value right =>
    refine Emits.afterShows (shows_text right) fun value => ?_
    cases left with
    | name pos id =>
      refine Emits.afterShows (shows_declaring id) fun name => Emits.write fun hA => ?_
      exact prints_assignment hA.2 hA.1.2
    | _ =>
      refine Drafts.cast (Emits.afterShows (shows_target _) fun name => Emits.write fun hA => ?_)
        (List.append_nil _)
      exact prints_assignment hA.2 hA.1.2

/-- Step: an update emits its draft. -/
theorem emits_augment (left : Target) (op : BinaryOp) (right : Expr) :
    Emits ed A p (augment left op right)
      (left.references p.binding p.scopes ++ right.references p.binding p.scopes) p
      (p.augment left op right) True := by
  unfold augment Place.augment
  refine Emits.afterShows (shows_target left) fun name =>
    Drafts.cast (Emits.afterShows (shows_text right) fun value => ?_) (List.append_nil _)
  cases op.symbol? with
  | some symbol =>
    refine Emits.write fun hA => ?_
    simp [Spans.Prints, hA.1.2, hA.2, String.append_assoc]
  | none =>
    cases op with
    | power =>
      refine Emits.write fun hA => ?_
      simp [Spans.Prints, hA.1.2, hA.2, String.append_assoc]
    | floorDiv =>
      refine Emits.write fun hA => ?_
      simp [Spans.Prints, hA.1.2, Spans.prints_grouped right.kind hA.2, String.append_assoc]
    | _ => exact Drafts.refuse _ _

/-- Step: an attribute is set on the class and on its prototype. -/
theorem emits_classAttribute (className : String) (left : Target) (right : Assigned) :
    Emits ed A p (classAttribute className left right) (right.references p.binding p.scopes) p
      (p.classAttribute className left right) (∃ pos id, left = .name pos id) := by
  cases left with
  | name pos id =>
    refine Emits.accepting (B := True) ?_ fun _ => ⟨pos, id, rfl⟩
    cases right with
    | nothing => exact Emits.nothing
    | chained => exact Drafts.refuse _ _
    | value e =>
      refine Drafts.cast (Emits.afterShows (shows_text e) fun value =>
        Emits.first (Emits.write fun hA => ?_) (Emits.textLine _)) (List.append_nil _)
      simp [Spans.Prints, hA.2, String.append_assoc]
  | _ => exact Drafts.refuse _ _

/-- A class has no base, or one that is a name, or it is refused. -/
theorem classBase_cases (bases : Option (Position × List Argument)) :
    (∃ construct pos, classBase bases = refuse construct pos) ∨
    ∃ base, classBase bases = pure base ∧ Spans.hasBase bases = base.isSome ∧
      ∀ (ed : Edition) (name : String), Spans.Prints ed
        ([.text "class ", .introduction ⟨.className, name⟩] ++
        Spans.classBase bases ++ [.text " \x7b"])
        (classHeader name base) := by
  have hnone : ∀ (ed : Edition) (name : String), Spans.Prints ed
      ([.text "class ", .introduction ⟨.className, name⟩] ++ [] ++ [.text " \x7b"])
      (classHeader name none) := by
    intro ed name
    simp [Spans.Prints, classHeader, Introduction.text, BindingForm.respells, String.append_assoc]
  unfold classBase
  split
  · exact .inr ⟨none, rfl, rfl, hnone⟩
  · exact .inr ⟨none, rfl, rfl, hnone⟩
  · rename_i pos id
    by_cases hobject : id = "object"
    · exact .inr ⟨none, by rw [if_pos hobject], by simp [Spans.hasBase, hobject], by
        simpa [Spans.classBase, hobject]⟩
    · refine .inr ⟨some id, by rw [if_neg hobject], by simp [Spans.hasBase, hobject],
        fun ed name => ?_⟩
      simp [Spans.Prints, Spans.classBase, hobject, classHeader, Introduction.text,
        BindingForm.respells, Mention.text?,
        String.append_assoc]
  · exact .inl ⟨_, _, rfl⟩
  · exact .inl ⟨_, _, rfl⟩

theorem emits_constructor (hasBase : Bool) :
    Emits ed A p (constructor hasBase) [] p (Spans.constructor p.depth hasBase) True := by
  have hinner : Emits ed A p (indented (if hasBase then write "super(...args);" >>= fun _ =>
      write "this.__init__(...args);" else write "this.__init__(...args);")) [] p _ True :=
    Emits.indented (Emits.afterOptional (Emits.textLine _) (Emits.textLine _))
  refine ((Emits.textLine _).first (hinner.first (Emits.textLine _))).cast rfl rfl ?_
  simp [Spans.constructor, Place.deeper]

/-- Step: a loop with an alternative declares its flag, sets it inside, and asks it afterwards. -/
theorem emits_whileElse {condition : String} {body otherwise : Lowering Unit} {ys zs : Spans}
    (hcondition : A → xs.Prints ed condition)
    (hbody : Emits ed A (p.later p.scopes 1).deeper body refs q.deeper ys B)
    (hotherwise : Emits ed A q.deeper otherwise more r.deeper zs C) (hq : q.depth = p.depth)
    (hr : r.depth = p.depth) : Emits ed A p (whileElse condition body otherwise) (refs ++ more) r
      (Spans.whileElse p.depth p.temporaries xs ys zs) (B ∧ C) := by
  rw [whileElse_eq, ← List.nil_append (refs ++ more)]
  refine Emits.afterShows (shows_temporary "orelse") fun sentinel => ?_
  set D : Prop := A ∧ sentinel = "__" ++ "orelse" ++ toString p.temporaries ++ "__" with hD
  set mark : Span :=
    .introduction ⟨.synthesized, "__orelse" ++ toString p.temporaries ++ "__"⟩ with hmark
  replace hbody : Emits ed D _ _ _ _ _ _ := hbody.mono And.left
  replace hotherwise : Emits ed D _ _ _ _ _ _ := hotherwise.mono And.left
  have hsentinel : D → mark.print? ed = some sentinel := by
    rintro ⟨-, rfl⟩
    rfl
  have hset : Emits ed D (p.later p.scopes 1).deeper.deeper (write (sentinel ++ " = true;")) [] _
      (Spans.line (p.depth + 2) [mark, .text " = true;"]) True :=
    Emits.write fun hD => by simp [Spans.Prints, hsentinel hD]
  have htest :
      Emits ed D (p.later p.scopes 1).deeper (write ("if (!(" ++ condition ++ ")) \x7b")) [] _
      (Spans.line (p.depth + 1) (.text "if (!(" :: xs ++ [.text ")) \x7b"])) True :=
    Emits.write fun hD => by simp [Spans.Prints, hcondition hD.1, String.append_assoc]
  have hbreak :
      Emits ed D (p.later p.scopes 1).deeper
      (indented do write (sentinel ++ " = true;"); write "break;") [] _ _ True :=
    Emits.indented (hset.first (Emits.textLine "break;"))
  have hloop := (Emits.textLine "while (true) \x7b").first
    ((Emits.indented (htest.first (hbreak.first ((Emits.textLine "\x7d").first hbody)))).last
      (Emits.textLine "\x7d"))
  have hdeclare :
      D → Spans.Prints ed [.text "var ", mark, .text " = false;"]
      ("var " ++ sentinel ++ " = false;") :=
    fun hD => by simp [Spans.Prints, hsentinel hD, String.append_assoc]
  have hdone : Emits ed D q (write ("if (" ++ sentinel ++ ") \x7b")) [] q
      (Spans.line q.depth [.text "if (", mark, .text ") \x7b"]) True :=
    Emits.write fun hD => by simp [Spans.Prints, hsentinel hD, String.append_assoc]
  refine ((Emits.reserving hdeclare hloop).andThen (hdone.first ((Emits.indented hotherwise).last
    (Emits.textLine "\x7d")))).cast rfl rfl ?_
  simp [Spans.whileElse, hq, hr, hmark]

/-! ## All statements -/

theorem bodyEmits_block {names : List String} {body : List Stmt}
    (h : Emits ed A (p.inFunction names) (block body) refs
    ((p.inFunction names).afterBlock body) xs B) :
    BodyEmits ed A p names (block body) refs (blockSentinels false body) xs B :=
  ⟨_, (grows_blockScopes false _ body).outer.trans (p.scopes.push.outer_registerAll names), h⟩

mutual

/-- Run: whatever a statement is, lowering it emits its draft. By recursion over the tree, one case
for each form, together with blocks, branches and members. -/
theorem emits_statement {A : Prop} (p : Place) : ∀ s : Stmt,
    Emits ed A p (statement s) (s.references p.binding p.inClass p.scopes) (p.afterStmt s)
    (s.spans p)
      (s.Accepted p.inClass)
  | .evaluate _ [] => by
    rw [statement, Stmt.spans, Stmt.references, Stmt.Accepted]
    · refine Emits.ofShows (shows_sequenceTexts p []) fun ts hts => ?_
      simp [Spans.Prints, Spans.prints_brackets (Spans.prints_commas hts)]
    all_goals simp
  | .evaluate _ [e] => by
    rw [statement, Stmt.spans, Stmt.references, Stmt.Accepted, itemReferences, itemReferences,
      List.append_nil]
    refine Emits.ofShows (shows_text e) fun t ht => ?_
    simp [Spans.Prints, ht]
  | .evaluate _ (first :: second :: rest) => by
    rw [statement, Stmt.spans, Stmt.references, Stmt.Accepted]
    · refine Emits.ofShows (shows_sequenceTexts p (first :: second :: rest)) fun ts hts => ?_
      simp [Spans.Prints, Spans.prints_brackets (Spans.prints_commas hts)]
    all_goals simp
  | .assign left right => by
    rw [statement, Stmt.spans, Stmt.references, Stmt.Accepted, Place.afterStmt, Stmt.scopesAfter,
      Stmt.sentinels]
    exact emits_assign left right
  | .augment left op right => by
    rw [statement, Stmt.spans, Stmt.references, Stmt.Accepted, Place.afterStmt, Stmt.scopesAfter,
      Stmt.sentinels]
    exact emits_augment left op right
  | .returns _ none => by
    rw [statement, Stmt.spans, Stmt.references, Stmt.Accepted, optionalReferences, Place.afterStmt,
      Stmt.scopesAfter, Stmt.sentinels]
    exact Emits.textLine _
  | .returns _ (some e) | .raises _ (some e) none => by
    rw [statement, Stmt.spans, Stmt.references, Stmt.Accepted, optionalReferences, Place.afterStmt,
      Stmt.scopesAfter, Stmt.sentinels]
    refine Emits.ofShows (shows_text e) fun t ht => ?_
    simp [Spans.Prints, ht, String.append_assoc]
  | .pass _ | .breaks _ | .continues _ => by
    rw [statement, Stmt.spans, Stmt.references, Stmt.Accepted, Place.afterStmt, Stmt.scopesAfter,
      Stmt.sentinels]
    exact Emits.textLine _
  | .outer _ _ _ names => by
    rw [statement, Stmt.spans, Stmt.references, Stmt.Accepted, Place.afterStmt, Stmt.scopesAfter,
      Stmt.sentinels]
    refine Drafts.weaken (shows_registerAll names) ?_
    rintro _ lines ⟨rfl, -⟩
    simp [Spans.Prints]
  | .asserts _ conditions => by
    rw [statement, Stmt.spans, Stmt.references, Stmt.Accepted, Place.afterStmt, Stmt.scopesAfter,
      Stmt.sentinels]
    refine Emits.ofShows (shows_texts conditions) fun ts hts => ?_
    simp [Spans.Prints, Spans.prints_commas hts, String.append_assoc]
  | .raises _ _ (some _) | .raises _ none none | .prints _ (some _) _ | .classDef (_ :: _) _
  | .foreign _ _ _ => by
    rw [statement]
    exact Drafts.refuse _ _
  | .prints _ none values => by
    rw [statement, Stmt.spans, Stmt.references, Stmt.Accepted, Place.afterStmt, Stmt.scopesAfter,
      Stmt.sentinels]
    refine Emits.ofShows (shows_texts values) fun ts hts => ?_
    simp [Spans.Prints, Spans.prints_commas hts, String.append_assoc]
  | .branch _ condition body more otherwise => by
    rw [statement, Stmt.spans, Stmt.references, Stmt.Accepted, Place.afterStmt_branch]
    simp only [List.append_assoc]
    refine Emits.afterShows (shows_text condition) fun t => ?_
    have hcondition : A ∧ (condition.draft p).spans.Prints ed t → Spans.Prints ed
        (.text "if (" :: (condition.draft p).spans ++ [.text ") \x7b"]) ("if (" ++ t ++ ") \x7b") :=
      fun hA => by simp [Spans.Prints, hA.2, String.append_assoc]
    refine (Emits.write hcondition).first (Emits.andThen (Emits.indented (q := p.afterBlock body)
      (emits_block p.deeper body)) (Emits.andThen (emits_branches (p.afterBlock body) more) ?_))
    cases otherwise with
    | none =>
      rw [otherwiseSpans, otherwiseReferences, OtherwiseAccepted, Place.afterOtherwise,
        otherwiseScopes, otherwiseSentinels]
      exact Emits.textLine _
    | some otherwise =>
      rw [otherwiseSpans, otherwiseReferences, OtherwiseAccepted, Place.afterOtherwise,
        otherwiseScopes, otherwiseSentinels,
        List.append_assoc]
      refine (Emits.textLine _).first (Emits.last ?_ (Emits.textLine _))
      exact Emits.indented (q := ((p.afterBlock body).afterBranches more).afterBlock otherwise)
        (emits_block _ otherwise)
  | .forLoop pos isAsync left iterable body otherwise => by
    cases left with
    | name _ id =>
      rw [statement, Stmt.spans, Stmt.references, Stmt.Accepted, Place.afterStmt, Stmt.scopesAfter,
        Stmt.sentinels]
      refine Drafts.afterRefusal ?_
      split_ifs with hotherwise
      · exact Drafts.refuse _ _
      refine Emits.accepting ?_ fun hbody => ⟨Option.not_isSome_iff_eq_none.mp hotherwise, hbody⟩
      refine Emits.afterShows (shows_text iterable) fun values =>
        Emits.afterShows (shows_declaring id) fun name => ?_
      rw [List.append_assoc]
      refine Emits.first (Emits.write fun hA => ?_)
        ((Emits.indented (q := (p.register id).afterBlock body) (emits_block _ body)).last
        (Emits.textLine _))
      simp [Spans.Prints, Place.assigning, hA.1.2, hA.2, String.append_assoc]
    | _ =>
      rw [statement]
      · refine Drafts.afterRefusal ?_
        refine Drafts.afterRefusal ?_
        exact Drafts.refuse _ _
      · simp
  | .whileLoop _ condition body none => by
    rw [statement, Stmt.spans, Stmt.references, Stmt.Accepted, Place.afterStmt, Stmt.scopesAfter,
      Stmt.sentinels, otherwiseReferences,
      otherwiseScopes, OtherwiseAccepted, List.append_nil, List.append_assoc]
    refine Emits.accepting ?_ fun hbody => ⟨hbody, trivial⟩
    refine Emits.afterShows (shows_text condition) fun t => ?_
    refine Emits.first (Emits.write fun hA => ?_)
      ((Emits.indented (q := p.afterBlock body) (emits_block _ body)).last (Emits.textLine _))
    simp [Spans.Prints, hA.2, String.append_assoc]
  | .whileLoop _ condition body (some otherwise) => by
    rw [statement, Stmt.spans, Stmt.references, Stmt.Accepted, otherwiseReferences,
      OtherwiseAccepted,
      Place.afterStmt_whileElse, List.append_assoc]
    refine Emits.afterShows (shows_text condition) fun t => ?_
    exact emits_whileElse (q := (p.later p.scopes 1).afterBlock body) And.right (emits_block _ body)
      (emits_block _ otherwise) rfl rfl
  | .function decorators (.mk pos isAsync bodyPos name parameters body) => by
    obtain ⟨binding, scopes, depth, nesting, className, temporaries⟩ := p
    rw [statement, Stmt.spans, Stmt.references, Stmt.Accepted, Place.afterStmt, Stmt.scopesAfter,
      Stmt.sentinels, formOf]
    cases hform : methodForm decorators with
    | error d => exact Drafts.fail (by rw [kind_of_methodForm_eq_error hform]; simp)
    | ok form =>
      rw [pure_bind]
      refine Drafts.reading (fun _ _ _ => rfl) fun s hs _ => ?_
      have hclass : s.className = className := congrArg Place.className hs
      rw [hclass]
      cases className with
      | none =>
        cases form with
        | static => exact Drafts.refuse _ _
        | ordinary | native =>
          refine Emits.accepting ?_ fun hbody _ => hbody
          refine Emits.after (shows_register name) fun _ => emits_withFormals fun fs hfs => ?_
          refine emits_plainFunction ((names_formalSpans _ parameters).trans hfs.symm) And.right ?_
          rw [hfs]
          exact bodyEmits_block (emits_block _ body)
      | some className =>
        cases form with
        | native =>
          -- It was written among the lines of the class.
          simp only [isNative, hform]
          exact Emits.nothing.accepting fun _ => nofun
        | static =>
          simp only [isNative, methodNames, hform]
          refine Emits.accepting ?_ fun hbody _ => hbody
          refine emits_withFormals fun fs hfs => emits_staticMethod And.right ?_
          rw [hfs]
          exact bodyEmits_block (emits_block _ body)
        | ordinary =>
          simp only [isNative, methodNames, hform]
          refine Emits.accepting ?_ fun hbody _ => hbody
          refine emits_withFormals fun fs hfs => ?_
          refine emits_instanceMethod ((names_formalSpans _ parameters).trans hfs.symm) And.right ?_
          rw [hfs]
          exact bodyEmits_block (emits_block _ body)
  | .classDef [] (.mk pos headerPos name bases body) => by
    rw [statement, Stmt.spans, Stmt.references, Stmt.Accepted, Place.afterStmt_classDef]
    rcases classBase_cases bases with ⟨construct, pos, hbase⟩ | ⟨base, hbase, hhasBase, hheader⟩
    · rw [hbase]
      exact Drafts.refuse _ _
    rw [hbase, pure_bind, hhasBase]
    refine Emits.after (shows_register name) fun _ => ?_
    have hinside : Emits ed A (p.register name).deeper
        (if body.any isInitialiser then constructor base.isSome >>= fun _ =>
        nativeMethods body else nativeMethods body)
        _ ((p.register name).afterNatives body).deeper _ _ :=
      Emits.afterOptional (emits_constructor base.isSome) (emits_nativeMethods _ body)
    have hmembers :=
      Drafts.inClass (emits_members (A := A) ((p.register name).afterNatives body) name body)
    refine ((Emits.write fun _ => hheader ed name).first ((Emits.indented hinside).andThen
      ((Emits.textLine "\x7d").first hmembers))).cast rfl rfl ?_
    simp only [List.append_assoc]
    rfl

/-- Run: a block emits the drafts of its statements in turn. -/
theorem emits_block {A : Prop} (p : Place) : ∀ body : List Stmt,
    Emits ed A p (block body) (blockReferences p.binding p.inClass p.scopes body)
    (p.afterBlock body)
      (blockSpans p body) (BlockAccepted p.inClass body)
  | [] => by
    rw [block, blockSpans, blockReferences, BlockAccepted, Place.afterBlock, blockScopes,
      blockSentinels]
    exact Emits.nothing
  | s :: rest => by
    rw [block, blockSpans, blockReferences, BlockAccepted, Place.afterBlock_cons]
    exact (emits_statement p s).andThen (emits_block _ rest)

theorem emits_branches {A : Prop} (p : Place) : ∀ more : List Branch,
    Emits ed A p (branches more) (branchReferences p.binding p.inClass p.scopes more)
    (p.afterBranches more)
      (branchSpans p more) (BranchesAccepted p.inClass more)
  | [] => by
    rw [branches, branchSpans, branchReferences, BranchesAccepted, Place.afterBranches,
      branchScopes, branchSentinels]
    exact Emits.nothing
  | .mk condition body :: rest => by
    rw [branches, branchSpans, branchReferences, BranchesAccepted, Place.afterBranches_cons,
      List.append_assoc,
      List.append_assoc]
    refine Emits.afterShows (shows_text condition) fun t => ?_
    have hcondition : A ∧ (condition.draft p).spans.Prints ed t → Spans.Prints ed
        (.text "\x7d else if (" :: (condition.draft p).spans ++ [.text ") \x7b"])
        ("\x7d else if (" ++ t ++ ") \x7b") :=
      fun hA => by simp [Spans.Prints, hA.2, String.append_assoc]
    exact (Emits.write hcondition).first
      ((Emits.indented (q := p.afterBlock body) (emits_block _ body)).andThen
      (emits_branches _ rest))

theorem emits_nativeMethods {A : Prop} (p : Place) : ∀ body : List Stmt,
    Emits ed A p (nativeMethods body) (nativeReferences p.binding p.scopes body)
    (p.afterNatives body)
      (nativeSpans p body) (NativesAccepted body)
  | [] => by
    rw [nativeMethods, nativeSpans, nativeReferences, NativesAccepted, Place.afterNatives,
      nativeSentinels]
    exact Emits.nothing
  | s :: rest => by
    cases s with
    | function decorators d =>
      obtain ⟨pos, isAsync, bodyPos, name, parameters, body⟩ := d
      rw [nativeMethods, nativeSpans, nativeReferences, NativesAccepted, Place.afterNatives,
        nativeSentinels, formOf]
      cases hform : methodForm decorators with
      | error d => exact Drafts.fail (by rw [kind_of_methodForm_eq_error hform]; simp)
      | ok form =>
        rw [pure_bind]
        simp only [isNative, hform]
        cases form with
        | native =>
          rw [if_pos rfl, if_pos rfl, if_pos rfl, ← Place.later_later, List.append_assoc]
          refine Emits.accepting ?_ (And.imp_left fun hbody _ => hbody)
          refine emits_withFormals fun fs hfs => ?_
          refine Emits.andThen
            (emits_nativeMethod ((names_formalSpans _ parameters).trans hfs.symm) And.right ?_)
            (emits_nativeMethods _ rest)
          rw [hfs]
          exact bodyEmits_block (emits_block _ body)
        | ordinary | static =>
          rw [if_neg (by decide), if_neg (by decide), if_neg (by decide), Nat.zero_add]
          exact (emits_nativeMethods p rest).accepting fun hrest => ⟨nofun, hrest⟩
    | _ =>
      rw [nativeMethods, nativeSpans, nativeReferences, NativesAccepted, Place.afterNatives,
        nativeSentinels]
      · exact emits_nativeMethods p rest
      all_goals simp

/-- Run: so do the members of a class. -/
theorem emits_members {A : Prop} (p : Place) (className : String) : ∀ body : List Stmt,
    Emits ed A { p with className := some className } (members className body)
      (memberReferences p.binding p.scopes body)
      (Place.afterMembers { p with className := some className } body)
      (memberSpans { p with className := some className } className body) (MembersAccepted body)
  | [] => by
    rw [members, memberSpans, memberReferences, MembersAccepted, Place.afterMembers, memberScopes,
      memberSentinels]
    exact Emits.nothing
  | s :: rest => by
    by_cases hassign : ∃ left right, s = .assign left right
    · obtain ⟨left, right, rfl⟩ := hassign
      rw [members, memberSpans, memberReferences, MembersAccepted, Place.afterMembers, memberScopes,
        memberSentinels]
      exact (emits_classAttribute className left right).andThen (emits_members p className rest)
    · have hother : ∀ left right, s = .assign left right → False :=
        fun left right heq => hassign ⟨left, right, heq⟩
      rw [members, memberSpans, memberReferences, MembersAccepted, Place.afterMembers, memberScopes,
        memberSentinels, ← Place.later_later] <;>
        try exact hother
      exact (emits_statement { p with className := some className } s).andThen
        (emits_members (p.later (s.scopesAfter true p.scopes) (s.sentinels true)) className rest)

end

example : (Place.start none).deeper.depth = 1 := by decide +kernel

end Lowering

end ScriptCompiler
