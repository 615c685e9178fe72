import ScriptCompiler.Proofs.FrameWrites

/-!
# Variables are declared once

Each frame of a text declares a variable of the program once, where it is bound first, and none that
it has the name of already. Besides its variables, it declares the receiver of its function and one
name for each loop with an alternative. The numbers of these names are distinct, but the program may
have a variable of such a name. Then it is declared twice.
-/

namespace ScriptCompiler

open Spans (Inside)

/-! ## Frames -/

/-- A frame of a text: the names that it has from the start, among them those of receivers with a
variable, what its part of the program does to its variables, and what is written. -/
structure Frame where
  names : List String
  receivers : List String
  events : List FrameEvent
  spans : Spans

namespace Frame

/-- Behind any part of the events of a frame, none of the names that it has by then is declared. -/
def KeepsNames (F : Frame) : Prop :=
  ∀ before after, F.events = before ++ after →
    F.spans.variableWrites =
      frameWrites F.names before ++ frameWrites (before.filterMap (·.bound?) ++ F.names) after ∧
    ∀ id ∈ before.filterMap (·.bound?) ++ F.names,
      id ∉ declaredIn (frameWrites (before.filterMap (·.bound?) ++ F.names) after)

/-- A frame declares its variables once, where the program binds them first, and besides them only
its receiver and the names of its loops. -/
structure DeclaresOnce (F : Frame) : Prop where
  variableWrites : F.spans.variableWrites = frameWrites F.names F.events
  nodup : (declaredIn F.spans.variableWrites).Nodup
  keeps : F.KeepsNames
  receivers : F.spans.declaredAs .receiver = F.receivers
  sentinels : ∃ indices : List Nat, indices.Nodup ∧ F.spans.declaredAs .synthesized =
    indices.map sentinelName
  /-- Everything is declared once, and nothing that the frame has from the start but the receiver,
  unless a loop has the name of a variable. -/
  nodup_iff : (F.spans.declared.Nodup ∧ ∀ id ∈ F.spans.declared, id ∈ F.names → id ∈ F.receivers) ↔
    ∀ id ∈ F.spans.declaredAs .synthesized, id ∉ declaredIn F.spans.variableWrites ∧ id ∉ F.names

end Frame

section Frames

variable {F : Frame} {bound : List String} {events : List FrameEvent}

theorem frameWrites_split (bound : List String) (before after : List FrameEvent) :
    frameWrites bound (before ++ after) =
      frameWrites bound before ++ frameWrites (before.filterMap (·.bound?) ++ bound) after := by
  rw [frameWrites_append ⟨bound, []⟩]
  congr 1
  refine frameWrites_congr fun id => ?_
  rw [mem_current_after, List.mem_append]

theorem Frame.keepsNames (h : F.spans.variableWrites = frameWrites F.names F.events) :
    F.KeepsNames := by
  intro before after hevents
  refine ⟨?_, fun id hid => notMem_declaredIn hid⟩
  rw [h, hevents, frameWrites_split]

theorem sentinelName_injective : Function.Injective sentinelName := by
  intro i j h
  have hlist := congrArg String.toList h
  simp only [sentinelName, String.toList_append, List.append_cancel_right_eq,
    List.append_cancel_left_eq] at hlist
  exact Nat.repr_injective (String.toList_injective hlist)

/-- What a frame declares are its variables, its receivers and the names of its loops. -/
theorem Spans.declared_perm {xs : Spans}
    (hforms : ∀ w ∈ xs.written, w.1 = true → w.2.form = .declared ∨ w.2.form = .receiver ∨
    w.2.form = .synthesized) :
    xs.declared.Perm
    (declaredIn xs.variableWrites ++ (xs.declaredAs .receiver ++ xs.declaredAs .synthesized)) := by
  rw [Spans.declared, declaredIn, Spans.variableWrites, Spans.declaredAs, Spans.declaredAs]
  generalize xs.written = ws at hforms ⊢
  induction ws with
  | nil => exact .nil
  | cons w rest ih =>
    rw [List.forall_mem_cons] at hforms
    obtain ⟨hform, hrest⟩ := hforms
    specialize ih hrest
    obtain ⟨_ | _, form, id⟩ := w
    · cases form <;> simpa using ih
    · rcases hform rfl with rfl | rfl | rfl
      · simpa using ih
      · simpa using (ih.cons id).trans List.perm_middle.symm
      · rw [← List.append_assoc] at ih ⊢
        simpa using (ih.cons id).trans List.perm_middle.symm

theorem Frame.declaresOnce (hwrites : F.spans.variableWrites = frameWrites F.names F.events)
    (hreceivers : F.spans.declaredAs .receiver = F.receivers) (hone : F.receivers.Nodup)
    (hnames : F.receivers ⊆ F.names)
    (hsentinels : ∃ indices : List Nat, indices.Nodup ∧
    F.spans.declaredAs .synthesized = indices.map sentinelName)
    (hforms : ∀ w ∈ F.spans.written, w.1 = true →
      w.2.form = .declared ∨ w.2.form = .receiver ∨ w.2.form = .synthesized) : F.DeclaresOnce := by
  have hnodup : (declaredIn F.spans.variableWrites).Nodup := hwrites ▸ nodup_declaredIn
  have hfresh : ∀ id ∈ declaredIn F.spans.variableWrites, id ∉ F.names := by
    intro id hid hmem
    rw [hwrites] at hid
    exact notMem_declaredIn hmem hid
  have hdistinct : (F.spans.declaredAs .synthesized).Nodup := by
    obtain ⟨indices, hindices, heq⟩ := hsentinels
    rw [heq]
    exact hindices.map sentinelName_injective
  have hperm := Spans.declared_perm hforms
  rw [hreceivers] at hperm
  refine ⟨hwrites, hnodup, Frame.keepsNames hwrites, hreceivers, hsentinels, ?_, ?_⟩
  · rintro ⟨hdeclared, hkept⟩ id hid
    have hmem : id ∈ F.spans.declared := hperm.mem_iff.2 (by simp [hid])
    rw [hperm.nodup_iff, List.nodup_append, List.nodup_append] at hdeclared
    obtain ⟨-, ⟨-, -, hloops⟩, hvariables⟩ := hdeclared
    refine ⟨fun hvariable => hvariables id hvariable id (by simp [hid]) rfl, fun hname => ?_⟩
    exact hloops id (hkept id hmem hname) id hid rfl
  · intro happart
    rw [hperm.nodup_iff, List.nodup_append, List.nodup_append]
    refine ⟨⟨hnodup, ⟨hone, hdistinct, ?_⟩, ?_⟩, ?_⟩
    · rintro id hreceiver _ hid rfl
      exact (happart id hid).2 (hnames hreceiver)
    · rintro id hvariable _ hother rfl
      rcases List.mem_append.1 hother with hreceiver | hid
      · exact hfresh id hvariable (hnames hreceiver)
      · exact (happart id hid).1 hvariable
    · intro id hid hname
      rcases List.mem_append.1 (hperm.mem_iff.1 hid) with hvariable | hother
      · exact absurd hname (hfresh id hvariable)
      · exact (List.mem_append.1 hother).resolve_right fun hid => (happart id hid).2 hname

end Frames

/-- The receiver for which a function has a variable. -/
def Lowering.Receiver.variableNames : Lowering.Receiver → List String
  | .bound name => if name ≠ Lowering.selfName then [name] else []
  | .absent | .unbound => []

theorem Lowering.Receiver.nodup_variableNames (receiver : Lowering.Receiver) :
    receiver.variableNames.Nodup := by
  unfold variableNames
  split
  · split_ifs <;> simp
  · exact List.nodup_nil
  · exact List.nodup_nil

theorem Lowering.Receiver.variableNames_subset (receiver : Lowering.Receiver) :
    receiver.variableNames ⊆ receiver.boundNames := by
  cases receiver with
  | bound name =>
    rw [variableNames, boundNames]
    split_ifs <;> simp
  | _ => exact List.nil_subset _

def WrittenFunction.frame (f : WrittenFunction) : Frame :=
  ⟨f.names, f.receiver.variableNames, blockEvents false f.body, f.inner⟩

namespace SourceText

/-- The frame of a whole text. -/
def outerFrame (t : SourceText) (binding : Option Binding) : Frame :=
  match t.entry, firstFunction? t.program with
  | .module, _ => ⟨[], [], blockEvents false t.program, t.spans binding⟩
  | .body, some d =>
    ⟨withoutSelf (declaredNames d.parameters), [], blockEvents false d.body, t.spans binding⟩
  | _, _ => ⟨[], [], [], t.spans binding⟩

end SourceText

/-- Lines of a frame behind what the function around it begins with, which declares its receivers
only. -/
theorem FrameText.declaresOnce {F : Frame} {scopes : Scopes} {first count : Nat} {xs : Spans}
    (h : FrameText scopes first count F.events xs) (head : Spans) (hspans : F.spans = head ++ xs)
    (hnames : ∀ id, id ∈ scopes.current ↔ id ∈ F.names)
    (hhead : ∀ w ∈ head.written, w.1 = false ∧ w.2.form = .parameter ∨ w.1 = true ∧
    w.2.form = .receiver)
    (hreceivers : head.declaredAs .receiver = F.receivers) (hone : F.receivers.Nodup)
    (hbound : F.receivers ⊆ F.names) : F.DeclaresOnce := by
  have hwritten : F.spans.written = head.written ++ xs.written := by
    rw [hspans, Spans.written, Spans.writtenFrom_append h.onLine.head?_ne]
    rfl
  have hvariables : head.variableWrites = [] := by
    rw [Spans.variableWrites, List.map_eq_nil_iff, List.filter_eq_nil_iff]
    intro w hw
    rcases hhead w hw with ⟨-, hform⟩ | ⟨-, hform⟩ <;> simp [hform]
  have hloops : head.declaredAs .synthesized = [] := by
    rw [Spans.declaredAs, List.map_eq_nil_iff, List.filter_eq_nil_iff]
    intro w hw
    rcases hhead w hw with ⟨-, hform⟩ | ⟨-, hform⟩ <;> simp [hform]
  have hother : xs.declaredAs .receiver = [] := by
    rw [Spans.declaredAs, List.map_eq_nil_iff, List.filter_eq_nil_iff]
    intro w hw
    cases hflag : w.1 with
    | false => simp
    | true => rcases h.forms w hw hflag with hform | hform <;> simp [hform]
  have happend : ∀ form, (head ++ xs).declaredAs form = head.declaredAs form ++
      xs.declaredAs form :=
    fun form => Spans.declaredAs_append form h.onLine.head?_ne
  refine Frame.declaresOnce ?_ ?_ hone hbound ?_ ?_
  · rw [hspans, Spans.variableWrites_append h.onLine.head?_ne, hvariables, h.variableWrites,
      List.nil_append,
      frameWrites_congr hnames]
  · rw [hspans, happend, hother, List.append_nil, hreceivers]
  · obtain ⟨indices, hindices, -, heq⟩ := h.sentinels
    refine ⟨indices, hindices.imp fun hlt => Nat.ne_of_lt hlt, ?_⟩
    rw [hspans, happend, hloops, List.nil_append, heq]
  · intro w hw hflag
    rw [hwritten] at hw
    rcases List.mem_append.1 hw with hw | hw
    · rcases hhead w hw with ⟨hfalse, -⟩ | ⟨-, hform⟩
      · rw [hfalse] at hflag
        cases hflag
      · exact .inr (.inl hform)
    · exact (h.forms w hw hflag).imp id .inr

namespace WrittenFunction

/-- The parameters are written bare, in the signature and in the lines for the defaults. -/
theorem written_signature (formals : List Spans.Formal) :
    ∀ w ∈ (Spans.signature formals).written, w.1 = false ∧ w.2.form = .parameter := by
  suffices hcommas :
      ∀ w ∈ Spans.writtenFrom false (Spans.commas (formals.map fun p => [Spans.parameter p.name])),
      w.1 = false ∧ w.2.form = .parameter by
    intro w hw
    rw [Spans.signature, Spans.parens, Spans.written, Spans.writtenFrom_append (by simp)] at hw
    exact hcommas w (by simpa [Spans.written] using hw)
  unfold Spans.commas
  induction formals with
  | nil => simp
  | cons formal rest ih => cases rest <;> simp_all [List.intercalate_cons_cons, Spans.parameter]

theorem written_defaultLines (p : Place) (parameters : List Parameter) (depth : Nat) :
    Spans.OnLine ((formalSpans p parameters).flatMap (Spans.defaultLine depth)) ∧
      ∀ w ∈ Spans.written ((formalSpans p parameters).flatMap (Spans.defaultLine depth)),
        w.1 = false ∧ w.2.form = .parameter := by
  induction parameters with
  | nil => exact ⟨.nil, List.forall_mem_nil _⟩
  | cons parameter rest ih =>
    cases parameter with
    | plain name => simpa [formalSpans, Spans.defaultLine] using ih
    | withDefault name value =>
      rw [formalSpans, List.flatMap_cons, Spans.defaultLine]
      refine ⟨(Spans.OnLine.line depth _).append ih.1, fun w hw => ?_⟩
      rw [Spans.written, Spans.writtenFrom_append ih.1.head?_ne] at hw
      refine (List.mem_append.1 hw).elim (fun hw => ?_) (ih.2 w)
      have hline : w = (false, ⟨.parameter, name⟩) := by
        simpa [Spans.line, Spans.parameter, Spans.writtenFrom_of_bare] using hw
      simp [hline]
    | foreign pos construct => exact ⟨.nil, List.forall_mem_nil _⟩

theorem onLine_receiverLine (depth : Nat) (receiver : Lowering.Receiver) :
    (Spans.receiverLine depth receiver).OnLine := by
  cases receiver with
  | bound name =>
    rw [Spans.receiverLine]
    split_ifs
    · exact .line depth _
    · exact .nil
  | _ => exact .nil

theorem written_receiverLine (depth : Nat) (receiver : Lowering.Receiver) :
    (Spans.receiverLine depth receiver).written = receiver.variableNames.map
    (true, ⟨.receiver, ·⟩) := by
  cases receiver with
  | bound name =>
    rw [Spans.receiverLine, Lowering.Receiver.variableNames]
    split_ifs <;> simp [Spans.written, Spans.line]
  | _ => rfl

theorem written_prologue (f : WrittenFunction) : ∃ ws : List (Bool × Introduction),
    (∀ w ∈ ws, w.1 = false ∧ w.2.form = .parameter) ∧
      f.prologue.written = ws ++ f.receiver.variableNames.map (true, ⟨.receiver, ·⟩) := by
  obtain ⟨-, hdefaults⟩ := written_defaultLines f.outside f.parameters (f.depth + 1)
  refine ⟨_ ++ _, fun w hw => (List.mem_append.1 hw).elim
    (written_signature (formalSpans f.outside f.parameters) w) (hdefaults w), ?_⟩
  rw [prologue, Spans.written, Spans.writtenFrom_append (by simp), List.append_assoc,
    ← written_receiverLine (f.depth + 1)]
  exact congrArg _
    (Spans.writtenFrom_append (onLine_receiverLine (f.depth + 1) f.receiver).head?_ne)

/-- A function declares once what its body declares, and its receiver. -/
theorem declaresOnce {f : WrittenFunction} (hf : f.HasFrame)
    (haccepted : BlockAccepted false f.body) : f.frame.DeclaresOnce := by
  have hbody := frameText_block f.inside f.body (hf.inClass.symm ▸ haccepted)
  rw [hf.inClass] at hbody
  have hclosing : Spans.Plain [.margin f.depth, .text f.closer] :=
    ⟨.margin _ _, List.forall_mem_nil _⟩
  have hspans :
      f.frame.spans = f.prologue ++
      (blockSpans f.inside f.body ++ [.margin f.depth, .text f.closer]) := by
    rw [← List.append_assoc, ← inner_eq]
    rfl
  obtain ⟨ws, hws, hprologue⟩ := f.written_prologue
  refine (hbody.behind hclosing).declaresOnce f.prologue hspans hf.names (fun w hw => ?_) ?_ ?_ ?_
  · rw [hprologue] at hw
    rcases List.mem_append.1 hw with hw | hw
    · exact .inl (hws w hw)
    · obtain ⟨name, -, rfl⟩ := List.mem_map.1 hw
      exact .inr ⟨rfl, rfl⟩
  · have hfilter : ws.filter (fun w => w.1 && w.2.form = .receiver) = [] :=
      List.filter_eq_nil_iff.2 fun w hw => by simp [hws w hw]
    rw [Spans.declaredAs, hprologue, List.filter_append, hfilter, List.nil_append,
      List.filter_eq_self.2 (by simp),
      List.map_map]
    exact List.map_id _
  · exact f.receiver.nodup_variableNames
  · exact fun id hid => List.mem_append_right _ (f.receiver.variableNames_subset hid)

end WrittenFunction

theorem accepted_nativeFunctions {p : Place} {body : List Stmt} (h : NativesAccepted body) :
    ∀ f ∈ nativeFunctions p body, BlockAccepted false f.body := by
  fun_induction nativeFunctions p body with
  | case1 => exact List.forall_mem_nil _
  | case2 p decorators pos isAsync namePos name parameters body rest hnative ih =>
    rw [List.forall_mem_cons]
    exact ⟨h.1 hnative, ih h.2⟩
  | case3 p decorators pos isAsync namePos name parameters body rest hnative ih => exact ih h.2
  | case4 p s rest hother ih =>
    rw [NativesAccepted] at h
    · exact ih h
    · exact hother

theorem WrittenFunction.body_free (depth : Nat) (p : Place) (parameters : List Parameter)
    (body : List Stmt) :
    (free depth p parameters body).body = body := by
  unfold free
  split_ifs <;> rfl

theorem Phrase.accepted_methods {x : Phrase} {p : Place} {f : WrittenFunction} (h : x.Accepted p)
    (hf : f ∈ x.methods p) : BlockAccepted false f.body := by
  unfold Phrase.methods at hf
  split at hf
  · rename_i decorators d
    obtain ⟨pos, isAsync, namePos, name, parameters, body⟩ := d
    rw [Phrase.Accepted, Stmt.Accepted, Place.inClass] at h
    rw [Option.mem_toList, FunctionDef.written?] at hf
    split at hf
    · rename_i hclass
      obtain rfl := Option.some_inj.mp hf
      rw [WrittenFunction.body_free]
      exact h (by simp [hclass])
    · rename_i className hclass
      split at hf
      · cases hf
      · rename_i hform
        obtain rfl := Option.some_inj.mp hf
        exact h (by simp [isNative, hform])
      · rename_i hnative _
        obtain rfl := Option.some_inj.mp hf
        have hform : isNative decorators = false := Bool.eq_false_iff.2 fun h =>
          hnative (methodForm_of_isNative h)
        exact h (by simp [hform])
  · exact accepted_nativeFunctions h.1 f hf
  · cases hf

namespace SourceText

variable {t : SourceText} {binding : Option Binding}

/-- Every frame of a text declares once what its part of the program binds: that of the text itself,
and those of the functions in it. -/
def DeclaresOnce (t : SourceText) (binding : Option Binding) (_ : Edition) : Prop :=
  (t.outerFrame binding).DeclaresOnce ∧ ∀ f ∈ t.functions binding,
    f.frame.DeclaresOnce ∧ ∃ outer head, Inside outer (f.spans head) (t.spans binding)

theorem declaresOnce_outerFrame (h : ProgramAccepted t.program t.entry) :
    (t.outerFrame binding).DeclaresOnce := by
  have hlines :
      ∀ {scopes : Scopes} {first count : Nat} {names : List String} {events : List FrameEvent}
      {xs : Spans},
      FrameText scopes first count events xs → (∀ id, id ∈ scopes.current ↔ id ∈ names) →
        Frame.DeclaresOnce ⟨names, [], events, xs⟩ :=
    fun hxs hnames => hxs.declaresOnce [] rfl hnames (List.forall_mem_nil _) rfl List.nodup_nil
      (List.nil_subset _)
  rw [outerFrame, SourceText.spans]
  cases hentry : t.entry with
  | module =>
    rw [hentry] at h
    exact hlines (frameText_block (.start binding) t.program h) fun _ => Iff.rfl
  | body =>
    rw [programSpans]
    cases hfirst : firstFunction? t.program with
    | none => exact hlines (.plain .nil : FrameText .empty 0 0 [] []) fun _ => Iff.rfl
    | some d =>
      rw [hentry] at h
      have hbody :=
        frameText_block
          ((Place.start binding).registerAll (withoutSelf (declaredNames d.parameters)))
        d.body (h d hfirst)
      refine hlines hbody fun id => ?_
      exact mem_current_registerAll.trans (or_iff_left List.not_mem_nil)
  | callable name =>
    rw [programSpans]
    cases hfirst : firstFunction? t.program with
    | none => exact hlines (.plain .nil : FrameText .empty 0 0 [] []) fun _ => Iff.rfl
    | some d =>
      exact hlines (.plain (Spans.plain_namedFunction ..) : FrameText .empty 0 0 [] _) fun _ =>
        Iff.rfl

theorem accepted_function {f : WrittenFunction} (h : ProgramAccepted t.program t.entry)
    (hf : f ∈ t.functions binding) : f.HasFrame ∧ BlockAccepted false f.body := by
  rcases List.mem_append.mp hf with hf | hf
  · split at hf
    · rename_i name d hentry hfirst
      obtain rfl := List.mem_singleton.mp hf
      rw [WrittenFunction.body_free]
      rw [hentry] at h
      exact ⟨WrittenFunction.hasFrame_free .., h d hfirst⟩
    · cases hf
  · obtain ⟨c, hc, hf⟩ := List.mem_flatMap.mp hf
    have haccepted := SourceText.accepted_parts h binding c (List.mem_filter.mp hc).1
    exact ⟨Phrase.hasFrame_methods hf, Phrase.accepted_methods haccepted hf⟩

theorem declaresOnce (h : ProgramAccepted t.program t.entry) (ed : Edition) :
    t.DeclaresOnce binding ed := by
  refine ⟨declaresOnce_outerFrame h, fun f hf => ⟨?_, exists_function_inside hf⟩⟩
  obtain ⟨hframe, haccepted⟩ := accepted_function h hf
  exact WrittenFunction.declaresOnce hframe haccepted

end SourceText

/-- In every text of a unit or a bundle, each frame declares the variables of its part of the
program once, at the first assignment, annotation or loop that binds them, and not if the frame has
the name already. The names of loops are declared besides them, and apart from each other. -/
theorem variables_declared_once (options : Options) :
    (∀ (unit : SourceUnit) (output : String), unit.compile options = .ok output →
      unit.TextsHave options output SourceText.DeclaresOnce) ∧
    ∀ (bundle : Bundle) (output : String), bundle.compile options = .ok output →
      bundle.TextsHave options output SourceText.DeclaresOnce :=
  textsHave (fun _ _ ed _ haccepted => SourceText.declaresOnce haccepted ed) options

def declaringSource :
    String := "class A:\n    def m(me, n):\n        n = me\n        x = n\n        x = 1\nx = 1\n"

def declaringOutput : String :=
  "class A \x7b\n\x7d\nA.prototype.m = function(n) \x7b\n    var me = this;\n    n = me;\n" ++
  "    var x = n;\n" ++
    "    x = 1;\n\x7d;\nA.m = function() \x7b\n" ++
    "    return A.prototype.m.apply(arguments[0], Array.prototype.slice.call(arguments, 1));\n" ++
    "\x7d;\nvar x = 1;\n"

def declaringUnit : SourceUnit := ⟨declaringSource, none, .module⟩

def declaringBundle :
    Bundle := ⟨[(.element "class A:\n    pass\nx = 1\n" none none none, none)], none⟩

def declaringBundleOutput : String := "class A \x7b\n\x7d\n/* pass */\nvar x = 1;\n"

theorem variables_declared_once_by_class :
    (declaringUnit.compile {} = .ok declaringOutput ∧
      declaringUnit.TextsHave {} declaringOutput SourceText.DeclaresOnce ∧
      ((SourceText.mk declaringSource .module declaringOutput).outerFrame
      none).spans.declared = ["x"] ∧
      (((SourceText.mk declaringSource .module declaringOutput).functions none).map fun f =>
        (f.frame.names, f.frame.spans.declared)) = [(["n", "me"], ["me", "x"])]) ∧
    declaringBundle.compile {} = .ok declaringBundleOutput ∧
      declaringBundle.TextsHave {} declaringBundleOutput SourceText.DeclaresOnce := by
  have hunit : declaringUnit.compile {} = .ok declaringOutput := by decide +kernel
  have hbundle : declaringBundle.compile {} = .ok declaringBundleOutput := by decide +kernel
  exact ⟨⟨hunit, (variables_declared_once {}).1 declaringUnit _ hunit, by decide +kernel, by
    decide +kernel⟩,
    hbundle, (variables_declared_once {}).2 declaringBundle _ hbundle⟩

/-- A variable that has the name of a loop is declared a second time, and the loop sets it. -/
theorem loop_declares_variable_again :
    (SourceUnit.mk "__orelse0__ = 1\nwhile a:\n    pass\nelse:\n    pass\n" none .module).compile
    {} =
      .ok ("var __orelse0__ = 1;\nvar __orelse0__ = false;\nwhile (true) \x7b\n" ++
        "    if (!(a)) \x7b\n" ++
        "        __orelse0__ = true;\n        break;\n    \x7d\n    /* pass */\n\x7d\n" ++
        "if (__orelse0__) \x7b\n" ++
        "    /* pass */\n\x7d\n") := by
  decide +kernel

end ScriptCompiler
