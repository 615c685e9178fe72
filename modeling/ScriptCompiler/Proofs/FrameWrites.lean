import ScriptCompiler.Proofs.Frames
import ScriptCompiler.Proofs.LoweredParts

/-!
# What a frame writes

A frame of a script is the text of a function outside of the functions in it, or that of the whole
script. Its variables are those of the program's frame, and they are written where the program
assigns, annotates or updates them: behind `var` at the first assignment or annotation of a name
that the frame does not have yet, and bare everywhere else. What other frames do to a name does not
matter. Besides, a frame declares one name for each loop with an alternative.
-/

namespace ScriptCompiler

/-! ## What a program writes in a frame -/

/-- How a frame that has certain names already writes the variable of an event, each time with
whether it is declared there. -/
def FrameEvent.writes (bound : List String) : FrameEvent → List (Bool × String)
  | .assign id => [(!bound.contains id, id)]
  | .annotate id => if bound.contains id then [] else [(true, id)]
  | .update id count => List.replicate count (false, id)
  | .register _ => []

/-- How a frame that has certain names already writes the variables of events, one after the
other. -/
def frameWrites (bound : List String) : List FrameEvent → List (Bool × String)
  | [] => []
  | e :: rest => e.writes bound ++ frameWrites (e.bound?.toList ++ bound) rest

/-- The names that are declared by what is written. -/
def declaredIn (writes : List (Bool × String)) : List String := (writes.filter (·.1)).map (·.2)

section FrameWrites

variable {bound bound' : List String} {e : FrameEvent} {events : List FrameEvent}

theorem FrameEvent.writes_congr (h : ∀ id, id ∈ bound ↔ id ∈ bound') :
    e.writes bound = e.writes bound' := by
  have hcontains : ∀ id, bound.contains id = bound'.contains id := by
    intro id
    rw [Bool.eq_iff_iff, List.contains_iff_mem, List.contains_iff_mem]
    exact h id
  cases e <;> simp only [writes, hcontains]

/-- The order in which a frame got its names does not matter. -/
theorem frameWrites_congr (h : ∀ id, id ∈ bound ↔ id ∈ bound') :
    frameWrites bound events = frameWrites bound' events := by
  induction events generalizing bound bound' with
  | nil => rfl
  | cons e rest ih =>
    rw [frameWrites, frameWrites, e.writes_congr h, ih fun id => ?_]
    rw [List.mem_append, List.mem_append, h]

theorem mem_current_after {scopes : Scopes} {events : List FrameEvent} {id : String} :
    id ∈ (scopes.after events).current ↔ id ∈ events.filterMap (·.bound?) ∨ id ∈ scopes.current :=
  mem_current_registerAll

theorem frameWrites_append (scopes : Scopes) (as bs : List FrameEvent) :
    frameWrites scopes.current (as ++ bs) =
      frameWrites scopes.current as ++ frameWrites (scopes.after as).current bs := by
  induction as generalizing scopes with
  | nil => rfl
  | cons e rest ih =>
    have hstep : ∀ id, id ∈ e.bound?.toList ++ scopes.current ↔
        id ∈ (scopes.after [e]).current := by
      intro id
      rw [mem_current_after, List.mem_append]
      cases hbound : e.bound? <;> simp [hbound]
    rw [List.cons_append, frameWrites, frameWrites, frameWrites_congr hstep,
      frameWrites_congr hstep, ih,
      List.append_assoc, ← Scopes.after_append]
    rfl

theorem frameWrites_registers (bound names : List String) :
    frameWrites bound (names.map .register) = [] := by
  induction names generalizing bound with
  | nil => rfl
  | cons name rest ih => exact ih _

theorem declaredIn_append (as bs : List (Bool × String)) :
    declaredIn (as ++ bs) = declaredIn as ++ declaredIn bs := by
  rw [declaredIn, List.filter_append, List.map_append]
  rfl

theorem FrameEvent.declaredIn_writes (bound : List String) (e : FrameEvent) :
    declaredIn (e.writes bound) = [] ∨ ∃ id, e.bound? = some id ∧ id ∉ bound ∧
    declaredIn (e.writes bound) = [id] := by
  cases e with
  | assign id | annotate id =>
    by_cases hid : id ∈ bound
    · exact .inl (by simp [writes, declaredIn, hid])
    · exact .inr ⟨id, rfl, hid, by simp [writes, declaredIn, hid]⟩
  | update id count => exact .inl (by simp [writes, declaredIn])
  | register id => exact .inl rfl

/-- A name that a frame has already is not declared in it. -/
theorem notMem_declaredIn {id : String} (h : id ∈ bound) :
    id ∉ declaredIn (frameWrites bound events) := by
  induction events generalizing bound with
  | nil => exact List.not_mem_nil
  | cons e rest ih =>
    rw [frameWrites, declaredIn_append, List.mem_append, not_or]
    refine ⟨?_, ih (List.mem_append_right _ h)⟩
    rcases e.declaredIn_writes bound with hnone | ⟨id', -, hfresh, hone⟩
    · rw [hnone]
      exact List.not_mem_nil
    · rw [hone, List.mem_singleton]
      rintro rfl
      exact hfresh h

/-- A frame declares each of its variables once at most. -/
theorem nodup_declaredIn : (declaredIn (frameWrites bound events)).Nodup := by
  induction events generalizing bound with
  | nil => exact List.nodup_nil
  | cons e rest ih =>
    rw [frameWrites, declaredIn_append]
    rcases e.declaredIn_writes bound with hnone | ⟨id, hbound, -, hone⟩
    · rw [hnone]
      exact ih
    · rw [hone, hbound]
      exact List.nodup_cons.2 ⟨notMem_declaredIn List.mem_cons_self, ih⟩

end FrameWrites

/-! ## What a draft writes in a frame -/

def Span.isVar : Span → Bool
  | .text t => t == "var "
  | _ => false

namespace Spans

/-- The names that spans introduce outside of the functions in them, each with whether `var` stands
before it. -/
def writtenFrom (declared : Bool) : Spans → List (Bool × Introduction)
  | [] => []
  | .introduction i :: rest => (declared, i) :: writtenFrom false rest
  | s :: rest => writtenFrom s.isVar rest

def written (xs : Spans) : List (Bool × Introduction) := writtenFrom false xs

/-- The variables of the program that a frame writes, each time with whether it is declared
there. -/
def variableWrites (xs : Spans) : List (Bool × String) :=
  (xs.written.filter fun w => w.2.form = .declared || w.2.form = .reassigned).map fun w =>
    (w.1, w.2.id)

/-- How a variable of the program is written. -/
def asVariable (w : Bool × String) :
    Bool × Introduction := (w.1, ⟨if w.1 then .declared else .reassigned, w.2⟩)

/-- The names that a frame declares. -/
def declared (xs : Spans) : List String := (xs.written.filter (·.1)).map (·.2.id)

/-- The names that a frame declares in one form. -/
def declaredAs (form : BindingForm) (xs : Spans) : List String :=
  (xs.written.filter fun w => w.1 && w.2.form = form).map (·.2.id)

/-- Spans that begin a line. -/
def OnLine (xs : Spans) : Prop := ∀ s ∈ xs.head?, ∃ depth, s = .margin depth

section Written

variable {xs ys : Spans} {declared : Bool}

@[simp] theorem writtenFrom_nil : writtenFrom declared [] = [] := rfl

@[simp] theorem writtenFrom_text (t : String) :
    writtenFrom declared (.text t :: xs) = writtenFrom (t == "var ") xs := rfl

@[simp] theorem writtenFrom_margin (depth : Nat) :
    writtenFrom declared (.margin depth :: xs) = writtenFrom false xs := rfl

@[simp] theorem writtenFrom_mention (m : Mention) :
    writtenFrom declared (.mention m :: xs) = writtenFrom false xs := rfl

@[simp] theorem writtenFrom_guarded (inner : Spans) :
    writtenFrom declared (.guarded inner :: xs) = writtenFrom false xs := rfl

@[simp] theorem writtenFrom_function (inner : Spans) :
    writtenFrom declared (.function inner :: xs) = writtenFrom false xs := rfl

@[simp] theorem writtenFrom_introduction (i : Introduction) :
    writtenFrom declared (.introduction i :: xs) = (declared, i) :: writtenFrom false xs := rfl

/-- What stands before spans matters only for an introduction that they begin with. -/
theorem writtenFrom_append (h : ∀ i, ys.head? ≠ some (.introduction i)) :
    writtenFrom declared (xs ++ ys) = writtenFrom declared xs ++ ys.written := by
  induction xs generalizing declared with
  | nil =>
    cases ys with
    | nil => rfl
    | cons s rest =>
      cases s with
      | introduction i => exact absurd rfl (h i)
      | _ => rfl
  | cons s rest ih => cases s <;> simp [ih]

theorem OnLine.head?_ne (h : ys.OnLine) (i : Introduction) : ys.head? ≠ some (.introduction i) := by
  intro hhead
  obtain ⟨depth, hmargin⟩ := h _ hhead
  cases hmargin

/-- Without introductions nothing is written. -/
theorem writtenFrom_of_bare (h : introduced xs = []) : writtenFrom declared xs = [] := by
  induction xs generalizing declared with
  | nil => rfl
  | cons s rest ih =>
    rw [introduced] at h
    obtain ⟨hs, hrest⟩ := List.append_eq_nil_iff.1 h
    cases s with
    | introduction i =>
      rw [Span.introduced] at hs
      cases hs
    | _ => exact ih hrest

theorem OnLine.nil : OnLine [] := nofun

theorem OnLine.margin (depth : Nat) (xs : Spans) : OnLine (.margin depth :: xs) := by
  rintro _ ⟨⟩
  exact ⟨depth, rfl⟩

theorem OnLine.line (depth : Nat) (xs : Spans) : OnLine (line depth xs) := .margin depth _

theorem OnLine.append (hxs : OnLine xs) (hys : OnLine ys) : OnLine (xs ++ ys) := by
  cases xs with
  | nil => exact hys
  | cons s rest => exact hxs

end Written

end Spans

/-! ## Statements -/

/-- The name that a loop with an alternative declares. -/
def sentinelName (index : Nat) : String := "__orelse" ++ toString index ++ "__"

/-- Spans that stand on lines of their own and neither declare a name nor write a variable. -/
structure Spans.Plain (xs : Spans) : Prop where
  onLine : xs.OnLine
  written : ∀ w ∈ xs.written, w.1 = false ∧ w.2.form ≠ .declared ∧ w.2.form ≠ .reassigned

/-- Spans that write the variables of a frame as the events of a part of the program want it, and of
the other names declare only those of loops, the numbers of which are distinct and in a range. -/
structure FrameText (scopes : Scopes) (first count : Nat) (events : List FrameEvent) (xs : Spans) :
    Prop where
  onLine : xs.OnLine
  variableWrites : xs.variableWrites = frameWrites scopes.current events
  forms : ∀ w ∈ xs.written, w.1 = true → w.2.form = .declared ∨ w.2.form = .synthesized
  sentinels : ∃ indices : List Nat, indices.Pairwise (· < ·) ∧
    (∀ i ∈ indices, first ≤ i ∧ i < first + count) ∧
    xs.declaredAs .synthesized = indices.map sentinelName

namespace Spans

variable {xs ys : Spans}

theorem variableWrites_append (h : ∀ i, ys.head? ≠ some (.introduction i)) :
    (xs ++ ys).variableWrites = xs.variableWrites ++ ys.variableWrites := by
  rw [variableWrites, written, writtenFrom_append h, List.filter_append, List.map_append]
  rfl

theorem declaredAs_append (form : BindingForm) (h : ∀ i, ys.head? ≠ some (.introduction i)) :
    (xs ++ ys).declaredAs form = xs.declaredAs form ++ ys.declaredAs form := by
  rw [declaredAs, written, writtenFrom_append h, List.filter_append, List.map_append]
  rfl

namespace Plain

theorem variableWrites_eq (h : xs.Plain) : xs.variableWrites = [] := by
  rw [variableWrites, List.map_eq_nil_iff, List.filter_eq_nil_iff]
  intro w hw
  simp [h.written w hw]

theorem declaredAs_eq (h : xs.Plain) (form : BindingForm) : xs.declaredAs form = [] := by
  rw [declaredAs, List.map_eq_nil_iff, List.filter_eq_nil_iff]
  intro w hw
  simp [h.written w hw]

theorem nil : Plain [] := ⟨.nil, List.forall_mem_nil _⟩

theorem append (hxs : xs.Plain) (hys : ys.Plain) : (xs ++ ys).Plain := by
  refine ⟨hxs.onLine.append hys.onLine, fun w hw => ?_⟩
  rw [Spans.written, writtenFrom_append hys.onLine.head?_ne] at hw
  exact (List.mem_append.1 hw).elim (hxs.written w) (hys.written w)

theorem bareLine (depth : Nat) (h : introduced xs = []) : (line depth xs).Plain := by
  refine ⟨.line depth xs, fun w hw => ?_⟩
  rw [Spans.written, writtenFrom_of_bare (by simpa using h)] at hw
  cases hw

theorem textLine (depth : Nat) (t : String) : (textLine depth t).Plain := bareLine depth (by simp)

theorem between (depth : Nat) (opening closing : String) (h : introduced xs = []) :
    (line depth (.text opening :: xs ++ [.text closing])).Plain :=
  bareLine depth (by simp [h])

/-- A function is plain if what it begins with is. -/
theorem function {head : Spans}
    (hhead : ∀ w ∈ head.written, w.1 = false ∧ w.2.form ≠ .declared ∧ w.2.form ≠ .reassigned)
    (depth : Nat)
    (formals : List Formal) (receiver : Lowering.Receiver) (closer : String) (body : Spans) :
    (Spans.function depth head formals receiver closer body).Plain := by
  refine ⟨.margin depth _, fun w hw => ?_⟩
  rw [Spans.function, List.cons_append, Spans.written, writtenFrom_margin,
    writtenFrom_append (by simp)] at hw
  rcases List.mem_append.1 hw with hw | hw
  · exact hhead w hw
  · simp [Spans.written] at hw

end Plain

end Spans

namespace FrameText

variable {scopes : Scopes} {first count n m : Nat} {events as bs : List FrameEvent} {xs ys : Spans}

theorem plain (h : xs.Plain) : FrameText scopes first count [] xs where
  onLine := h.onLine
  variableWrites := h.variableWrites_eq
  forms w hw hdeclared := absurd hdeclared (by simp [h.written w hw])
  sentinels := ⟨[], .nil, List.forall_mem_nil _, h.declaredAs_eq _⟩

theorem append {scopes' : Scopes} {first' : Nat} (hxs : FrameText scopes first n as xs)
    (hys : FrameText scopes' first' m bs ys) (hscopes : scopes' = scopes.after as)
    (hfirst : first' = first + n) : FrameText scopes first (n + m) (as ++ bs) (xs ++ ys) := by
  subst hscopes hfirst
  have hhead : ∀ i, ys.head? ≠ some (.introduction i) := hys.onLine.head?_ne
  obtain ⟨is, his, hisrange, hisnames⟩ := hxs.sentinels
  obtain ⟨js, hjs, hjsrange, hjsnames⟩ := hys.sentinels
  refine ⟨hxs.onLine.append hys.onLine, ?_, fun w hw => ?_, is ++ js, ?_, ?_, ?_⟩
  · rw [Spans.variableWrites_append hhead, hxs.variableWrites, hys.variableWrites,
      frameWrites_append]
  · rw [Spans.written, Spans.writtenFrom_append hhead] at hw
    exact (List.mem_append.1 hw).elim (hxs.forms w) (hys.forms w)
  · refine List.pairwise_append.2 ⟨his, hjs, fun i hi j hj => ?_⟩
    have := hisrange i hi
    have := hjsrange j hj
    omega
  · intro i hi
    rcases List.mem_append.1 hi with hi | hi
    · have := hisrange i hi
      omega
    · have := hjsrange i hi
      omega
  · rw [Spans.declaredAs_append _ hhead, hisnames, hjsnames, List.map_append]

/-- Lines that write nothing may stand before. -/
theorem before (h : FrameText scopes first count events ys) (hxs : xs.Plain) :
    FrameText scopes first count events (xs ++ ys) := by
  have happend := (plain hxs : FrameText scopes first 0 [] xs).append h rfl rfl
  rwa [Nat.zero_add, List.nil_append] at happend

/-- Lines that write nothing may stand behind. -/
theorem behind (h : FrameText scopes first count events xs) (hys : ys.Plain) :
    FrameText scopes first count events (xs ++ ys) := by
  have happend := h.append (plain hys : FrameText _ _ 0 [] ys) rfl rfl
  rwa [Nat.add_zero, List.append_nil] at happend

/-- Registered names are not written. -/
theorem registering (h : FrameText scopes first count [] xs) (names : List String) :
    FrameText scopes first count (names.map .register) xs :=
  { h with variableWrites := h.variableWrites.trans (frameWrites_registers _ names).symm }

/-- Spans that write the variables of the frame and nothing else. -/
theorem ofWrites (honLine : xs.OnLine)
    (hwritten : xs.written = (frameWrites scopes.current events).map Spans.asVariable) :
    FrameText scopes first count events xs where
  onLine := honLine
  variableWrites := by
    rw [Spans.variableWrites, hwritten, List.filter_map, List.map_map,
      List.filter_eq_self.2 fun w _ => ?_]
    · exact List.map_id _
    · cases hdeclared : w.1 <;> simp [Spans.asVariable, hdeclared]
  forms w hw hdeclared := by
    rw [hwritten] at hw
    obtain ⟨w, -, rfl⟩ := List.mem_map.1 hw
    exact .inl (if_pos hdeclared)
  sentinels := by
    refine ⟨[], .nil, List.forall_mem_nil _, ?_⟩
    rw [Spans.declaredAs, hwritten, List.map_nil, List.map_eq_nil_iff, List.filter_eq_nil_iff]
    intro w hw
    obtain ⟨w, -, rfl⟩ := List.mem_map.1 hw
    cases hdeclared : w.1 <;> simp [Spans.asVariable, hdeclared]

end FrameText

section Simple

variable (p : Place) {first count : Nat}

/-- Behind a text, what introduces nothing does not matter. -/
theorem Spans.written_line (depth : Nat) (head : Spans) (t : String) {rest : Spans}
    (hrest : introduced rest = []) :
    (Spans.line depth (head ++ .text t :: rest)).written = head.written := by
  have htail : (Spans.written (.text t :: (rest ++ [.text "\n"]))) = [] :=
    writtenFrom_of_bare (by simp [hrest])
  rw [Spans.line, List.cons_append, List.append_assoc, List.cons_append, Spans.written,
    writtenFrom_margin,
    writtenFrom_append (by simp), htail, List.append_nil]
  rfl

theorem Scopes.isDeclaredHere_iff {scopes : Scopes} {id : String} :
    scopes.isDeclaredHere id = true ↔ id ∈ scopes.current := by
  rw [Scopes.isDeclaredHere, List.contains_iff_mem]

/-- A variable is declared if its frame does not have it. -/
theorem Place.written_declaring (id : String) :
    (p.declaring id).written =
    (frameWrites p.scopes.current [.assign id]).map Spans.asVariable := by
  rw [Place.declaring]
  split_ifs with hid <;> rw [Scopes.isDeclaredHere_iff] at hid <;>
    simp [Spans.written, frameWrites, FrameEvent.writes, Spans.asVariable, hid]

/-- A line that begins with a target, perhaps behind other texts. -/
theorem frameText_assigning (depth : Nat) (opening : Spans) (hbare : introduced opening = [])
    (hopening : ∀ xs : Spans, Spans.written (opening ++ xs) = xs.written) (left : Target)
    (t : String) {rest : Spans}
    (hrest : introduced rest = []) : FrameText p.scopes first count (left.events .assign)
      (Spans.line depth (opening ++ p.assigning left ++ .text t :: rest)) := by
  cases left with
  | name pos id =>
    refine .ofWrites (.line depth _) ?_
    rw [Spans.written_line depth _ t hrest, hopening]
    exact p.written_declaring id
  | _ =>
    refine .plain (.bareLine depth ?_)
    simp [Place.assigning, Target.spans, hbare, hrest]

theorem Place.frameText_assign (left : Target) (right : Assigned) :
    FrameText p.scopes first count ((Stmt.assign left right).events p.inClass)
    (p.assign left right) := by
  cases right with
  | value e =>
    rw [Stmt.events, Place.assign, List.append_assoc]
    exact frameText_assigning p p.depth [] (by simp) (fun _ => rfl) left " = " (by simp)
  | nothing | chained =>
    cases left with
    | name pos id =>
      rw [Stmt.events, Place.assign, Target.events]
      · split_ifs with hid <;> rw [Scopes.isDeclaredHere_iff] at hid
        · exact .ofWrites .nil (by simp [Spans.written, frameWrites, FrameEvent.writes, hid])
        · refine .ofWrites (.line p.depth _) ?_
          simp [Spans.written, Spans.line, frameWrites, FrameEvent.writes, Spans.asVariable, hid]
      all_goals simp
    | _ =>
      rw [Stmt.events]
      · exact .plain .nil
      all_goals simp

@[simp] theorem introduced_grouped (kind : NodeKind) (xs : Spans) :
    introduced (Spans.grouped kind xs) = introduced xs := by
  rw [Spans.grouped]
  split_ifs <;> simp [Spans.parens]

/-- A target that is updated, once or twice in a line. -/
theorem frameText_updating (depth : Nat) (left : Target) (t t' : String) {rest : Spans}
    (hrest : introduced rest = []) :
    FrameText p.scopes first count (left.events (.update · 1))
    (Spans.line depth (left.spans p ++ .text t :: rest)) ∧
      (t ≠ "var " → FrameText p.scopes first count (left.events (.update · 2))
        (Spans.line depth (left.spans p ++ .text t :: left.spans p ++ .text t' :: rest))) := by
  cases left with
  | name pos id =>
    refine ⟨.ofWrites (.line depth _) ?_, fun ht => .ofWrites (.line depth _) ?_⟩ <;>
      simp_all [Spans.line, Spans.written, Spans.writtenFrom_of_bare, Target.spans, Target.events,
      frameWrites,
        FrameEvent.writes, Spans.asVariable, List.replicate_succ]
  | _ =>
    refine ⟨.plain (.bareLine depth ?_), fun _ => .plain (.bareLine depth ?_)⟩ <;>
      simp [Target.spans, hrest]

theorem Place.frameText_augment (left : Target) (op : BinaryOp) (right : Expr) :
    FrameText p.scopes first count ((Stmt.augment left op right).events p.inClass)
    (p.augment left op right) := by
  rw [Stmt.events]
  unfold Place.augment
  cases op.symbol? with
  | some symbol =>
    dsimp only
    rw [List.append_assoc]
    exact (frameText_updating p p.depth left _ "" (by simp)).1
  | none =>
    simp only [Option.isSome_none, Bool.false_eq_true, if_false]
    split <;> rw [List.append_assoc] <;> exact (frameText_updating p p.depth left _ _ (by simp)).2
      (by decide)

theorem introduced_itemSpans (items : List Expr) : (itemSpans p items).flatMap introduced = [] := by
  rw [itemSpans_eq, List.flatMap_eq_nil_iff]
  intro xs hxs
  obtain ⟨e, -, rfl⟩ := List.mem_map.1 hxs
  cases e <;> simp [Expr.star]

end Simple

namespace Spans

theorem plain_plainFunction (depth : Nat) (isAsync : Bool) (name : String) (formals : List Formal)
    (body : Spans) :
    (plainFunction depth isAsync name formals body).Plain := by
  refine .function ?_ depth _ _ _ _
  split_ifs <;> cases isAsync <;> simp [functionHead, written, Lowering.asyncMark]

theorem plain_namedFunction (depth : Nat) (isAsync : Bool) (name : String) (formals : List Formal)
    (body : Spans) :
    (namedFunction depth isAsync name formals body).Plain := by
  refine .function ?_ depth _ _ _ _
  cases isAsync <;> simp [functionHead, written, Lowering.asyncMark]

theorem plain_staticMethod (depth : Nat) (className : String) (isAsync : Bool) (name : String)
    (formals : List Formal)
    (body : Spans) : (staticMethod depth className isAsync name formals body).Plain :=
  (Plain.function (by simp [prototypeHead, written]) ..).append (.textLine _ _)

theorem plain_instanceMethod (depth : Nat) (className : String) (isAsync : Bool) (name : String)
    (formals : List Formal)
    (body : Spans) : (instanceMethod depth className isAsync name formals body).Plain :=
  (((Plain.function (by simp [prototypeHead, written]) ..).append (.textLine _ _)).append
    (.textLine _ _)).append
    (.textLine _ _)

theorem plain_constructor (depth : Nat) (hasBase : Bool) : (constructor depth hasBase).Plain := by
  refine (((Plain.textLine _ _).append ?_).append (.textLine _ _)).append (.textLine _ _)
  split_ifs
  · exact .textLine _ _
  · exact .nil

end Spans

theorem plain_nativeSpans (p : Place) (body : List Stmt) : (nativeSpans p body).Plain := by
  induction body generalizing p with
  | nil =>
    rw [nativeSpans]
    exact .nil
  | cons s rest ih =>
    cases s with
    | function decorators d =>
      obtain ⟨pos, isAsync, namePos, name, parameters, body⟩ := d
      rw [nativeSpans]
      split_ifs
      · exact (Spans.Plain.function (by simp [Spans.written]) ..).append (ih _)
      · exact ih p
    | _ =>
      rw [nativeSpans]
      · exact ih p
      · nofun

/-- The line that a class begins with. -/
theorem Spans.plain_classLine (depth : Nat) (name : String)
    (bases : Option (Position × List Argument)) :
    (Spans.line depth
      ([.text "class ", .introduction ⟨.className, name⟩] ++
      Spans.classBase bases ++ [.text " \x7b"])).Plain := by
  have hbase : introduced (Spans.classBase bases) = [] := by
    unfold Spans.classBase
    split
    · split_ifs <;> simp [introduced, Span.introduced]
    · simp
  refine ⟨.line _ _, ?_⟩
  simp [Spans.line, Spans.written, Spans.writtenFrom_of_bare, hbase]

theorem Place.plain_classAttribute (p : Place) (className : String) (pos : Position) (id : String)
    (right : Assigned) :
    (p.classAttribute className (.name pos id) right).Plain := by
  cases right with
  | value e => exact (Spans.Plain.bareLine p.depth (by simp)).append (.textLine _ _)
  | nothing | chained => exact .nil

/-- A loop with an alternative declares its name and writes it twice more. -/
theorem frameText_whileElse {scopes : Scopes} {index n m : Nat} {as bs : List FrameEvent}
    {condition body otherwise : Spans} (depth : Nat) (hcondition : introduced condition = [])
    (hbody : FrameText scopes (index + 1) n as body)
    (hotherwise : FrameText (scopes.after as) (index + 1 + n) m bs otherwise) :
    FrameText scopes index (1 + n + m) (as ++ bs)
    (Spans.whileElse depth index condition body otherwise) := by
  rw [Spans.whileElse, ← sentinelName]
  have hopening : FrameText scopes index 1 []
      (Spans.line depth [.text "var ", .introduction ⟨.synthesized, sentinelName index⟩,
      .text " = false;"]) := by
    refine ⟨.line _ _, ?_, ?_, [index], by simp, by simp, ?_⟩ <;>
      simp [Spans.line, Spans.variableWrites, Spans.declaredAs, Spans.written, frameWrites]
  have hleaving :
      (Spans.line (depth + 2) [.introduction ⟨.synthesized, sentinelName index⟩,
      .text " = true;"]).Plain :=
    ⟨.line _ _, by simp [Spans.line, Spans.written]⟩
  have htest : (Spans.line depth
      [.text "if (", .introduction ⟨.synthesized, sentinelName index⟩, .text ") \x7b"]).Plain :=
    ⟨.line _ _, by simp [Spans.line, Spans.written]⟩
  have hhead := ((((hopening.behind (.textLine depth "while (true) \x7b")).behind
    (.between (depth + 1) "if (!(" ")) \x7b" hcondition)).behind
    hleaving).behind (.textLine (depth + 2) "break;")).behind (.textLine (depth + 1) "\x7d")
  have hloop := ((hhead.append hbody rfl rfl).behind (.textLine depth "\x7d")).behind htest
  exact (hloop.append hotherwise rfl (Nat.add_assoc ..)).behind (.textLine depth "\x7d")

mutual

/-- A statement writes the variables of its frame as its events want it. -/
theorem Stmt.frameText (p : Place) : ∀ s : Stmt, s.Accepted p.inClass →
    FrameText p.scopes p.temporaries (s.sentinels p.inClass) (s.events p.inClass) (s.spans p)
  | .evaluate _ [] | .evaluate _ [e] | .evaluate _ (_ :: _ :: _) => fun _ => by
    rw [Stmt.spans, Stmt.sentinels, Stmt.events]
    · exact .plain (.bareLine p.depth (by simp [Spans.brackets, introduced_itemSpans]))
    all_goals simp
  | .assign left right => fun _ => by
    rw [Stmt.spans, Stmt.sentinels]
    exact p.frameText_assign left right
  | .augment left op right => fun _ => by
    rw [Stmt.spans, Stmt.sentinels]
    exact p.frameText_augment left op right
  | .returns _ none | .returns _ (some e) | .pass _ | .breaks _ | .continues _ | .asserts _ _
  | .raises _ (some _) _
  | .prints _ _ _ => fun _ => by
    rw [Stmt.spans, Stmt.sentinels, Stmt.events]
    exact .plain (.bareLine p.depth (by simp))
  | .raises _ none _ | .foreign _ _ _ => fun _ => by
    rw [Stmt.spans, Stmt.sentinels, Stmt.events]
    exact .plain .nil
  | .outer _ _ _ names => fun _ => by
    rw [Stmt.spans, Stmt.sentinels, Stmt.events]
    exact (FrameText.plain .nil).registering names
  | .branch _ condition body more otherwise => fun h => by
    rw [Stmt.Accepted] at h
    rw [Stmt.spans, Stmt.sentinels, Stmt.events]
    have hbody := (frameText_block p.deeper body h.1).before
      (.between p.depth "if (" ") \x7b" (condition.introduced_draft p))
    have hmore := frameText_branches (p.afterBlock body) more h.2.1
    have hotherwise := frameText_otherwise ((p.afterBlock body).afterBranches more) otherwise h.2.2
    refine ((hbody.append hmore (blockScopes_eq ..) rfl).append hotherwise ?_ ?_).behind
      (.textLine p.depth _)
    · rw [Scopes.after_append]
      exact (branchScopes_eq ..).trans (congrArg (Scopes.after · _) (blockScopes_eq ..))
    · exact Nat.add_assoc ..
  | .forLoop _ _ left iterable body _ => fun h => by
    rw [Stmt.Accepted] at h
    rw [Stmt.spans, Stmt.sentinels, Stmt.events]
    have hheader : FrameText p.scopes p.temporaries 0 (left.events .assign) (Spans.line p.depth
        ([.text "for ("] ++ p.assigning left ++ .text " of " ::
        ((iterable.draft p).spans ++ [.text ") \x7b"]))) :=
      frameText_assigning p p.depth [.text "for ("] (by simp) (fun _ => rfl) left " of " (by simp)
    have hbody : FrameText (p.assigned left).scopes p.temporaries (blockSentinels p.inClass body)
        (blockEvents p.inClass body) _ := frameText_block (p.assigned left).deeper body h.2
    have hloop :=
      (hheader.append hbody (Target.after_events (fun _ => rfl) left p.scopes).symm rfl).behind
      (.textLine p.depth "\x7d")
    simpa using hloop
  | .whileLoop _ condition body none => fun h => by
    rw [Stmt.Accepted] at h
    rw [Stmt.spans, Stmt.sentinels, Stmt.events, otherwiseEvents, List.append_nil]
    have hbody := (frameText_block p.deeper body h.1).before
      (.between p.depth "while (" ") \x7b" (condition.introduced_draft p))
    exact hbody.behind (.textLine p.depth _)
  | .whileLoop _ condition body (some otherwise) => fun h => by
    rw [Stmt.Accepted, OtherwiseAccepted] at h
    rw [Stmt.spans, Stmt.sentinels, Stmt.events, otherwiseEvents]
    refine frameText_whileElse p.depth (by simp)
      (frameText_block (p.later p.scopes 1).deeper body h.1) ?_
    have hotherwise := frameText_block ((p.later p.scopes 1).afterBlock body).deeper otherwise h.2
    exact (blockScopes_eq p.inClass p.scopes body) ▸ hotherwise
  | .function decorators (.mk _ isAsync _ name parameters body) => fun _ => by
    rw [Stmt.events]
    cases hclass : p.className with
    | none =>
      have hinClass : p.inClass = false := by simp [Place.inClass, hclass]
      rw [hinClass, Stmt.spans, hclass]
      exact (FrameText.plain (Spans.plain_plainFunction ..)).registering [name]
    | some className =>
      have hinClass : p.inClass = true := by simp [Place.inClass, hclass]
      rw [hinClass, Stmt.spans, hclass]
      refine .plain ?_
      dsimp only
      split
      · exact .nil
      · exact Spans.plain_staticMethod ..
      · exact Spans.plain_instanceMethod ..
  | .classDef _ (.mk _ _ name bases body) => fun h => by
    rw [Stmt.Accepted] at h
    rw [Stmt.spans, Stmt.sentinels, Stmt.events]
    have hconstructor : Spans.Plain
        (if body.any Lowering.isInitialiser then Spans.constructor (p.depth + 1)
        (Spans.hasBase bases) else []) := by
      split_ifs
      · exact Spans.plain_constructor ..
      · exact .nil
    have hhead := (((Spans.plain_classLine p.depth name bases).append hconstructor).append
      (plain_nativeSpans (p.register name).deeper body)).append (.textLine p.depth "\x7d")
    have hmembers :=
      frameText_members { (p.register name).afterNatives body with className := some name }
        rfl name body
      h.2
    exact ((FrameText.plain hhead).registering [name]).append hmembers rfl rfl

theorem frameText_block (p : Place) : ∀ body : List Stmt, BlockAccepted p.inClass body →
    FrameText p.scopes p.temporaries (blockSentinels p.inClass body) (blockEvents p.inClass body)
    (blockSpans p body)
  | [] => fun _ => by
    rw [blockSpans, blockSentinels, blockEvents]
    exact .plain .nil
  | s :: rest => fun h => by
    rw [BlockAccepted] at h
    rw [blockSpans, blockSentinels, blockEvents]
    exact (Stmt.frameText p s h.1).append (frameText_block (p.afterStmt s) rest h.2)
      (s.scopesAfter_eq ..) rfl

theorem frameText_otherwise (p : Place) :
    ∀ otherwise : Option (List Stmt), OtherwiseAccepted p.inClass otherwise →
    FrameText p.scopes p.temporaries (otherwiseSentinels p.inClass otherwise)
    (otherwiseEvents p.inClass otherwise)
      (otherwiseSpans p otherwise)
  | none => fun _ => by
    rw [otherwiseSpans, otherwiseSentinels, otherwiseEvents]
    exact .plain .nil
  | some body => fun h => by
    rw [OtherwiseAccepted] at h
    rw [otherwiseSpans, otherwiseSentinels, otherwiseEvents]
    exact (frameText_block p.deeper body h).before (.textLine p.depth _)

theorem frameText_branches (p : Place) : ∀ more : List Branch, BranchesAccepted p.inClass more →
    FrameText p.scopes p.temporaries (branchSentinels p.inClass more) (branchEvents p.inClass more)
    (branchSpans p more)
  | [] => fun _ => by
    rw [branchSpans, branchSentinels, branchEvents]
    exact .plain .nil
  | .mk condition body :: rest => fun h => by
    rw [BranchesAccepted] at h
    rw [branchSpans, branchSentinels, branchEvents]
    have hbody := (frameText_block p.deeper body h.1).before
      (.between p.depth "\x7d else if (" ") \x7b" (condition.introduced_draft p))
    exact hbody.append (frameText_branches (p.afterBlock body) rest h.2) (blockScopes_eq ..) rfl

theorem frameText_members (p : Place) (hclass : p.inClass = true) (className : String) :
    ∀ body : List Stmt, MembersAccepted body →
      FrameText p.scopes p.temporaries (memberSentinels body) (memberEvents body)
      (memberSpans p className body)
  | [] => fun _ => by
    rw [memberSpans, memberSentinels, memberEvents]
    exact .plain .nil
  | s :: rest => fun h => by
    by_cases hassign : ∃ left right, s = .assign left right
    · obtain ⟨left, right, rfl⟩ := hassign
      rw [MembersAccepted] at h
      rw [memberSpans, memberSentinels, memberEvents]
      obtain ⟨⟨pos, id, rfl⟩, hrest⟩ := h
      exact (frameText_members p hclass className rest hrest).before
        (p.plain_classAttribute className pos id right)
    · have hother : ∀ left right, s ≠ .assign left right :=
        fun left right heq => hassign ⟨left, right, heq⟩
      rw [MembersAccepted] at h
      · rw [memberSpans, memberSentinels, memberEvents]
        · rw [← hclass] at h ⊢
          exact (Stmt.frameText p s h.1).append
            (frameText_members (p.afterStmt s) hclass className rest h.2)
            (s.scopesAfter_eq ..) rfl
        all_goals exact hother
      · exact hother

end

end ScriptCompiler
