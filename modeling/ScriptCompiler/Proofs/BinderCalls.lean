import ScriptCompiler.Proofs.Schedule

/-!
# Calls of a binder

A binder is used by calls in any order: bindings change, callables are taken out of the queue, and
extractions begin and end at any time. Whatever the order, a callable has one name and every name
belongs to one callable, the queue holds every callable once, in the order of first references, and
a reference fails only during an extraction that was begun and has not ended.
-/

namespace ScriptCompiler.Binder

/-! ## Calls and answers -/

inductive Call where
  | rebind (binding : Option Binding)
  | lookup (name : String)
  | attribute (value : ContextValue) (key : String)
  | render (value : ContextValue) (access : String) (owner : Option String)
  | takePending
  | beginExtraction (identity : Nat)
  | endExtraction (identity : Nat)

inductive Answer where
  | done
  | found (value : Option ContextValue)
  | attribute (value : Except Fault (Option ContextValue))
  | rendered (resolution : Except Fault Resolution)
  | taken (extractions : List Extraction)

def answer (b : Binder) : Call → Answer × Binder
  | .rebind binding => (.done, b.rebind binding)
  | .lookup name => (.found (b.lookup name), b)
  | .attribute value key => (.attribute (attributeOf? value key), b)
  | .render value access owner =>
    match b.render value access owner with
    | .ok (resolution, b') => (.rendered (.ok resolution), b')
    | .error f => (.rendered (.error f), b)
  | .takePending => (.taken b.takePending.1, b.takePending.2)
  | .beginExtraction identity => (.done, b.beginExtraction identity)
  | .endExtraction identity => (.done, b.endExtraction identity)

/-- Calls with the answers to them, and the binder that they lead to. -/
structure Dialogue where
  exchanges : List (Call × Answer)
  binder : Binder

def Dialogue.next (d : Dialogue) (c : Call) : Dialogue :=
  { exchanges := d.exchanges ++ [(c, (d.binder.answer c).1)], binder := (d.binder.answer c).2 }

/-- The dialogue with a binder that begins without any callables. -/
def dialogue (binding : Option Binding) (calls : List Call) : Dialogue :=
  calls.foldl Dialogue.next { exchanges := [], binder := .ofBinding binding }

/-! ## What is seen from outside -/

/-- The callable that was rendered in an exchange, with the name that was the answer. -/
def reference? : Call × Answer → Option Extraction
  | (.render (.callable identity callable) _ _, .rendered (.ok (.reference name))) =>
    some ⟨identity, name, callable⟩
  | _ => none

/-- The callables that were rendered, one for each time. -/
def references (exchanges : List (Call × Answer)) :
    List Extraction := exchanges.filterMap reference?

/-- The callables that were handed out in an exchange. -/
def handedOutIn : Call × Answer → List Extraction
  | (_, .taken extractions) => extractions
  | _ => []

/-- The callables that were handed out, in order. -/
def handedOut (exchanges : List (Call × Answer)) : List Extraction := exchanges.flatMap handedOutIn

/-- The first of all entries for the same callable. -/
def firsts : List Extraction → List Extraction
  | [] => []
  | e :: rest => e :: (firsts rest).filter (·.identity ≠ e.identity)

/-- Whether an extraction was begun by a call and ended by none of the calls after that. -/
def IsOpen (identity : Nat) (calls : List Call) : Prop :=
  ∃ before after, calls = before ++ .beginExtraction identity :: after ∧
    .endExtraction identity ∉ after

/-! ## One more call -/

variable {calls : List Call} {c : Call} {identity : Nat} {e : Extraction} {es : List Extraction}

variable (binding : Option Binding) {b b' : Binder} {callable : Callable} {name : String}
  {owner : Option String}
  (exchanges : List (Call × Answer))

theorem dialogue_concat (calls : List Call) (c : Call) :
    dialogue binding (calls ++ [c]) = (dialogue binding calls).next c := by
  unfold dialogue
  rw [List.foldl_append]
  rfl

theorem isOpen_concat : IsOpen identity (calls ++ [c]) ↔
    c = .beginExtraction identity ∨ (IsOpen identity calls ∧ c ≠ .endExtraction identity) := by
  constructor
  · rintro ⟨before, after, hcalls, hafter⟩
    induction after using List.reverseRecOn with
    | nil => exact .inl (List.cons.inj (List.append_inj' hcalls rfl).2).1
    | append_singleton after d =>
      rw [← List.cons_append, ← List.append_assoc] at hcalls
      obtain ⟨rfl, hlast⟩ := List.append_inj' hcalls rfl
      obtain rfl := (List.cons.inj hlast).1
      rw [List.mem_append, not_or] at hafter
      exact .inr ⟨⟨before, after, rfl, hafter.1⟩, fun h => hafter.2 (h ▸ List.mem_singleton_self _)⟩
  · rintro (rfl | ⟨⟨before, after, rfl, hafter⟩, hc⟩)
    · exact ⟨calls, [], rfl, List.not_mem_nil⟩
    · refine ⟨before, after ++ [c], by simp, ?_⟩
      rw [List.mem_append, List.mem_singleton, not_or]
      exact ⟨hafter, Ne.symm hc⟩

/-- A reference is answered by a name or fails. -/
theorem answer_render_callable (b : Binder) (i : Nat) (callable : Callable) (access : String)
    (owner : Option String) : b.answer (.render (.callable i callable) access owner) =
      match b.schedule i callable access owner with
      | .ok (name, b') => (.rendered (.ok (.reference name)), b')
      | .error f => (.rendered (.error f), b) := by
  rw [answer, Binder.render]
  cases b.schedule i callable access owner with
  | ok p => rfl
  | error f => rfl

theorem answer_render_value {value : ContextValue}
    (hvalue : ∀ i callable, value ≠ .callable i callable)
    (access : String) (owner : Option String) :
    ∃ resolution, b.answer (.render value access owner) = (.rendered (.ok resolution), b) := by
  have hrender : ∃ resolution, b.render value access owner = .ok (resolution, b) := by
    unfold Binder.render
    split
    · next i callable => exact absurd rfl (hvalue i callable)
    · split
      · exact ⟨_, rfl⟩
      · exact ⟨_, rfl⟩
  obtain ⟨resolution, h⟩ := hrender
  exact ⟨resolution, by rw [answer, h]⟩

theorem inProgress_of_schedule {access : String}
    (h : b.schedule identity callable access owner = .ok (name, b')) :
    b'.inProgress = b.inProgress := by
  obtain ⟨-, ⟨-, rfl⟩ | ⟨-, -, rfl⟩⟩ := schedule_eq_ok h
  · rfl
  · rfl

/-- An extraction is in progress after a call that begins it, and stays so until a call ends it. -/
theorem mem_inProgress_answer : identity ∈ (b.answer c).2.inProgress ↔
    c = .beginExtraction identity ∨ (identity ∈ b.inProgress ∧ c ≠ .endExtraction identity) := by
  cases c with
  | beginExtraction i =>
    show identity ∈ (b.beginExtraction i).inProgress ↔ _
    unfold beginExtraction
    split_ifs with h
    · have hi : i ∈ b.inProgress := List.contains_iff_mem.mp h
      constructor
      · exact fun hmem => .inr ⟨hmem, Call.noConfusion⟩
      · rintro (hcall | ⟨hmem, -⟩)
        · cases hcall
          exact hi
        · exact hmem
    · simp only [List.mem_cons, Call.beginExtraction.injEq, ne_eq, reduceCtorEq,
        not_false_eq_true, and_true]
      rw [eq_comm]
  | endExtraction i =>
    show identity ∈ b.inProgress.filter (· != i) ↔ _
    simp only [List.mem_filter, bne_iff_ne, reduceCtorEq, ne_eq, Call.endExtraction.injEq, false_or]
    rw [eq_comm]
  | render value access owner =>
    have hkept : (b.answer (.render value access owner)).2.inProgress = b.inProgress := by
      by_cases hvalue : ∃ i callable, value = .callable i callable
      · obtain ⟨i, callable, rfl⟩ := hvalue
        rw [answer_render_callable]
        split
        · next hschedule => exact inProgress_of_schedule hschedule
        · rfl
      · push Not at hvalue
        obtain ⟨resolution, h⟩ := answer_render_value (b := b) hvalue access owner
        rw [h]
    simp [hkept]
  | _ => simp [answer, rebind, takePending]

/-- The calls tell which extractions are in progress. -/
theorem mem_inProgress_iff (calls : List Call) :
    identity ∈ (dialogue binding calls).binder.inProgress ↔ IsOpen identity calls := by
  induction calls using List.reverseRecOn with
  | nil =>
    constructor
    · intro h
      cases h
    · rintro ⟨before, after, h, -⟩
      exact absurd h (by simp)
  | append_singleton calls c ih =>
    rw [dialogue_concat, isOpen_concat, ← ih]
    exact mem_inProgress_answer

/-! ## First references -/

theorem mem_firsts_identity :
    identity ∈ (firsts es).map (·.identity) ↔ identity ∈ es.map (·.identity) := by
  induction es with
  | nil => exact Iff.rfl
  | cons e es ih =>
    rw [firsts, List.map_cons, List.map_cons, List.mem_cons, List.mem_cons, ← ih]
    by_cases h : identity = e.identity
    · simp [h]
    · simp only [h, false_or, List.mem_map, List.mem_filter, decide_eq_true_eq]
      constructor
      · rintro ⟨d, ⟨hd, -⟩, heq⟩
        exact ⟨d, hd, heq⟩
      · rintro ⟨d, hd, rfl⟩
        exact ⟨d, ⟨hd, h⟩, rfl⟩

theorem nodup_firsts (es : List Extraction) : ((firsts es).map (·.identity)).Nodup := by
  induction es with
  | nil => exact List.nodup_nil
  | cons e es ih =>
    rw [firsts, List.map_cons, List.nodup_cons]
    refine ⟨?_, ih.sublist (List.filter_sublist.map _)⟩
    simp

theorem firsts_concat_of_not_mem (h : e.identity ∉ es.map (·.identity)) :
    firsts (es ++ [e]) = firsts es ++ [e] := by
  induction es with
  | nil => rfl
  | cons d es ih =>
    rw [List.map_cons, List.mem_cons, not_or] at h
    rw [List.cons_append, firsts, firsts, ih h.2]
    simp [h.1]

theorem firsts_concat_of_mem (h : e.identity ∈ es.map (·.identity)) :
    firsts (es ++ [e]) = firsts es := by
  induction es with
  | nil => cases h
  | cons d es ih =>
    rw [List.cons_append, firsts, firsts]
    by_cases hmem : e.identity ∈ es.map (·.identity)
    · rw [ih hmem]
    · -- The entry repeats the first one only.
      have hd : e.identity = d.identity := (List.mem_cons.mp h).resolve_right hmem
      rw [firsts_concat_of_not_mem hmem]
      simp [hd]

/-! ## Consistency -/

/-- What the answers so far have to do with the state of the binder. -/
structure Dialogue.Consistent (d : Dialogue) : Prop where
  /-- The queue holds the first references, apart from those that were handed out. -/
  queue : handedOut d.exchanges ++ d.binder.pending = firsts (references d.exchanges)
  names_eq : d.binder.names = ((firsts (references d.exchanges)).map Extraction.key).reverse
  distinct : d.binder.generated.Nodup
  answered : ∀ e ∈ references d.exchanges, d.binder.names.lookup e.identity = some e.name

variable {d : Dialogue}

theorem Dialogue.Consistent.mem_known (h : d.Consistent) :
    identity ∈ d.binder.known ↔ identity ∈ (references d.exchanges).map (·.identity) := by
  rw [← mem_firsts_identity, known, h.names_eq]
  simp [Extraction.key]

theorem references_concat (x : Call × Answer) :
    references (exchanges ++ [x]) = references exchanges ++ (reference? x).toList := by
  cases h : reference? x <;> simp [references, h]

theorem handedOut_concat (x : Call × Answer) :
    handedOut (exchanges ++ [x]) = handedOut exchanges ++ handedOutIn x := by
  simp [handedOut]

/-- A call that neither refers to a callable nor hands one out. -/
theorem Dialogue.Consistent.quiet (h : d.Consistent)
    (href : reference? (c, (d.binder.answer c).1) = none)
    (hout : handedOutIn (c, (d.binder.answer c).1) = [])
    (hnames : (d.binder.answer c).2.names = d.binder.names)
    (hpending : (d.binder.answer c).2.pending = d.binder.pending) : (d.next c).Consistent := by
  have hrefs : references (d.next c).exchanges = references d.exchanges := by
    rw [Dialogue.next, references_concat, href]
    exact List.append_nil _
  have hhanded : handedOut (d.next c).exchanges = handedOut d.exchanges := by
    rw [Dialogue.next, handedOut_concat, hout]
    exact List.append_nil _
  have hn : (d.next c).binder.names = d.binder.names := hnames
  have hp : (d.next c).binder.pending = d.binder.pending := hpending
  refine ⟨?_, ?_, ?_, ?_⟩
  · rw [hrefs, hhanded, hp]
    exact h.queue
  · rw [hrefs, hn]
    exact h.names_eq
  · rw [generated, hn]
    exact h.distinct
  · rw [hrefs, hn]
    exact h.answered

theorem Dialogue.Consistent.takePending (h : d.Consistent) : (d.next .takePending).Consistent := by
  have hrefs : references (d.next .takePending).exchanges = references d.exchanges := by
    rw [Dialogue.next, references_concat]
    exact List.append_nil _
  refine ⟨?_, ?_, h.distinct, ?_⟩
  · rw [hrefs, Dialogue.next, handedOut_concat, ← h.queue]
    show handedOut d.exchanges ++ d.binder.pending ++ [] = _
    rw [List.append_nil]
  · rw [hrefs]
    exact h.names_eq
  · rw [hrefs]
    exact h.answered

/-- The first reference chooses a name and joins the queue; later ones repeat the name. -/
theorem Dialogue.Consistent.render (h : d.Consistent) {i : Nat} {access : String}
    (hschedule : d.binder.schedule i callable access owner = .ok (name, b')) :
    (d.next (.render (.callable i callable) access owner)).Consistent := by
  have hnext : d.next (.render (.callable i callable) access owner) =
      ⟨d.exchanges ++ [(.render (.callable i callable) access owner,
      .rendered (.ok (.reference name)))], b'⟩ := by
    rw [Dialogue.next, answer_render_callable, hschedule]
  have hlookup := lookup_of_schedule hschedule
  rw [hnext]
  have hrefs := references_concat d.exchanges
    (.render (.callable i callable) access owner, .rendered (.ok (.reference name)))
  have hhanded := handedOut_concat d.exchanges
    (.render (.callable i callable) access owner, .rendered (.ok (.reference name)))
  rw [show (reference? _).toList = [⟨i, name, callable⟩] from rfl] at hrefs
  rw [show handedOutIn _ = [] from rfl, List.append_nil] at hhanded
  obtain ⟨-, ⟨hmemo, rfl⟩ | ⟨hnew, hname, rfl⟩⟩ := schedule_eq_ok hschedule
  · have hfirsts :=
      firsts_concat_of_mem (e := ⟨i, name, callable⟩) (h.mem_known.mp (mem_known_of_lookup hmemo))
    refine ⟨?_, ?_, h.distinct, ?_⟩
    · rw [hrefs, hhanded, hfirsts]
      exact h.queue
    · rw [hrefs, hfirsts]
      exact h.names_eq
    · rw [hrefs]
      intro e he
      rcases List.mem_append.mp he with he | he
      · exact h.answered e he
      · rw [List.mem_singleton.mp he]
        exact hmemo
  · have hfirsts := firsts_concat_of_not_mem (e := ⟨i, name, callable⟩) fun hmem =>
      hnew (h.mem_known.mpr hmem)
    refine ⟨?_, ?_, ?_, ?_⟩
    · rw [hrefs, hhanded, hfirsts, ← h.queue, List.append_assoc]
      rfl
    · rw [hrefs, hfirsts, List.map_append, List.reverse_append, ← h.names_eq]
      rfl
    · exact List.nodup_cons.mpr ⟨hname, h.distinct⟩
    · rw [hrefs]
      intro e he
      rcases List.mem_append.mp he with he | he
      · have hne : e.identity ≠ i := by
          intro heq
          exact hnew (h.mem_known.mpr (heq ▸ List.mem_map_of_mem he))
        show List.lookup e.identity ((i, name) :: d.binder.names) = _
        rw [List.lookup_cons, beq_false_of_ne hne]
        exact h.answered e he
      · rw [List.mem_singleton.mp he]
        exact hlookup

theorem Dialogue.Consistent.next (h : d.Consistent) (c : Call) : (d.next c).Consistent := by
  cases c with
  | render value access owner =>
    by_cases hvalue : ∃ i callable, value = .callable i callable
    · obtain ⟨i, callable, rfl⟩ := hvalue
      cases hschedule : d.binder.schedule i callable access owner with
      | ok p => exact h.render hschedule
      | error f =>
        have hanswer := answer_render_callable d.binder i callable access owner
        rw [hschedule] at hanswer
        refine h.quiet ?_ ?_ ?_ ?_ <;> rw [hanswer]
        · rfl
        · rfl
    · push Not at hvalue
      obtain ⟨resolution, hanswer⟩ := answer_render_value (b := d.binder) hvalue access owner
      refine h.quiet ?_ ?_ ?_ ?_ <;> rw [hanswer]
      · unfold reference?
        split
        · next heq =>
          cases heq
          exact absurd rfl (hvalue _ _)
        · rfl
      · rfl
  | takePending => exact h.takePending
  | _ => exact h.quiet rfl rfl rfl rfl

theorem consistent_dialogue (calls : List Call) : (dialogue binding calls).Consistent := by
  induction calls using List.reverseRecOn with
  | nil => exact ⟨rfl, rfl, List.nodup_nil, fun e he => absurd he List.not_mem_nil⟩
  | append_singleton calls c ih =>
    rw [dialogue_concat]
    exact ih.next c

theorem mem_names_of_lookup (h : b.names.lookup identity = some name) :
    (identity, name) ∈ b.names := by
  obtain ⟨before, after, hsplit, -⟩ := List.lookup_eq_some_iff.mp h
  rw [hsplit]
  exact List.mem_append_right _ List.mem_cons_self

theorem mem_of_mem_firsts (h : e ∈ firsts es) : e ∈ es := by
  induction es with
  | nil => cases h
  | cons d es ih =>
    rcases List.mem_cons.mp h with rfl | h
    · exact List.mem_cons_self
    · exact List.mem_cons_of_mem _ (ih (List.mem_of_mem_filter h))

/-- The names of the binder are those that it has answered. -/
theorem Dialogue.Consistent.lookup_iff (h : d.Consistent) (name : String) :
    d.binder.names.lookup identity = some name ↔ ∃ e ∈ references d.exchanges,
    e.identity = identity ∧ e.name = name := by
  constructor
  · intro hlookup
    have hmem := mem_names_of_lookup hlookup
    rw [h.names_eq, List.mem_reverse, List.mem_map] at hmem
    obtain ⟨e, he, hkey⟩ := hmem
    obtain ⟨hidentity, hname⟩ := Prod.mk.inj hkey
    exact ⟨e, mem_of_mem_firsts he, hidentity, hname⟩
  · rintro ⟨e, he, rfl, rfl⟩
    exact h.answered e he

theorem Dialogue.Consistent.name_eq_iff (h : d.Consistent) {e' : Extraction}
    (he : e ∈ references d.exchanges)
    (he' : e' ∈ references d.exchanges) : e.name = e'.name ↔ e.identity = e'.identity := by
  have hlookup := h.answered e he
  have hlookup' := h.answered e' he'
  constructor
  · intro hname
    have hpair :=
      List.inj_on_of_nodup_map h.distinct (mem_names_of_lookup hlookup)
        (mem_names_of_lookup hlookup') hname
    exact congrArg Prod.fst hpair
  · intro hidentity
    rw [hidentity, hlookup'] at hlookup
    exact (Option.some.inj hlookup).symm

/-- Taking what is pending leaves nothing pending: all that was referred to is handed out then. -/
theorem dialogue_takePending (calls : List Call) :
    (dialogue binding (calls ++ [.takePending])).binder.pending = [] ∧
      handedOut (dialogue binding (calls ++ [.takePending])).exchanges =
        firsts (references (dialogue binding calls).exchanges) := by
  rw [dialogue_concat]
  refine ⟨rfl, ?_⟩
  rw [Dialogue.next, handedOut_concat, ← (consistent_dialogue binding calls).queue]
  rfl

/-! ## References during an extraction -/

theorem answer_of_inProgress (h : identity ∈ b.inProgress) (callable : Callable) (access : String)
    (owner : Option String) : b.answer (.render (.callable identity callable) access owner) =
      (.rendered (.error (.cyclicCallable callable.name)), b) := by
  have hschedule : b.schedule identity callable access owner =
      .error (.cyclicCallable callable.name) := by
    rw [schedule, if_pos (List.contains_iff_mem.mpr h)]
  rw [answer_render_callable, hschedule]

theorem answer_of_not_inProgress (h : identity ∉ b.inProgress) (callable : Callable)
    (access : String)
    (owner : Option String) :
    ∃ name b', b.answer (.render (.callable identity callable) access owner) =
      (.rendered (.ok (.reference name)), b') := by
  rw [answer_render_callable]
  cases hschedule : b.schedule identity callable access owner with
  | ok p => exact ⟨p.1, p.2, rfl⟩
  | error f => exact absurd (schedule_eq_error hschedule).1 h

/-- After any calls, in any order: the names of callables are those that were answered, and
references have the same name exactly if they are to the same callable; what was handed out and what
waits is every callable that was referred to, once, in the order of first references, and taking
what waits hands out all of it; and a reference fails, without a trace, exactly if its callable is
being extracted. -/
theorem callables_named_and_queued_once (binding : Option Binding) (calls : List Call) :
    (∀ identity name, (dialogue binding calls).binder.names.lookup identity = some name ↔
      ∃ e ∈ references (dialogue binding calls).exchanges, e.identity = identity ∧ e.name = name) ∧
    (∀ e ∈ references (dialogue binding calls).exchanges,
    ∀ e' ∈ references (dialogue binding calls).exchanges,
      e.name = e'.name ↔ e.identity = e'.identity) ∧
    handedOut (dialogue binding calls).exchanges ++ (dialogue binding calls).binder.pending =
      firsts (references (dialogue binding calls).exchanges) ∧
    ((handedOut (dialogue binding calls).exchanges ++
      (dialogue binding calls).binder.pending).map (·.identity)).Nodup ∧
    ((dialogue binding (calls ++ [.takePending])).binder.pending = [] ∧
      handedOut (dialogue binding (calls ++ [.takePending])).exchanges =
        firsts (references (dialogue binding calls).exchanges)) ∧
    ∀ identity callable access owner,
      (IsOpen identity calls → (dialogue binding calls).binder.answer
      (.render (.callable identity callable) access owner) =
        (.rendered (.error (.cyclicCallable callable.name)), (dialogue binding calls).binder)) ∧
      (¬ IsOpen identity calls → ∃ name b',
        (dialogue binding calls).binder.answer
        (.render (.callable identity callable) access owner) =
          (.rendered (.ok (.reference name)), b')) := by
  have h := consistent_dialogue binding calls
  refine ⟨fun identity name => h.lookup_iff name, fun e he e' he' => h.name_eq_iff he he',
    h.queue, ?_,
    dialogue_takePending binding calls, ?_⟩
  · rw [h.queue]
    exact nodup_firsts _
  · intro identity callable access owner
    rw [← mem_inProgress_iff binding calls]
    exact ⟨fun hopen => answer_of_inProgress hopen callable access owner,
      fun hopen => answer_of_not_inProgress hopen callable access owner⟩

end ScriptCompiler.Binder
