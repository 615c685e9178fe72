import ScriptCompiler.Proofs.Draft
import ScriptCompiler.Proofs.Effect
import Mathlib.Data.List.Basic

/-!
# Traces of names

What happens to names in a program, in the order in which its tree is walked through: names are
mentioned and bound, and functions with names of their own are entered and left. Replaying a trace
gives the frames at each of its events. The frames bind a name exactly if an earlier event binds it
in a function that has not been left since.
-/

namespace ScriptCompiler

inductive NameEvent where
  /-- A name or a chain of attributes is looked up. -/
  | mention (e : Expr)
  /-- A class is given a base. -/
  | base (id : String)
  | bind (form : BindingForm) (id : String)
  /-- A name is declared to be one of an outer function. -/
  | outer (id : String)
  /-- A function or a comprehension begins. -/
  | enter
  | leave

abbrev NameTrace := List NameEvent

/-- The name that an event binds in the innermost frame. -/
def NameEvent.bound? : NameEvent → Option String
  | .bind _ id | .outer id => some id
  | .mention _ | .base _ | .enter | .leave => none

/-! ## Replaying a trace -/

variable {scopes : Scopes} {id : String} {k depth : Nat} {trace : NameTrace} {last e : NameEvent}

namespace Scopes

/-- The frames after an event. -/
def step (scopes : Scopes) : NameEvent → Scopes
  | .bind _ id | .outer id => scopes.register id
  | .enter => scopes.push
  | .leave => scopes.pop
  | .mention _ | .base _ => scopes

def replay (scopes : Scopes) (trace : NameTrace) : Scopes := trace.foldl step scopes

@[simp] theorem replay_nil (scopes : Scopes) : scopes.replay [] = scopes := rfl

@[simp] theorem replay_cons (scopes : Scopes) (e : NameEvent) (rest : NameTrace) :
    scopes.replay (e :: rest) = (scopes.step e).replay rest := rfl

@[simp] theorem replay_append (scopes : Scopes) (xs ys : NameTrace) :
    scopes.replay (xs ++ ys) = (scopes.replay xs).replay ys := List.foldl_append

/-- The names of the `k`th frame, counted from the innermost one. -/
def frame (scopes : Scopes) (k : Nat) :
    List String := ((scopes.current :: scopes.outer)[k]?).getD []

theorem isBound_iff : scopes.isBound id = true ↔ ∃ k, id ∈ scopes.frame k := by
  have hmem : scopes.isBound id = true ↔ ∃ names ∈ scopes.current :: scopes.outer, id ∈ names := by
    simp [isBound]
  rw [hmem]
  constructor
  · rintro ⟨names, hnames, hid⟩
    obtain ⟨k, hk⟩ := List.mem_iff_getElem?.mp hnames
    exact ⟨k, by simpa [frame, hk] using hid⟩
  · rintro ⟨k, hid⟩
    unfold frame at hid
    cases hk : (scopes.current :: scopes.outer)[k]? with
    | none => simp [hk] at hid
    | some names => exact ⟨names, List.mem_of_getElem? hk, by simpa [hk] using hid⟩

theorem mem_frame_register {name : String} :
    id ∈ (scopes.register name).frame k ↔ (name = id ∧ k = 0) ∨ id ∈ scopes.frame k := by
  unfold register
  split_ifs with hdeclared
  · have hmem : name ∈ scopes.frame 0 := by simpa [isDeclaredHere, frame] using hdeclared
    constructor
    · exact .inr
    · rintro (⟨rfl, rfl⟩ | h)
      · exact hmem
      · exact h
  · cases k with
    | zero => simp [frame, eq_comm]
    | succ k => simp [frame]

theorem mem_frame_push :
    id ∈ scopes.push.frame k ↔ ∃ j, id ∈ scopes.frame j ∧ j + 1 = k := by
  cases k with
  | zero => simp [frame, push]
  | succ k => simp [frame, push]

theorem mem_frame_pop (h : scopes.outer.length ≠ 0) :
    id ∈ scopes.pop.frame k ↔ id ∈ scopes.frame (k + 1) := by
  obtain ⟨current, outer⟩ := scopes
  cases outer with
  | nil => simp at h
  | cons names outer => simp [frame, pop]

end Scopes

namespace NameTrace

/-- How many functions are open after a trace, of those that it enters, if it leaves none that was
open before. -/
def depthFrom (depth : Nat) (trace : NameTrace) : Option Nat :=
  trace.foldlM (fun depth e => match e, depth with
    | .enter, depth => some (depth + 1)
    | .leave, 0 => none
    | .leave, depth + 1 => some depth
    | _, depth => some depth) depth

/-- The function around the start of a trace is not left in it. -/
def StaysOpen (trace : NameTrace) : Prop := (depthFrom 0 trace).isSome

instance (trace : NameTrace) : Decidable trace.StaysOpen := inferInstanceAs (Decidable (_ = true))

/-- The trace binds a name, and the function in which it does is open at the end. -/
def Binds (trace : NameTrace) (id : String) : Prop :=
  ∃ before e after, trace = before ++ e :: after ∧ e.bound? = some id ∧ StaysOpen after

@[simp] theorem depthFrom_nil (depth : Nat) : depthFrom depth [] = some depth := rfl

theorem depthFrom_append (depth : Nat) (xs ys : NameTrace) :
    depthFrom depth (xs ++ ys) = (depthFrom depth xs).bind fun depth => depthFrom depth ys :=
  List.foldlM_append

theorem depthFrom_cons (depth : Nat) (e : NameEvent) (rest : NameTrace) :
    depthFrom depth (e :: rest) = (depthFrom depth [e]).bind fun depth => depthFrom depth rest :=
  depthFrom_append depth [e] rest

theorem StaysOpen.of_append {xs ys : NameTrace} (h : StaysOpen (xs ++ ys)) : StaysOpen xs := by
  unfold StaysOpen at h ⊢
  rw [depthFrom_append] at h
  cases hxs : depthFrom 0 xs with
  | none => simp [hxs] at h
  | some depth => rfl

theorem snoc_eq_append_cons_iff {before after : NameTrace} :
    trace ++ [last] = before ++ e :: after ↔
      (trace = before ∧ last = e ∧ after = []) ∨ ∃ mid, after = mid ++ [last] ∧
      trace = before ++ e :: mid := by
  constructor
  · intro h
    rcases List.eq_nil_or_concat after with rfl | ⟨mid, last', rfl⟩
    · exact .inl ⟨(List.append_inj' h rfl).1, by simpa using (List.append_inj' h rfl).2, rfl⟩
    · rw [List.concat_eq_append, ← List.cons_append, ← List.append_assoc] at h
      obtain ⟨htrace, hlast⟩ := List.append_inj' h rfl
      obtain rfl : last = last' := by simpa using hlast
      exact .inr ⟨mid, List.concat_eq_append, htrace⟩
  · rintro (⟨rfl, rfl, rfl⟩ | ⟨mid, rfl, rfl⟩)
    · rfl
    · simp

/-- The trace binds a name in the frame that is the `k`th around its end. -/
def BindsAt (trace : NameTrace) (k : Nat) (id : String) : Prop :=
  ∃ before e after, trace = before ++ e :: after ∧ e.bound? = some id ∧ depthFrom 0 after = some k

theorem binds_iff_bindsAt : trace.Binds id ↔ ∃ k, trace.BindsAt k id := by
  constructor
  · rintro ⟨before, e, after, htrace, he, hopen⟩
    obtain ⟨k, hk⟩ := Option.isSome_iff_exists.mp hopen
    exact ⟨k, before, e, after, htrace, he, hk⟩
  · rintro ⟨k, before, e, after, htrace, he, hk⟩
    exact ⟨before, e, after, htrace, he, by simp [StaysOpen, hk]⟩

/-- What one more event does to the bindings of a frame. -/
theorem bindsAt_snoc :
    (trace ++ [last]).BindsAt k id ↔
      (last.bound? = some id ∧ k = 0) ∨ ∃ j, trace.BindsAt j id ∧ depthFrom j [last] = some k := by
  constructor
  · rintro ⟨before, e, after, htrace, he, hk⟩
    rcases snoc_eq_append_cons_iff.mp htrace with ⟨rfl, rfl, rfl⟩ | ⟨mid, rfl, rfl⟩
    · exact .inl ⟨he, by simpa using hk.symm⟩
    · rw [depthFrom_append, Option.bind_eq_some_iff] at hk
      obtain ⟨j, hj, hk⟩ := hk
      exact .inr ⟨j, ⟨before, e, mid, rfl, he, hj⟩, hk⟩
  · rintro (⟨hlast, rfl⟩ | ⟨j, ⟨before, e, after, rfl, he, hj⟩, hk⟩)
    · exact ⟨trace, last, [], rfl, hlast, rfl⟩
    · refine ⟨before, e, after ++ [last], by simp, he, ?_⟩
      rw [depthFrom_append, hj]
      exact hk

theorem depthFrom_singleton_eq_some {j : Nat} :
    depthFrom j [e] = some k ↔
      (e = .enter ∧ j + 1 = k) ∨ (e = .leave ∧ j = k + 1) ∨ (e ≠ .enter ∧ e ≠ .leave ∧ j = k) := by
  cases e with
  | leave => cases j <;> simp [depthFrom]
  | _ => simp [depthFrom]

/-- One event changes the innermost frame, puts one in front of the others or takes it away. -/
theorem mem_frame_step
    (h : depthFrom scopes.outer.length [e] = some depth) :
    (scopes.step e).outer.length = depth ∧ ∀ k id, id ∈ (scopes.step e).frame k ↔
      (e.bound? = some id ∧ k = 0) ∨ ∃ j, id ∈ scopes.frame j ∧ depthFrom j [e] = some k := by
  have hregister : ∀ name, (scopes.register name).outer = scopes.outer := scopes.outer_register
  simp only [depthFrom_singleton_eq_some] at h ⊢
  cases e with
  | mention e | base id => simpa [Scopes.step, NameEvent.bound?] using h
  | bind form name | outer name =>
    obtain rfl : scopes.outer.length = depth := by simpa using h
    refine ⟨by rw [Scopes.step, hregister], fun k id => ?_⟩
    simp [Scopes.step, NameEvent.bound?, Scopes.mem_frame_register]
  | enter =>
    obtain rfl : scopes.outer.length + 1 = depth := by simpa using h
    refine ⟨rfl, fun k id => ?_⟩
    simp [Scopes.step, NameEvent.bound?, Scopes.mem_frame_push]
  | leave =>
    have hlength : scopes.outer.length = depth + 1 := by simpa using h
    have hopen : scopes.outer.length ≠ 0 := by omega
    refine ⟨?_, fun k id => ?_⟩
    · obtain ⟨current, outer⟩ := scopes
      cases outer with
      | nil => simp at hopen
      | cons names outer => simpa [Scopes.step, Scopes.pop] using hlength
    · simp [Scopes.step, NameEvent.bound?, Scopes.mem_frame_pop hopen]

/-- The frames at the end of a trace that stays in the module are those of the functions that are
open there. -/
theorem mem_frame_replay (h : depthFrom 0 trace = some depth) :
    (Scopes.empty.replay trace).outer.length = depth ∧
      ∀ k id, id ∈ (Scopes.empty.replay trace).frame k ↔ trace.BindsAt k id := by
  induction trace using List.reverseRecOn generalizing depth with
  | nil =>
    obtain rfl : 0 = depth := by simpa using h
    refine ⟨rfl, fun k id => ?_⟩
    cases k <;> simp [Scopes.frame, Scopes.empty, BindsAt]
  | append_singleton trace last ih =>
    rw [depthFrom_append, Option.bind_eq_some_iff] at h
    obtain ⟨depth', hdepth', hlast⟩ := h
    obtain ⟨hlength, hframes⟩ := ih hdepth'
    rw [← hlength] at hlast
    obtain ⟨hlength', hframes'⟩ := mem_frame_step hlast
    rw [Scopes.replay_append]
    refine ⟨hlength', fun k id => ?_⟩
    rw [bindsAt_snoc, Scopes.replay_cons, Scopes.replay_nil, hframes']
    simp only [hframes]

/-- A name is bound at the end of a trace exactly if the trace binds it in a function that is still
open. -/
theorem isBound_replay_iff (h : trace.StaysOpen) :
    (Scopes.empty.replay trace).isBound id = true ↔ trace.Binds id := by
  obtain ⟨depth, hdepth⟩ := Option.isSome_iff_exists.mp h
  rw [Scopes.isBound_iff, binds_iff_bindsAt]
  simp only [(mem_frame_replay hdepth).2]

/-- The innermost frame at the end of a trace has the names that the trace binds in the innermost
open function. -/
theorem isDeclaredHere_replay_iff (h : trace.StaysOpen) :
    (Scopes.empty.replay trace).isDeclaredHere id = true ↔ trace.BindsAt 0 id := by
  obtain ⟨depth, hdepth⟩ := Option.isSome_iff_exists.mp h
  rw [← (mem_frame_replay hdepth).2]
  simp [Scopes.isDeclaredHere, Scopes.frame]

end NameTrace

end ScriptCompiler
