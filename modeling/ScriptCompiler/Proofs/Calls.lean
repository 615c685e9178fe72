import ScriptCompiler.Proofs.StatementDraft

/-!
# Calls

The calls in a draft, read off its spans: a mention with arguments behind it. Where drafts are put
together, so are their calls, because nothing that stands behind a draft opens arguments, except for
the arguments of a call.
-/

namespace ScriptCompiler

/-! ## Calls in drafts -/

/-- How much of a call stands before a span. -/
inductive Pending where
  | idle
  /-- A function. -/
  | function (m : Mention)
  /-- A function and the mark of arguments with keywords. -/
  | marked (m : Mention)

namespace Pending

def next : Pending → Span → Pending
  | _, .mention m => .function m
  | .function m, .text t => if t = ".args(" then .marked m else .idle
  | _, _ => .idle

/-- The call that a span completes with the beginning of its arguments. -/
def opened : Pending → Span → List Mention
  | .function m, .text t => if t = "(" then [m] else []
  | .marked m, .text t => if t = "[" then [m] else []
  | _, _ => []

def after (st : Pending) (xs : Spans) : Pending := xs.foldl next st

/-- The function of a call whose arguments follow. -/
def callee : Pending → List Mention
  | .function m => [m]
  | _ => []

end Pending

mutual

def Span.calls : Span → List Mention
  | .guarded inner | .function inner => Pending.calls .idle inner
  | _ => []

def Pending.calls (st : Pending) : List Span → List Mention
  | [] => []
  | s :: rest => s.calls ++ (st.opened s ++ Pending.calls (st.next s) rest)

end

namespace Spans

/-- The functions that are called in a draft, one for each call. -/
def calls (xs : Spans) : List Mention := Pending.idle.calls xs

/-- The number of calls of certain functions. -/
def callCount (q : Mention → Bool) (xs : Spans) : Nat := xs.calls.countP q

end Spans

theorem Pending.calls_nil (st : Pending) : st.calls [] = [] := by
  rw [Pending.calls]

theorem Pending.calls_cons (st : Pending) (s : Span) (rest : Spans) :
    st.calls (s :: rest) = s.calls ++ (st.opened s ++ (st.next s).calls rest) := by
  rw [Pending.calls]

theorem Pending.calls_append (st : Pending) (xs ys : Spans) :
    st.calls (xs ++ ys) = st.calls xs ++ (st.after xs).calls ys := by
  induction xs generalizing st with
  | nil => rw [List.nil_append, calls_nil, List.nil_append]; rfl
  | cons s rest ih =>
    rw [List.cons_append, calls_cons, calls_cons, ih]
    simp only [List.append_assoc]
    rfl

namespace Spans

/-- A text that opens arguments behind something. -/
def opensArguments (t : String) : Bool := t = "(" || t = ".args(" || t = "["

theorem opensArguments_spaced (t : String) : opensArguments (" " ++ t) = false := by
  have hne : ∀ u : String, u.toList.head? ≠ some ' ' → " " ++ t ≠ u := by
    rintro u hu rfl
    exact hu (by simp)
  simp [opensArguments, hne "(" (by decide), hne ".args(" (by decide), hne "[" (by decide)]

/-- What stands before spans does not matter to their calls. -/
def Fresh (xs : Spans) : Prop := ∀ st : Pending, st.calls xs = xs.calls

namespace Fresh

variable {xs ys : Spans}

theorem nil : Fresh [] := by
  intro st
  rw [calls, Pending.calls_nil, Pending.calls_nil]

/-- A span that continues no call. -/
theorem cons {s : Span} (hnext : ∀ st : Pending, st.next s = Pending.idle.next s)
    (hopened : ∀ st : Pending, st.opened s = [])
    (xs : Spans) : Fresh (s :: xs) := by
  intro st
  rw [calls, Pending.calls_cons, Pending.calls_cons, hnext st, hopened st, hopened .idle]

theorem margin (depth : Nat) (xs : Spans) : Fresh (.margin depth :: xs) :=
  cons (by intro st; cases st <;> rfl) (by intro st; cases st <;> rfl) xs

theorem line (depth : Nat) (xs : Spans) : Fresh (Spans.line depth xs) := margin depth _

theorem textLine (depth : Nat) (t : String) : Fresh (Spans.textLine depth t) := line depth _

theorem function (inner xs : Spans) : Fresh (.function inner :: xs) :=
  cons (by intro st; cases st <;> rfl) (by intro st; cases st <;> rfl) xs

theorem text {t : String} (h : opensArguments t = false) (xs : Spans) : Fresh (.text t :: xs) := by
  simp only [opensArguments, Bool.or_eq_false_iff, decide_eq_false_iff_not] at h
  obtain ⟨⟨hparen, hargs⟩, hbracket⟩ := h
  refine cons ?_ ?_ xs
  · intro st
    cases st <;> simp [Pending.next, hargs]
  · intro st
    cases st <;> simp [Pending.opened, hparen, hbracket]

theorem append (hxs : Fresh xs) (hys : Fresh ys) : Fresh (xs ++ ys) := by
  intro st
  rw [calls, Pending.calls_append, Pending.calls_append, hxs st, hys, hys, calls]

theorem flatten {xss : List Spans} (h : ∀ xs ∈ xss, Fresh xs) : Fresh xss.flatten := by
  induction xss with
  | nil => exact nil
  | cons xs xss ih =>
    exact (h xs List.mem_cons_self).append (ih fun ys hys => h ys (List.mem_cons_of_mem _ hys))

end Fresh

def Settled (xs : Spans) : Prop := Pending.idle.after xs = .idle

namespace Settled

theorem nil : Settled [] := rfl

theorem text (t : String) {xs : Spans} (h : Settled xs) : Settled (.text t :: xs) := h

/-- A text that opens no arguments settles what stands before it. -/
theorem separated (xs : Spans) {t : String} (ht : opensArguments t = false) {ys : Spans}
    (h : Settled ys) : Settled (xs ++ .text t :: ys) := by
  simp only [opensArguments, Bool.or_eq_false_iff, decide_eq_false_iff_not] at ht
  have hnext : ∀ st : Pending, st.next (.text t) = .idle := by
    intro st
    cases st <;> simp [Pending.next, ht]
  rw [Settled, Pending.after, List.foldl_append, List.foldl_cons, hnext]
  exact h

end Settled

section Counts

variable (q : Mention → Bool) (xs ys : Spans)

@[simp] theorem callCount_nil : callCount q [] = 0 := by
  rw [callCount, calls, Pending.calls_nil, List.countP_nil]

theorem callCount_append {ys : Spans} (h : Fresh ys) :
    callCount q (xs ++ ys) = callCount q xs + callCount q ys := by
  rw [callCount, calls, Pending.calls_append, h, List.countP_append]
  rfl

theorem callCount_append_of_settled {xs : Spans} (h : Settled xs) :
    callCount q (xs ++ ys) = callCount q xs + callCount q ys := by
  rw [callCount, calls, Pending.calls_append, h, List.countP_append]
  rfl

@[simp] theorem callCount_text (t : String) : callCount q (.text t :: xs) = callCount q xs := by
  rw [callCount, calls, Pending.calls_cons, Span.calls]
  · rfl
  · nofun
  · nofun

@[simp] theorem callCount_margin (depth : Nat) :
    callCount q (.margin depth :: xs) = callCount q xs := by
  rw [callCount, calls, Pending.calls_cons, Span.calls]
  · rfl
  · nofun
  · nofun

@[simp] theorem callCount_introduction (i : Introduction) :
    callCount q (.introduction i :: xs) = callCount q xs := by
  rw [callCount, calls, Pending.calls_cons, Span.calls]
  · rfl
  · nofun
  · nofun

@[simp] theorem callCount_mention (m : Mention) : callCount q [.mention m] = 0 := by
  rw [callCount, calls, Pending.calls_cons, Span.calls]
  · rfl
  · nofun
  · nofun

@[simp] theorem callCount_guarded (inner : Spans) :
    callCount q (.guarded inner :: xs) = callCount q inner + callCount q xs := by
  rw [callCount, calls, Pending.calls_cons, List.countP_append]
  rfl

@[simp] theorem callCount_function (inner : Spans) :
    callCount q (.function inner :: xs) = callCount q inner + callCount q xs := by
  rw [callCount, calls, Pending.calls_cons, List.countP_append]
  rfl

end Counts

end Spans

end ScriptCompiler
