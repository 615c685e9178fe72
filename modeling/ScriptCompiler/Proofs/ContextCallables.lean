import ScriptCompiler.Proofs.Effect

/-!
# Callables of a context

The callables that the values of a binding hold, and the fact that no name or chain of attributes
leads to any other.
-/

namespace ScriptCompiler

mutual

/-- The callables in a value, each as often as it occurs. -/
def ContextValue.callables : ContextValue → List (Nat × Callable)
  | .list items => callablesOf items
  | .map entries | .object _ entries => entryCallables entries
  | .callable identity callable => [(identity, callable)]
  | _ => []

def callablesOf : List ContextValue → List (Nat × Callable)
  | [] => []
  | v :: rest => v.callables ++ callablesOf rest

def entryCallables : List (String × ContextValue) → List (Nat × Callable)
  | [] => []
  | (_, v) :: rest => v.callables ++ entryCallables rest

end

/-- The callables of a context, which may be missing. -/
def contextCallables : Option Binding → List (Nat × Callable)
  | none => []
  | some binding => entryCallables binding.values

mutual

theorem ContextValue.length_callables : ∀ v : ContextValue, v.callables.length = v.callableCount
  | .list items => by
    exact length_callablesOf items
  | .map entries | .object _ entries => by
    exact length_entryCallables entries
  | .callable _ _ => by
    rfl
  | .null | .bool _ | .integer _ | .float _ | .string _ => by
    simp [ContextValue.callables, ContextValue.callableCount]

theorem length_callablesOf :
    ∀ items : List ContextValue, (callablesOf items).length = callableCounts items
  | [] => by
    rfl
  | v :: rest => by
    rw [callablesOf, callableCounts, List.length_append, v.length_callables,
      length_callablesOf rest]

theorem length_entryCallables :
    ∀ entries : List (String × ContextValue), (entryCallables entries).length =
    entryCallableCounts entries
  | [] => by
    rfl
  | (_, v) :: rest => by
    rw [entryCallables, entryCallableCounts, List.length_append, v.length_callables,
      length_entryCallables rest]

end

theorem length_contextCallables (binding : Option Binding) :
    (contextCallables binding).length = (binding.map Binding.callableCount).getD 0 := by
  cases binding with
  | none => rfl
  | some binding => exact length_entryCallables binding.values

variable {key : String} {v value : ContextValue} {b : Binder}

theorem callables_subset_of_lookup {entries : List (String × ContextValue)}
    (h : entries.lookup key = some v) : v.callables ⊆ entryCallables entries := by
  induction entries with
  | nil => cases h
  | cons entry rest ih =>
    obtain ⟨name, value⟩ := entry
    rw [List.lookup_cons] at h
    by_cases hkey : (key == name) = true
    · rw [hkey] at h
      cases h
      exact List.subset_append_left _ _
    · rw [Bool.not_eq_true] at hkey
      rw [hkey] at h
      exact List.subset_append_of_subset_right _ (ih h)

theorem Binder.callables_lookup {name : String} (h : b.lookup name = some v) :
    v.callables ⊆ contextCallables b.binding := by
  unfold Binder.lookup at h
  cases hbinding : b.binding with
  | none =>
    rw [hbinding] at h
    cases h
  | some binding =>
    rw [hbinding] at h
    exact callables_subset_of_lookup h

theorem Binder.callables_attributeOf?
    (h : Binder.attributeOf? value key = .ok (some v)) : v.callables ⊆ value.callables := by
  unfold Binder.attributeOf? at h
  split at h
  · next name attributes =>
      cases hlookup : attributes.lookup key with
      | none =>
        rw [hlookup] at h
        cases h
      | some found =>
        rw [hlookup] at h
        cases h
        exact callables_subset_of_lookup hlookup
  · cases h

/-- A chain of attributes begins at a name of the context and stays inside its value. -/
theorem Expr.callables_contextHit? {scopes : Scopes} :
    ∀ {e : Expr} {hit : ContextHit}, e.contextHit? scopes b = .ok (some hit) →
      hit.value.callables ⊆ contextCallables b.binding := by
  intro e
  fun_induction Expr.contextHit? scopes b e with
  | case1 | case4 =>
    intro hit h
    cases h
  | case2 pos id hbound =>
    intro hit h
    cases hlookup : b.lookup id with
    | none =>
      rw [hlookup] at h
      cases h
    | some value =>
      rw [hlookup] at h
      cases h
      exact Binder.callables_lookup hlookup
  | case3 object key ih =>
    intro hit h
    cases hobject : object.contextHit? scopes b with
    | error d =>
      rw [hobject] at h
      cases h
    | ok found =>
      rw [hobject] at h
      cases found with
      | none => cases h
      | some base =>
        cases hattribute : Binder.attributeOf? base.value key with
        | error f =>
          simp only [bind, Except.bind, hattribute] at h
          cases h
        | ok found =>
          simp only [bind, Except.bind, hattribute, pure, Except.pure] at h
          cases found with
          | none => cases h
          | some value =>
            cases h
            exact List.Subset.trans (Binder.callables_attributeOf? hattribute) (ih hobject)

/-- What a value does to the queue: a callable may join it, and it is one of the value's own. -/
theorem Binder.render_eq_ok {b' : Binder} {access : String} {owner : Option String}
    {resolution : Resolution} (h : b.render value access owner = .ok (resolution, b')) :
    b'.binding = b.binding ∧ ∀ e ∈ b'.pending, e ∈ b.pending ∨ e.target ∈ value.callables := by
  unfold Binder.render at h
  split at h
  · next identity callable =>
      cases hschedule : b.schedule identity callable access owner with
      | error f =>
        rw [hschedule] at h
        cases h
      | ok out =>
        obtain ⟨name, b₁⟩ := out
        rw [hschedule] at h
        cases h
        obtain ⟨-, ⟨-, rfl⟩ | ⟨-, -, rfl⟩⟩ := schedule_eq_ok hschedule
        · exact ⟨rfl, fun e he => .inl he⟩
        · refine ⟨rfl, fun e he => ?_⟩
          rcases List.mem_append.mp he with he | he
          · exact .inl he
          · cases List.mem_singleton.mp he
            exact .inr (List.mem_singleton_self _)
  · cases hliteral : value.literal? with
    | some text | none =>
      rw [hliteral] at h
      cases h
      exact ⟨rfl, fun e he => .inl he⟩

end ScriptCompiler
