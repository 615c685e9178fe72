import Mathlib.Data.List.Forall2

/-!
# Lists and results

Facts about lists and about results that may be errors, on which nothing of the library depends but
its proofs.
-/

namespace ScriptCompiler

/-! ## Lists -/

section Lists

variable {α : Type} {p : α → Bool}

theorem getElem?_concat_eq_some_iff {xs : List α} {x y : α} {i : Nat} :
    (xs ++ [x])[i]? = some y ↔ xs[i]? = some y ∨ i = xs.length ∧ x = y := by
  grind

theorem forall_mem_reverse {P : α → Prop} {list : List α} (h : ∀ a ∈ list, P a) :
    ∀ a ∈ list.reverse, P a :=
  fun a ha => h a (List.mem_reverse.mp ha)

/-- What is skipped in front of a list makes no difference to what is found, and nothing else. -/
theorem dropWhile_cons_eq_iff {a : α} {l : List α} :
    (a :: l).dropWhile p = l.dropWhile p ↔ p a = true := by
  rw [List.dropWhile_cons]
  by_cases ha : p a = true
  · simp [ha]
  · have hlength : (l.dropWhile p).length ≤ l.length := (List.dropWhile_sublist _).length_le
    rw [if_neg ha, iff_false_right ha]
    intro heq
    rw [← heq, List.length_cons] at hlength
    omega

theorem head?_dropWhile_eq_false (p : α → Bool) (cs : List α) :
    ∀ c ∈ (cs.dropWhile p).head?, p c = false := by
  intro c hc
  have hnot := List.head?_dropWhile_not p cs
  rw [Option.mem_def.1 hc] at hnot
  simpa using hnot

theorem mem_dropWhile_of_not {cs : List α} {c : α} (hc : c ∈ cs) (hp : p c = false) :
    c ∈ cs.dropWhile p := by
  rw [← List.takeWhile_append_dropWhile (p := p) (l := cs), List.mem_append] at hc
  refine hc.resolve_left fun htake => ?_
  rw [List.all_eq_true.1 List.all_takeWhile c htake] at hp
  cases hp

theorem span_append {cs rest : List α} (hcs : ∀ c ∈ cs, p c = true)
    (hrest : ∀ c ∈ rest.head?, p c = false) : (cs ++ rest).takeWhile p = cs ∧
    (cs ++ rest).dropWhile p = rest := by
  rw [List.takeWhile_append_of_pos hcs, List.dropWhile_append_of_pos hcs]
  cases rest with
  | nil => simp
  | cons c rest => simp [hrest c rfl]

end Lists

theorem intercalate_flatten (separator : String) {textss : List (List String)}
    (h : ∀ texts ∈ textss, texts ≠ []) :
    separator.intercalate textss.flatten = separator.intercalate
    (textss.map separator.intercalate) := by
  induction textss with
  | nil => rfl
  | cons texts rest ih =>
    obtain ⟨htexts, hrest⟩ := List.forall_mem_cons.mp h
    cases rest with
    | nil => simp
    | cons next rest =>
      have hnext : (next :: rest).flatten ≠ [] := by
        simpa using fun hnil => absurd hnil (hrest next List.mem_cons_self)
      rw [List.flatten_cons, String.intercalate_append_of_ne_nil htexts hnext, ih hrest]
      simp only [List.map_cons, String.intercalate_cons_cons]

/-! ## Results -/

namespace Except

variable {ε ζ α β γ : Type} {f : α → Except ε β}

theorem exists_of_bind_eq_ok {x : Except ε α} {c : β}
    (h : x >>= f = .ok c) : ∃ a, x = .ok a ∧ f a = .ok c := by
  cases x with
  | error e => cases h
  | ok a => exact ⟨a, rfl, h⟩

theorem eq_error_or_exists_of_bind_eq_error {x : Except ε α} {d : ε}
    (h : x >>= f = .error d) : x = .error d ∨ ∃ a, x = .ok a ∧ f a = .error d := by
  cases x with
  | error d' =>
    injection h with h
    exact Or.inl (h ▸ rfl)
  | ok a => exact Or.inr ⟨a, rfl, h⟩

theorem eq_ok_of_mapError_eq_ok {report : ε → ζ} {x : Except ε α} {a : α}
    (h : x.mapError report = .ok a) : x = .ok a := by
  cases x with
  | error e => cases h
  | ok a' =>
    injection h with h
    rw [h]

theorem exists_of_mapError_eq_error {report : ε → ζ} {x : Except ε α} {d : ζ}
    (h : x.mapError report = .error d) : ∃ d₀, x = .error d₀ ∧ d = report d₀ := by
  cases x with
  | error d₀ =>
    injection h with h
    exact ⟨d₀, rfl, h.symm⟩
  | ok a => cases h

theorem map_eq_ok_iff {x : Except ε β} {g : β → γ} {c : γ} :
    x.map g = .ok c ↔ ∃ b, x = .ok b ∧ c = g b := by
  cases x <;> simp [Except.map, eq_comm]

theorem map_eq_error_iff {x : Except ε β} {g : β → γ} {d : ε} :
    x.map g = .error d ↔ x = .error d := by
  cases x <;> simp [Except.map]

theorem mapM_eq_ok_iff {as : List α} {bs : List β} :
    as.mapM f = .ok bs ↔ List.Forall₂ (fun a b => f a = .ok b) as bs := by
  induction as generalizing bs with
  | nil =>
    rw [List.mapM_nil, List.forall₂_nil_left_iff]
    exact ⟨fun h => (Except.ok.inj h).symm, fun h => congrArg _ h.symm⟩
  | cons a as ih =>
    rw [List.mapM_cons]
    constructor
    · intro h
      obtain ⟨b, hb, h⟩ := exists_of_bind_eq_ok h
      obtain ⟨rest, hrest, h⟩ := exists_of_bind_eq_ok h
      cases h
      exact .cons hb (ih.mp hrest)
    · rintro (_ | ⟨hb, hrest⟩)
      rw [hb, ih.mpr hrest]
      rfl

theorem mapM_eq_error_iff {as : List α} {d : ε} : as.mapM f = .error d ↔
      ∃ before a after, as = before ++ a :: after ∧ (∀ c ∈ before, (f c).isOk = true) ∧
      f a = .error d := by
  induction as with
  | nil => simp [pure, Except.pure]
  | cons a as ih =>
    rw [List.mapM_cons]
    constructor
    · intro h
      rcases eq_error_or_exists_of_bind_eq_error h with ha | ⟨b, hb, h⟩
      · exact ⟨[], a, as, rfl, by simp, ha⟩
      · rcases eq_error_or_exists_of_bind_eq_error h with hrest | ⟨_, _, h⟩
        · obtain ⟨before, c, after, rfl, hbefore, hc⟩ := ih.mp hrest
          refine ⟨a :: before, c, after, rfl, List.forall_mem_cons.mpr ⟨?_, hbefore⟩, hc⟩
          rw [hb]
          rfl
        · cases h
    · rintro ⟨before, c, after, has, hbefore, hc⟩
      cases before with
      | nil =>
        obtain ⟨rfl, rfl⟩ := List.cons.inj has
        rw [hc]
        rfl
      | cons first before =>
        obtain ⟨rfl, rfl⟩ := List.cons.inj has
        obtain ⟨hfirst, hbefore⟩ := List.forall_mem_cons.mp hbefore
        have hrest := ih.mpr ⟨before, c, after, rfl, hbefore, hc⟩
        cases ha : f a with
        | error e =>
          rw [ha] at hfirst
          cases hfirst
        | ok b =>
          rw [hrest]
          rfl

theorem mapM_view {g : α → Except ζ γ} {report : ε → ζ} {view : β → γ} {as : List α}
    (h : ∀ a ∈ as, g a = ((f a).mapError report).map view) :
    as.mapM g = ((as.mapM f).mapError report).map (List.map view) := by
  induction as with
  | nil => rfl
  | cons a as ih =>
    obtain ⟨ha, hrest⟩ := List.forall_mem_cons.mp h
    rw [List.mapM_cons, List.mapM_cons, ih hrest, ha]
    cases f a with
    | error e => rfl
    | ok b => cases as.mapM f <;> rfl

end Except

end ScriptCompiler
