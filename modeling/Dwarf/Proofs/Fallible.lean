/-!
# What follows from success and from failure

A computation that can fail and did not has gone through each of its steps. One that
did fail has gone through all steps up to one that failed. The lemmas here take the
outcome apart into those of the steps.
-/

namespace Dwarf

namespace Fallible

variable {ε α β : Type}

theorem bind_eq_ok {x : Except ε α} {f : α → Except ε β} {value : β} :
    (x >>= f) = .ok value ↔ ∃ first, x = .ok first ∧ f first = .ok value := by
  cases x with
  | error cause =>
    constructor
    · intro h
      cases h
    · intro h
      obtain ⟨first, hfirst, -⟩ := h
      cases hfirst
  | ok first =>
    constructor
    · intro h
      exact ⟨first, rfl, h⟩
    · intro h
      obtain ⟨first', hfirst, h⟩ := h
      cases hfirst
      exact h

theorem bind_eq_error {x : Except ε α} {f : α → Except ε β} {cause : ε} :
    (x >>= f) = .error cause ↔
      x = .error cause ∨ ∃ first, x = .ok first ∧ f first = .error cause := by
  cases x with
  | error cause' =>
    constructor
    · intro h
      cases h
      exact .inl rfl
    · rintro (h | ⟨first, hfirst, -⟩)
      · cases h
        rfl
      · cases hfirst
  | ok first =>
    constructor
    · intro h
      exact .inr ⟨first, rfl, h⟩
    · rintro (h | ⟨first', hfirst, h⟩)
      · cases h
      · cases hfirst
        exact h

/-- A property of the value, where there is one, shows that there is. -/
theorem exists_of_map {x : Except ε α} {f : α → β} {value : β}
    (h : x.toOption.map f = some value) : ∃ a, x = .ok a ∧ f a = value := by
  cases x with
  | error cause => cases h
  | ok a => exact ⟨a, rfl, Option.some.inj h⟩

/-- Why there is no value, if there is none. -/
def fault? : Except ε α → Option ε
  | .error cause => some cause
  | .ok _ => none

theorem fault?_eq_some {x : Except ε α} {cause : ε} : fault? x = some cause ↔ x = .error cause := by
  cases x with
  | error cause' => exact ⟨fun h => congrArg _ (Option.some.inj h), fun h => by cases h; rfl⟩
  | ok a => exact ⟨nofun, nofun⟩

/-- Each result of a pass over a list was computed from the element at its place. -/
theorem exists_of_mapM {f : α → Except ε β} {xs : List α} {ys : List β}
    (h : xs.mapM f = .ok ys) {i : Nat} {y : β} (hi : ys[i]? = some y) :
    ∃ x, xs[i]? = some x ∧ f x = .ok y := by
  induction xs generalizing ys i with
  | nil =>
    cases h
    cases hi
  | cons x xs ih =>
    rw [List.mapM_cons] at h
    obtain ⟨first, hfirst, h⟩ := bind_eq_ok.mp h
    obtain ⟨later, hlater, h⟩ := bind_eq_ok.mp h
    cases h
    cases i with
    | zero =>
      cases hi
      exact ⟨x, rfl, hfirst⟩
    | succ i => exact ih hlater hi

/-- A pass over a list fails for one of its elements. -/
theorem exists_of_mapM_error {f : α → Except ε β} {xs : List α} {cause : ε}
    (h : xs.mapM f = .error cause) : ∃ x ∈ xs, f x = .error cause := by
  induction xs with
  | nil => cases h
  | cons x xs ih =>
    rw [List.mapM_cons] at h
    rcases bind_eq_error.mp h with hfirst | ⟨first, -, h⟩
    · exact ⟨x, List.mem_cons_self, hfirst⟩
    · rcases bind_eq_error.mp h with hlater | ⟨later, -, hdone⟩
      · obtain ⟨x', hx', hfault⟩ := ih hlater
        exact ⟨x', List.mem_cons_of_mem x hx', hfault⟩
      · cases hdone

/-- A pass over changed elements changes its results, if each of its steps does. -/
theorem mapM_map {f : α → Except ε β} {change : α → α} {change' : β → β}
    (h : ∀ x, f (change x) = (f x).map change') (xs : List α) :
    (xs.map change).mapM f = (xs.mapM f).map (List.map change') := by
  induction xs with
  | nil => rfl
  | cons x xs ih =>
    rw [List.map_cons, List.mapM_cons, List.mapM_cons, h, ih]
    cases f x with
    | error cause => rfl
    | ok first => cases xs.mapM f <;> rfl

end Fallible

end Dwarf
