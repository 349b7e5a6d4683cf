import Mathlib

/-!
# Results and readings

What a result made of other results says about them, and what a check of a whole list says about
its items: the list passes if all of them do, and has the error of the first one that does not.
Where a reader gives a value or nothing, two readings may be taken in either order, and a list is
read item by item.
-/

namespace HealthRules

/-! ## One result -/

theorem bind_eq_ok_iff {ε α β : Type} {x : Except ε α} {f : α → Except ε β} {b : β} :
    x >>= f = .ok b ↔ ∃ a, x = .ok a ∧ f a = .ok b := by
  cases x with
  | error e => simp [bind, Except.bind]
  | ok a => simp [bind, Except.bind]

theorem map_eq_ok_iff {ε α β : Type} {x : Except ε α} {f : α → β} {b : β} :
    x.map f = .ok b ↔ ∃ a, x = .ok a ∧ f a = b := by
  cases x with
  | error e => simp [Except.map]
  | ok a => simp [Except.map]

theorem mapError_eq_ok_iff {ε ε' α : Type} {x : Except ε α} {f : ε → ε'} {a : α} :
    x.mapError f = .ok a ↔ x = .ok a := by
  cases x with
  | error e => simp [Except.mapError]
  | ok b => simp [Except.mapError]

theorem mapError_eq_error_iff {ε ε' α : Type} {x : Except ε α} {f : ε → ε'} {error : ε'} :
    x.mapError f = .error error ↔ ∃ cause, x = .error cause ∧ f cause = error := by
  cases x with
  | error e => simp [Except.mapError]
  | ok a => simp [Except.mapError]

/-! ## Lists of checks -/

/-- A list passes a check of its items exactly if all of them do. -/
theorem forM_eq_ok_iff {α ε : Type} {check : α → Except ε Unit} {xs : List α} :
    xs.forM check = .ok () ↔ ∀ x ∈ xs, check x = .ok () := by
  induction xs with
  | nil => exact iff_of_true rfl (List.forall_mem_nil _)
  | cons x xs ih =>
    have hcons : (x :: xs).forM check = (check x).bind fun _ => xs.forM check := rfl
    rw [hcons, List.forall_mem_cons, ← ih]
    cases check x with
    | error error => simp [Except.bind]
    | ok u => simp [Except.bind]

/-- An item with the items before it: the first one with none, or a later one with the first among
them. -/
theorem exists_split_cons {α : Type} {x : α} {xs : List α} {p : List α → α → Prop} :
    (∃ front y back, x :: xs = front ++ y :: back ∧ p front y) ↔
      p [] x ∨ ∃ front y back, xs = front ++ y :: back ∧ p (x :: front) y := by
  constructor
  · rintro ⟨front, y, back, hxs, hp⟩
    cases front with
    | nil =>
      rw [List.nil_append, List.cons.injEq] at hxs
      rw [hxs.1]
      exact .inl hp
    | cons z front =>
      rw [List.cons_append, List.cons.injEq] at hxs
      rw [hxs.1]
      exact .inr ⟨front, y, back, hxs.2, hp⟩
  · rintro (hp | ⟨front, y, back, rfl, hp⟩)
    · exact ⟨[], x, xs, rfl, hp⟩
    · exact ⟨x :: front, y, back, rfl, hp⟩

/-- The error of a list is that of the first item which does not pass. -/
theorem forM_eq_error_iff {α ε : Type} {check : α → Except ε Unit} {xs : List α} {error : ε} :
    xs.forM check = .error error ↔ ∃ front x back, xs = front ++ x :: back ∧
      (∀ y ∈ front, check y = .ok ()) ∧ check x = .error error := by
  induction xs with
  | nil => simp [pure, Except.pure]
  | cons x xs ih =>
    have hcons : (x :: xs).forM check = (check x).bind fun _ => xs.forM check := rfl
    rw [hcons, exists_split_cons]
    simp only [List.forall_mem_cons]
    cases hx : check x with
    | error first => simp [Except.bind]
    | ok u =>
      rw [Except.bind, ih]
      simp

/-! ## Two readings -/

/-- What two readings give together does not depend on which of them is taken first. -/
theorem bind_bind_comm {α β : Type} (x y : Option α) {f g : α → α → β}
    (h : ∀ a b, f a b = g b a) :
    (do let a ← x; let b ← y; return f a b) = (do let b ← y; let a ← x; return g b a) := by
  cases x with
  | none => cases y <;> rfl
  | some a =>
    cases y with
    | none => rfl
    | some b => exact congrArg some (h a b)

/-- One reading taken twice gives what equal things give. -/
theorem eq_of_bind_self {α β : Type} {x : Option α} {f : α → α → β} {result same : β}
    (h : ∀ a, f a a = same) (hx : (do let a ← x; let b ← x; return f a b) = some result) :
    result = same := by
  cases x with
  | none => cases hx
  | some a => exact (Option.some.inj hx).symm.trans (h a)

/-! ## Lists of readings -/

/-- A list that is read item by item. -/
theorem forall₂_of_mapM {α β : Type} {read : α → Option β} {xs : List α} {ys : List β}
    (h : xs.mapM read = some ys) : List.Forall₂ (fun x y => read x = some y) xs ys := by
  induction xs generalizing ys with
  | nil =>
    rw [List.mapM_nil] at h
    cases h
    exact .nil
  | cons x xs ih =>
    rw [List.mapM_cons] at h
    obtain ⟨y, hy, h⟩ := Option.bind_eq_some_iff.mp h
    obtain ⟨rest, hrest, h⟩ := Option.bind_eq_some_iff.mp h
    cases h
    exact .cons hy (ih hrest)

end HealthRules
