import Mathlib.Data.List.Forall2

set_option autoImplicit false

/-! # Results

A result that was reached in two steps was reached in each of them (`bind_eq_ok`). What is made of
several values one by one, be they sources, files or drafts, is there as soon as each of them gives
its part (`mapM_eq_ok_iff`, `exists_mapM_eq_ok`).
-/

namespace LuaReference

variable {α β ε : Type}

@[simp] theorem ok_bind (value : α) (next : α → Except ε β) :
    Except.ok value >>= next = next value := rfl

theorem bind_eq_ok {first : Except ε α} {next : α → Except ε β} {result : β}
    (h : (first >>= next) = .ok result) : ∃ value, first = .ok value ∧ next value = .ok result := by
  cases first with
  | error error => cases h
  | ok value => exact ⟨value, rfl, h⟩

/-- A list of results is one as soon as each of its parts is. -/
theorem mapM_eq_ok_iff (f : α → Except ε β) (xs : List α) (ys : List β) :
    xs.mapM f = .ok ys ↔ List.Forall₂ (fun x y => f x = .ok y) xs ys := by
  induction xs generalizing ys with
  | nil => cases ys <;> simp [pure, Except.pure]
  | cons x xs ih =>
      rw [List.mapM_cons, List.forall₂_cons_left_iff]
      cases hx : f x with
      | error error => simp [bind, Except.bind]
      | ok y =>
          cases hxs : xs.mapM f with
          | error error => simp [bind, Except.bind, ← ih, hxs]
          | ok more => simp [bind, Except.bind, pure, Except.pure, ← ih, hxs, eq_comm]

/-- Values of which each gives what is expected give what is expected as a list. -/
theorem mapM_map_eq_ok {γ : Type} {f : β → Except ε γ} {before : α → β} {result : α → γ}
    {xs : List α} (h : ∀ x ∈ xs, f (before x) = .ok (result x)) :
    (xs.map before).mapM f = .ok (xs.map result) := by
  rw [mapM_eq_ok_iff, List.forall₂_map_left_iff, List.forall₂_map_right_iff, List.forall₂_same]
  exact h

/-- A list of results depends on the results alone. -/
theorem mapM_congr_map {f : α → Except ε β} {xs ys : List α} (h : xs.map f = ys.map f) :
    xs.mapM f = ys.mapM f := by
  have hid (zs : List α) : zs.mapM f = (zs.map f).mapM id := by
    rw [List.mapM_map]
    rfl
  rw [hid, hid, h]

/-- If each part gives a result of some sort, the list gives a list of such results. -/
theorem exists_mapM_eq_ok {f : α → Except ε β} {holds : α → β → Prop}
    (h : ∀ x, ∃ y, f x = .ok y ∧ holds x y) (xs : List α) :
    ∃ ys, xs.mapM f = .ok ys ∧ List.Forall₂ holds xs ys := by
  induction xs with
  | nil => exact ⟨[], rfl, .nil⟩
  | cons x xs ih =>
      obtain ⟨y, hy, hholds⟩ := h x
      obtain ⟨ys, hys, hall⟩ := ih
      refine ⟨y :: ys, ?_, .cons hholds hall⟩
      rw [List.mapM_cons, hy, hys]
      rfl

/-- What follows for each result holds of all of them. -/
theorem forall_mem_right_of_forall₂ {holds : α → β → Prop} {good : β → Prop} {xs : List α}
    {ys : List β} (h : List.Forall₂ holds xs ys) (hgood : ∀ x y, holds x y → good y) :
    ∀ y ∈ ys, good y := by
  induction h with
  | nil => simp
  | cons hxy _ ih => exact List.forall_mem_cons.mpr ⟨hgood _ _ hxy, ih⟩

end LuaReference
