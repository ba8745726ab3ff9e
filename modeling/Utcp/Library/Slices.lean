import Mathlib.Data.List.Basic

/-!
Lists laid out along the natural numbers. `Fits P pos xs` says that every
element of `xs` is one that the relation `P` allows at its place, when the list
starts at `pos`.
-/

namespace Slices

variable {α : Type*} {P : Nat → α → Prop}

def Fits (P : Nat → α → Prop) (pos : Nat) (xs : List α) : Prop :=
  ∀ i (h : i < xs.length), P (pos + i) xs[i]

@[simp] theorem fits_nil (pos : Nat) : Fits P pos [] := by
  intro i h
  simp at h

theorem Fits.append {pos : Nat} {xs ys : List α} (hx : Fits P pos xs)
    (hy : Fits P (pos + xs.length) ys) : Fits P pos (xs ++ ys) := by
  intro i hi
  rcases Nat.lt_or_ge i xs.length with h | h
  · rw [List.getElem_append_left h]
    exact hx i h
  · rw [List.getElem_append_right h]
    have hi' : i - xs.length < ys.length := by
      rw [List.length_append] at hi
      omega
    have hpos : pos + xs.length + (i - xs.length) = pos + i := by omega
    simpa only [hpos] using hy (i - xs.length) hi'

theorem Fits.drop {pos : Nat} {xs : List α} (h : Fits P pos xs) (n : Nat) :
    Fits P (pos + n) (xs.drop n) := by
  intro i hi
  rw [List.getElem_drop]
  have hi' : n + i < xs.length := by
    rw [List.length_drop] at hi
    omega
  simpa only [Nat.add_assoc] using h (n + i) hi'

theorem Fits.take {pos : Nat} {xs : List α} (h : Fits P pos xs) (n : Nat) :
    Fits P pos (xs.take n) := by
  intro i hi
  rw [List.getElem_take]
  exact h i (by rw [List.length_take] at hi; omega)

/-- The relation of a fixed list laid out from `base` on. -/
def Agrees (base : Nat) (ys : List α) (pos : Nat) (x : α) : Prop :=
  base ≤ pos ∧ ys[pos - base]? = some x

theorem prefix_of_fits {base : Nat} {xs ys : List α} (h : Fits (Agrees base ys) base xs) :
    xs <+: ys := by
  rw [List.prefix_iff_eq_take]
  apply List.ext_getElem?
  intro i
  rcases Nat.lt_or_ge i xs.length with hi | hi
  · have hx := (h i hi).2
    rw [Nat.add_sub_cancel_left] at hx
    rw [List.getElem?_take_of_lt hi, hx, List.getElem?_eq_getElem hi]
  · rw [List.getElem?_eq_none hi, List.getElem?_eq_none (by rw [List.length_take]; omega)]

/-- To agree with a list laid out from zero is to be a slice of it. -/
theorem fits_agrees_iff {pos : Nat} {xs ys : List α} :
    Fits (Agrees 0 ys) pos xs ↔ xs <+: ys.drop pos := by
  rw [List.prefix_iff_getElem?]
  constructor
  · intro h i hi
    rw [List.getElem?_drop]
    exact (h i hi).2
  · intro h i hi
    refine ⟨Nat.zero_le _, ?_⟩
    rw [Nat.sub_zero, ← List.getElem?_drop]
    exact h i hi

end Slices
