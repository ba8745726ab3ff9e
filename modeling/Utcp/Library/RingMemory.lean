import Mathlib.Data.List.Basic

/-!
A memory used as a ring of `size` cells: `Holds mem size start xs` says that
the list lies in it from the logical position `start` on, each position taken
modulo the size. The three rules are those of a queue: write behind the end,
forget at the front, read anywhere in between.
-/

namespace RingMemory

variable {α : Type*} {mem mem' : Nat → α} {size start : Nat} {xs ys : List α}

def Holds (mem : Nat → α) (size start : Nat) (xs : List α) : Prop :=
  ∀ i (h : i < xs.length), mem ((start + i) % size) = xs[i]

@[simp] theorem holds_nil : Holds mem size start [] := by
  intro i h
  simp at h

/-- Two positions less than one round apart share no cell. -/
theorem cell_ne {size p q : Nat} (hpq : p < q) (hq : q < p + size) : p % size ≠ q % size := by
  intro heq
  obtain ⟨d, rfl⟩ := Nat.exists_eq_add_of_le (Nat.le_of_lt hpq)
  have hd : d % size = 0 := by
    have hsub : (p + d - p) % size = 0 := Nat.sub_mod_eq_zero_of_mod_eq heq.symm
    rwa [Nat.add_sub_cancel_left] at hsub
  rw [Nat.mod_eq_of_lt (by omega)] at hd
  omega

/-- `mem'` is `mem` with `ys` stored from position `pos` on. -/
structure Stores (mem mem' : Nat → α) (size pos : Nat) (ys : List α) : Prop where
  new : ∀ i (h : i < ys.length), mem' ((pos + i) % size) = ys[i]
  old : ∀ q, (∀ i < ys.length, q % size ≠ (pos + i) % size) → mem' (q % size) = mem (q % size)

theorem Holds.write (h : Holds mem size start xs)
    (hs : Stores mem mem' size (start + xs.length) ys) (hroom : xs.length + ys.length ≤ size) :
    Holds mem' size start (xs ++ ys) := by
  intro i hi
  rcases Nat.lt_or_ge i xs.length with hx | hx
  · rw [List.getElem_append_left hx, ← h i hx]
    apply hs.old
    intro j hj
    exact cell_ne (by omega) (by omega)
  · rw [List.getElem_append_right hx]
    have hy : i - xs.length < ys.length := by
      rw [List.length_append] at hi
      omega
    have hnew := hs.new (i - xs.length) hy
    rwa [show start + xs.length + (i - xs.length) = start + i by omega] at hnew

theorem Holds.forget (h : Holds mem size start xs) (n : Nat) :
    Holds mem size (start + n) (xs.drop n) := by
  intro i hi
  rw [List.getElem_drop, Nat.add_assoc]
  exact h (n + i) (by rw [List.length_drop] at hi; omega)

theorem Holds.read (h : Holds mem size start xs) {offset n : Nat}
    (hn : offset + n ≤ xs.length) :
    ((List.range n).map fun i => mem ((start + offset + i) % size)) =
      (xs.drop offset).take n := by
  apply List.ext_getElem
  · simp only [List.length_map, List.length_range, List.length_take, List.length_drop]
    omega
  · intro i hi hi'
    simp only [List.length_map, List.length_range] at hi
    simp only [List.getElem_map, List.getElem_range, List.getElem_take, List.getElem_drop]
    rw [Nat.add_assoc]
    exact h (offset + i) (by omega)

/-- The ring holds as much of the end of a list as it has cells. -/
def HoldsLast (mem : Nat → α) (size : Nat) (xs : List α) : Prop :=
  Holds mem size (xs.length - size) (xs.drop (xs.length - size))

theorem holdsLast_nil : HoldsLast mem size [] := by
  rw [HoldsLast, List.drop_nil]
  exact holds_nil

theorem stores_one (mem : Nat → α) (size pos : Nat) (y : α) :
    Stores mem (fun i => if i = pos % size then y else mem i) size pos [y] := by
  constructor
  · intro i hi
    rw [List.length_singleton] at hi
    obtain rfl : i = 0 := by omega
    exact if_pos rfl
  · intro q hq
    exact if_neg (hq 0 (by simp))

theorem HoldsLast.push (h : HoldsLast mem size xs) (hsize : 0 < size) (y : α) :
    HoldsLast (fun i => if i = xs.length % size then y else mem i) size (xs ++ [y]) := by
  rw [HoldsLast, List.length_append, List.length_singleton]
  rcases Nat.lt_or_ge xs.length size with hroom | hfull
  · have hzero : xs.length - size = 0 := by omega
    have hzero' : xs.length + 1 - size = 0 := by omega
    rw [HoldsLast, hzero, List.drop_zero] at h
    rw [hzero', List.drop_zero]
    have hstores := stores_one mem size xs.length y
    rw [← Nat.zero_add xs.length] at hstores
    have hwritten := h.write hstores (by rw [List.length_singleton]; omega)
    rwa [Nat.zero_add] at hwritten
  · have hlast := h.forget 1
    rw [List.drop_drop] at hlast
    have hlen : (xs.drop (xs.length - size + 1)).length = size - 1 := by
      rw [List.length_drop]
      omega
    have hpos : xs.length = xs.length - size + 1 + (xs.drop (xs.length - size + 1)).length := by
      omega
    have hstores := stores_one mem size xs.length y
    rw [hpos] at hstores
    have hwritten := hlast.write hstores (by rw [List.length_singleton]; omega)
    rw [List.drop_append_of_le_length (by omega), Nat.sub_add_comm hfull]
    rwa [← hpos] at hwritten

theorem HoldsLast.window (h : HoldsLast mem size xs) (hfull : size ≤ xs.length) :
    ((List.range size).map fun i => mem ((xs.length + i) % size)) =
      xs.drop (xs.length - size) := by
  have hread := @Holds.read _ _ _ _ _ h 0 size (by rw [List.length_drop]; omega)
  rw [List.drop_zero, List.take_of_length_le (by rw [List.length_drop]; omega)] at hread
  rw [← hread]
  apply List.map_congr_left
  intro i _
  congr 1
  have hround : xs.length + i = xs.length - size + 0 + i + size := by omega
  rw [hround, Nat.add_mod_right]

theorem HoldsLast.exists_cell_iff (h : HoldsLast mem size xs) (hfull : size ≤ xs.length)
    (p : α → Prop) : (∃ i < size, p (mem i)) ↔ ∃ x ∈ xs.drop (xs.length - size), p x := by
  rw [← h.window hfull]
  constructor
  · rintro ⟨i, hi, hp⟩
    have hlt : xs.length % size < size := Nat.mod_lt _ (by omega)
    refine ⟨mem i, List.mem_map.mpr ?_, hp⟩
    rcases Nat.lt_or_ge i (xs.length % size) with hwrap | hback
    · refine ⟨size + i - xs.length % size, List.mem_range.mpr (by omega), ?_⟩
      rw [Nat.add_mod, Nat.mod_eq_of_lt (by omega : size + i - xs.length % size < size),
        show xs.length % size + (size + i - xs.length % size) = i + size by omega,
        Nat.add_mod_right, Nat.mod_eq_of_lt hi]
    · refine ⟨i - xs.length % size, List.mem_range.mpr (by omega), ?_⟩
      rw [Nat.add_mod, Nat.mod_eq_of_lt (by omega : i - xs.length % size < size),
        Nat.add_sub_cancel' hback, Nat.mod_eq_of_lt hi]
  · rintro ⟨x, hx, hp⟩
    obtain ⟨i, hi, rfl⟩ := List.mem_map.mp hx
    rw [List.mem_range] at hi
    exact ⟨_, Nat.mod_lt _ (by omega), hp⟩

end RingMemory
