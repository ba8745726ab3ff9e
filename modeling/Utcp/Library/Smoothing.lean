import Mathlib.Data.Nat.Init

/-!
Exponentially weighted averages in scaled integers: the average is kept `k`
times too large, and a sample of weight `1 / k` moves it by its distance.
-/

namespace Smoothing

/-- The scaled average `s` after a sample `r`. -/
def smooth (k s r : Nat) : Nat := s - s / k + r

variable {k s r lo hi : Nat}

theorem smooth_succ (j s r : Nat) :
    smooth (j + 1) s r = j * (s / (j + 1)) + s % (j + 1) + r := by
  have hsplit := Nat.div_add_mod s (j + 1)
  have hmul : (j + 1) * (s / (j + 1)) = j * (s / (j + 1)) + s / (j + 1) := Nat.succ_mul ..
  rw [smooth]
  omega

theorem le_smooth_div (hk : 0 < k) (hs : lo ≤ s / k) (hr : lo ≤ r) : lo ≤ smooth k s r / k := by
  obtain ⟨j, rfl⟩ : ∃ j, k = j + 1 := ⟨k - 1, by omega⟩
  have hmul : j * lo ≤ j * (s / (j + 1)) := Nat.mul_le_mul_left j hs
  rw [Nat.le_div_iff_mul_le hk, smooth_succ, Nat.mul_succ, Nat.mul_comm lo j]
  omega

theorem smooth_div_le (hk : 0 < k) (hs : s / k ≤ hi) (hr : r ≤ hi) : smooth k s r / k ≤ hi := by
  obtain ⟨j, rfl⟩ : ∃ j, k = j + 1 := ⟨k - 1, by omega⟩
  have hmul : j * (s / (j + 1)) ≤ j * hi := Nat.mul_le_mul_left j hs
  have hmod : s % (j + 1) < j + 1 := Nat.mod_lt s hk
  have hpow : (hi + 1) * (j + 1) = j * hi + hi + (j + 1) := by
    rw [Nat.succ_mul, Nat.mul_succ, Nat.mul_comm hi j]
  rw [← Nat.lt_add_one_iff, Nat.div_lt_iff_lt_mul hk, smooth_succ]
  omega

theorem smooth_eq (k s r : Nat) : (smooth k s r : Int) = s + ((r : Int) - (s / k : Nat)) := by
  have hle : s / k ≤ s := Nat.div_le_self s k
  rw [smooth]
  omega

end Smoothing
