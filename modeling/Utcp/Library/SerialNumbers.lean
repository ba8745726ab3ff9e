import Mathlib.Algebra.Ring.Nat
import Mathlib.Data.List.Basic

/-!
Serial numbers: words compared through the sign of their difference. While two
words stay in the lower half of their range the comparison is the order of
their values; in general it only tells which half of the range the difference
lies in.
-/

namespace SerialNumbers

variable {w : Nat}

theorem toInt_neg_iff (x : BitVec w) : x.toInt < 0 ↔ 2 ^ w ≤ 2 * x.toNat := by
  have hx := x.isLt
  rw [BitVec.toInt_eq_toNat_cond]
  split <;> omega

theorem toInt_pos_iff (x : BitVec w) : 0 < x.toInt ↔ 0 < x.toNat ∧ 2 * x.toNat < 2 ^ w := by
  have hx := x.isLt
  rw [BitVec.toInt_eq_toNat_cond]
  split <;> omega

theorem toNat_sub_of_ge {a b : BitVec w} (h : b.toNat ≤ a.toNat) :
    (a - b).toNat = a.toNat - b.toNat := by
  rw [BitVec.toNat_sub]
  have ha := a.isLt
  have hb := b.isLt
  rw [show 2 ^ w - b.toNat + a.toNat = a.toNat - b.toNat + 2 ^ w by omega,
    Nat.add_mod_right, Nat.mod_eq_of_lt (by omega)]

theorem toNat_sub_of_lt {a b : BitVec w} (h : a.toNat < b.toNat) :
    (a - b).toNat = 2 ^ w - (b.toNat - a.toNat) := by
  rw [BitVec.toNat_sub]
  have hb := b.isLt
  rw [Nat.mod_eq_of_lt (by omega)]
  omega

@[simp] theorem toNat_sub_self (a : BitVec w) : (a - a).toNat = 0 := by
  rw [BitVec.sub_self]
  exact BitVec.toNat_zero

theorem eq_of_toNat_sub_eq_zero {a b : BitVec w} (h : (a - b).toNat = 0) : a = b := by
  have hzero : a - b = 0#w := BitVec.eq_of_toNat_eq (by rw [h]; exact BitVec.toNat_zero.symm)
  rw [← BitVec.sub_add_cancel a b, hzero, BitVec.zero_add]

theorem sub_neg_iff {a b : BitVec w} (ha : 2 * a.toNat < 2 ^ w) (hb : 2 * b.toNat < 2 ^ w) :
    (a - b).toInt < 0 ↔ a.toNat < b.toNat := by
  rw [toInt_neg_iff]
  rcases Nat.lt_or_ge a.toNat b.toNat with h | h
  · rw [toNat_sub_of_lt h]
    omega
  · rw [toNat_sub_of_ge h]
    omega

theorem sub_pos_iff {a b : BitVec w} (ha : 2 * a.toNat < 2 ^ w) (hb : 2 * b.toNat < 2 ^ w) :
    0 < (a - b).toInt ↔ b.toNat < a.toNat := by
  rw [toInt_pos_iff]
  rcases Nat.lt_or_ge a.toNat b.toNat with h | h
  · rw [toNat_sub_of_lt h]
    omega
  · rw [toNat_sub_of_ge h]
    omega

theorem sub_sub_base (a b base : BitVec w) : a - base - (b - base) = a - b := by
  rw [BitVec.sub_sub, BitVec.add_comm, BitVec.sub_add_cancel]

/-- Comparison from a base: both words less than half a round behind it. -/
theorem sub_neg_iff_of_base {a b base : BitVec w} (ha : 2 * (a - base).toNat < 2 ^ w)
    (hb : 2 * (b - base).toNat < 2 ^ w) :
    (a - b).toInt < 0 ↔ (a - base).toNat < (b - base).toNat := by
  rw [← sub_neg_iff ha hb, sub_sub_base]

theorem sub_pos_iff_of_base {a b base : BitVec w} (ha : 2 * (a - base).toNat < 2 ^ w)
    (hb : 2 * (b - base).toNat < 2 ^ w) :
    0 < (a - b).toInt ↔ (b - base).toNat < (a - base).toNat := by
  rw [← sub_pos_iff ha hb, sub_sub_base]

theorem toNat_sub_of_base {a b base : BitVec w} (h : (b - base).toNat ≤ (a - base).toNat) :
    (a - b).toNat = (a - base).toNat - (b - base).toNat := by
  rw [← toNat_sub_of_ge h, sub_sub_base]

theorem toNat_add_sub_base {a len base : BitVec w} (h : (a - base).toNat + len.toNat < 2 ^ w) :
    (a + len - base).toNat = (a - base).toNat + len.toNat := by
  have heq : a + len - base = a - base + len := by
    rw [BitVec.sub_eq_add_neg, BitVec.sub_eq_add_neg, BitVec.add_assoc, BitVec.add_assoc,
      BitVec.add_comm len]
  rw [heq, BitVec.toNat_add, Nat.mod_eq_of_lt h]

theorem toNat_ofNat_sub_ofNat (base : BitVec w) {p q : Nat} (hle : q ≤ p) (hlt : p < q + 2 ^ w) :
    (base + BitVec.ofNat w p - (base + BitVec.ofNat w q)).toNat = p - q := by
  have heq : base + BitVec.ofNat w p - (base + BitVec.ofNat w q) = BitVec.ofNat w (p - q) := by
    obtain ⟨d, rfl⟩ := Nat.exists_eq_add_of_le hle
    rw [BitVec.ofNat_add, ← BitVec.add_assoc, BitVec.add_comm _ (BitVec.ofNat w d),
      BitVec.add_sub_cancel, Nat.add_sub_cancel_left]
  rw [heq, BitVec.toNat_ofNat, Nat.mod_eq_of_lt (by omega)]

theorem toNat_add_ofInt {a : BitVec w} {d : Int} {n : Nat} (h : (n : Int) = a.toNat + d)
    (hn : n < 2 ^ w) : (a + BitVec.ofInt w d).toNat = n := by
  have heq : a + BitVec.ofInt w d = BitVec.ofNat w n := by
    calc a + BitVec.ofInt w d = BitVec.ofInt w a.toNat + BitVec.ofInt w d := by simp
      _ = BitVec.ofInt w (a.toNat + d) := (BitVec.ofInt_add ..).symm
      _ = BitVec.ofNat w n := by
          rw [← h]
          exact BitVec.ofInt_natCast w n
  rw [heq, BitVec.toNat_ofNat, Nat.mod_eq_of_lt hn]

/-- A cut at `cut` that starts at or before a range of `len` words from `start`
and lies strictly below its end falls inside the range, whatever the words are:
the difference to the end is positive and the range is short. -/
theorem cut_inside {start len cut : BitVec w} (hlen : 2 * len.toNat < 2 ^ w)
    (hstart : (start - cut).toInt < 0) (hend : 0 < (start + len - cut).toInt) :
    (cut - start).toNat < len.toNat := by
  rw [toInt_neg_iff] at hstart
  rw [toInt_pos_iff] at hend
  have hsum : start + len - cut = len + (start - cut) := by
    rw [BitVec.sub_eq_add_neg, BitVec.sub_eq_add_neg, BitVec.add_comm start len,
      BitVec.add_assoc]
  have hpow : 0 < 2 ^ w := Nat.two_pow_pos w
  have hback : (cut - start).toNat = 2 ^ w - (start - cut).toNat := by
    rcases Nat.lt_or_ge start.toNat cut.toNat with h | h
    · have hcut := cut.isLt
      rw [toNat_sub_of_ge (Nat.le_of_lt h), toNat_sub_of_lt h]
      omega
    · have hge := toNat_sub_of_ge h
      have hne : cut.toNat < start.toNat := by omega
      rw [toNat_sub_of_lt hne, hge]
  rw [hsum, BitVec.toNat_add] at hend
  have hlt := (start - cut).isLt
  have hlen' := len.isLt
  rw [hback]
  rcases Nat.lt_or_ge (len.toNat + (start - cut).toNat) (2 ^ w) with h | h
  · rw [Nat.mod_eq_of_lt h] at hend
    omega
  · rw [Nat.mod_eq_sub_mod h, Nat.mod_eq_of_lt (by omega)] at hend
    omega

end SerialNumbers
