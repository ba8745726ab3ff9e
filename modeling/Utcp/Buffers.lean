import Utcp.Utils
import Utcp.Library.RingMemory

/-!
`ring_buf_read` and `ring_buf_write` as the operations of a ring memory. The
size divides `2 ^ 32`, so an offset may be a position that has wrapped.
-/

namespace Utcp.Buffers

open RingMemory
open Utcp.Tcp
open Utcp.Utils

variable {ringBuf : Nat → U8} {bufSize offset : U32} {len : Nat}

/-- The sizes the stack uses. -/
structure Divides (bufSize : U32) : Prop where
  pos : 0 < bufSize.toNat
  dvd : bufSize.toNat ∣ 2 ^ 32

theorem divides_sendBufSize : Divides sendBufSize := ⟨by decide, by decide⟩

theorem divides_recvBufSize : Divides recvBufSize := ⟨by decide, by decide⟩

theorem memread_length (mem : Nat → U8) (offset len : Nat) :
    (memread mem offset len).length = len := by
  simp [memread]

theorem ringBufRead_length (hlen : len ≤ bufSize.toNat) :
    (ringBufRead ringBuf bufSize offset len).length = len := by
  simp only [ringBufRead]
  split
  · exact memread_length ..
  · rw [List.length_append, memread_length, memread_length]
    omega

theorem memread_round {size physical : Nat} (hphysical : physical < size) (hlen : len ≤ size)
    (hwraps : ¬ physical + len ≤ size) :
    memread ringBuf physical (size - physical) ++ memread ringBuf 0 (len - (size - physical)) =
      (List.range len).map fun i => ringBuf ((physical + i) % size) := by
  apply List.ext_getElem
  · rw [List.length_append, memread_length, memread_length, List.length_map, List.length_range]
    omega
  · intro i hi hi'
    rw [List.length_map, List.length_range] at hi'
    rw [List.getElem_map, List.getElem_range]
    rcases Nat.lt_or_ge i (size - physical) with h | h
    · rw [List.getElem_append_left (by rw [memread_length]; exact h)]
      simp only [memread, List.getElem_map, List.getElem_range]
      rw [Nat.mod_eq_of_lt (by omega)]
    · rw [List.getElem_append_right (by rw [memread_length]; exact h)]
      simp only [memread, List.getElem_map, List.getElem_range, List.length_map,
        List.length_range]
      rw [Nat.mod_eq_sub_mod (by omega), Nat.mod_eq_of_lt (by omega)]
      congr 1
      omega

theorem ringBufRead_eq (hsize : 0 < bufSize.toNat) (hlen : len ≤ bufSize.toNat) :
    ringBufRead ringBuf bufSize offset len =
      (List.range len).map fun i => ringBuf ((offset.toNat + i) % bufSize.toNat) := by
  have hphysical : (offset % bufSize).toNat = offset.toNat % bufSize.toNat := BitVec.toNat_umod
  have hlt : offset.toNat % bufSize.toNat < bufSize.toNat := Nat.mod_lt _ hsize
  have hround : ∀ i, (offset.toNat + i) % bufSize.toNat =
      (offset.toNat % bufSize.toNat + i) % bufSize.toNat := by
    intro i
    rw [Nat.mod_add_mod]
  simp only [hround, ringBufRead, hphysical]
  generalize offset.toNat % bufSize.toNat = physical at hlt
  split
  · unfold memread
    apply List.map_congr_left
    intro i hi
    rw [List.mem_range] at hi
    rw [Nat.mod_eq_of_lt (by omega)]
  · rename_i hwraps
    exact memread_round hlt hlen hwraps

theorem memcpy_apply (mem : Nat → U8) (offset : Nat) (src : List U8) {i : Nat}
    (h : i < src.length) : memcpy mem offset src (offset + i) = src[i] := by
  unfold memcpy
  rw [if_pos (Nat.le_add_right _ _), Nat.add_sub_cancel_left, List.getD_eq_getElem?_getD,
    List.getElem?_eq_getElem h]
  rfl

theorem memcpy_of_outside (mem : Nat → U8) {offset i : Nat} (src : List U8)
    (h : i < offset ∨ offset + src.length ≤ i) : memcpy mem offset src i = mem i := by
  unfold memcpy
  split
  · rw [List.getD_eq_getElem?_getD, List.getElem?_eq_none (by omega)]
    rfl
  · rfl

theorem ringBufWrite_stores {src : List U8} {pos : Nat} (hsize : 0 < bufSize.toNat)
    (hpos : offset.toNat % bufSize.toNat = pos % bufSize.toNat)
    (hlen : src.length ≤ bufSize.toNat) :
    Stores ringBuf (ringBufWrite ringBuf bufSize offset src) bufSize.toNat pos src := by
  have hphysical : (offset % bufSize).toNat = pos % bufSize.toNat :=
    BitVec.toNat_umod.trans hpos
  have hlt : pos % bufSize.toNat < bufSize.toNat := Nat.mod_lt _ hsize
  have hround : ∀ i, (pos + i) % bufSize.toNat = (pos % bufSize.toNat + i) % bufSize.toNat := by
    intro i
    rw [Nat.mod_add_mod]
  constructor
  · intro i hi
    rw [hround]
    simp only [ringBufWrite, hphysical]
    generalize pos % bufSize.toNat = physical at hlt
    split
    · rw [Nat.mod_eq_of_lt (by omega)]
      exact memcpy_apply _ _ _ hi
    · rcases Nat.lt_or_ge i (bufSize.toNat - physical) with h | h
      · have htake : i < (src.take (bufSize.toNat - physical)).length := by
          rw [List.length_take]
          omega
        rw [Nat.mod_eq_of_lt (by omega), memcpy_of_outside _ _ (by rw [List.length_drop]; omega),
          memcpy_apply _ _ _ htake, List.getElem_take]
      · have hdrop : i - (bufSize.toNat - physical) <
            (src.drop (bufSize.toNat - physical)).length := by
          rw [List.length_drop]
          omega
        have hcell := memcpy_apply (memcpy ringBuf physical (src.take (bufSize.toNat - physical))) 0
          (src.drop (bufSize.toNat - physical)) hdrop
        rw [Nat.zero_add, List.getElem_drop] at hcell
        rw [Nat.mod_eq_sub_mod (by omega), Nat.mod_eq_of_lt (by omega),
          show physical + i - bufSize.toNat = i - (bufSize.toNat - physical) by omega, hcell]
        congr 1
        omega
  · intro q hq
    have hqlt : q % bufSize.toNat < bufSize.toNat := Nat.mod_lt _ hsize
    have hcell : ∀ i < src.length,
        q % bufSize.toNat ≠ (pos % bufSize.toNat + i) % bufSize.toNat := by
      intro i hi
      rw [← hround]
      exact hq i hi
    simp only [ringBufWrite, hphysical]
    generalize q % bufSize.toNat = cell at hqlt hcell
    generalize pos % bufSize.toNat = physical at hlt hcell
    split
    · apply memcpy_of_outside
      by_contra hin
      refine hcell (cell - physical) (by omega) ?_
      rw [Nat.mod_eq_of_lt (by omega)]
      omega
    · rw [memcpy_of_outside, memcpy_of_outside]
      · by_contra hin
        rw [List.length_take] at hin
        refine hcell (cell - physical) (by omega) ?_
        rw [Nat.mod_eq_of_lt (by omega)]
        omega
      · by_contra hin
        rw [List.length_drop] at hin
        refine hcell (cell + (bufSize.toNat - physical)) (by omega) ?_
        rw [show physical + (cell + (bufSize.toNat - physical)) = cell + bufSize.toNat by omega,
          Nat.add_mod_right, Nat.mod_eq_of_lt hqlt]

theorem Divides.ofNat_mod (h : Divides bufSize) (pos : Nat) :
    (BitVec.ofNat 32 pos).toNat % bufSize.toNat = pos % bufSize.toNat := by
  rw [BitVec.toNat_ofNat, Nat.mod_mod_of_dvd _ h.dvd]

theorem holds_ringBufWrite {start : Nat} {xs src : List U8} (hsize : Divides bufSize)
    (h : Holds ringBuf bufSize.toNat start xs) (hroom : xs.length + src.length ≤ bufSize.toNat) :
    Holds (ringBufWrite ringBuf bufSize (BitVec.ofNat 32 (start + xs.length)) src)
      bufSize.toNat start (xs ++ src) :=
  h.write (ringBufWrite_stores hsize.pos (hsize.ofNat_mod _) (by omega)) hroom

theorem ringBufRead_holds {start skip : Nat} {xs : List U8} (hsize : Divides bufSize)
    (h : Holds ringBuf bufSize.toNat start xs) (hlen : skip + len ≤ xs.length)
    (hround : len ≤ bufSize.toNat) :
    ringBufRead ringBuf bufSize (BitVec.ofNat 32 (start + skip)) len = (xs.drop skip).take len := by
  rw [ringBufRead_eq hsize.pos hround, ← h.read hlen]
  apply List.map_congr_left
  intro i _
  rw [← Nat.mod_add_mod, hsize.ofNat_mod, Nat.mod_add_mod]

end Utcp.Buffers
