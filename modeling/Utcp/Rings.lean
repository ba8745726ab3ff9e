import Utcp.Buffers
import Utcp.Library.SerialNumbers
import Utcp.Library.TransitionSystem

/-!
A ring buffer with its two counters is a queue of bytes, however often the
counters wrap.
-/

namespace Utcp.Rings

open RingMemory
open SerialNumbers
open TransitionSystems
open Utcp.Tcp
open Utcp.Utils
open Utcp.Buffers

variable {bufSize offset : U32} {len : Nat}

/-- The runs of cells, each a first cell and a count, that the calls of `memcpy`
in `ring_buf_read` and in `ring_buf_write` touch. -/
def ringCopies (bufSize offset : U32) (len : Nat) : List (Nat × Nat) :=
  if len = 0 then []
  else
    let physicalOffset := (offset % bufSize).toNat
    if physicalOffset + len ≤ bufSize.toNat then [(physicalOffset, len)]
    else
      let part1Len := bufSize.toNat - physicalOffset
      [(physicalOffset, part1Len), (0, len - part1Len)]

theorem ringBufRead_copies (ringBuf : Nat → U8) (bufSize offset : U32) (len : Nat) :
    ringBufRead ringBuf bufSize offset len =
      (ringCopies bufSize offset len).flatMap fun run => memread ringBuf run.1 run.2 := by
  rcases Nat.eq_zero_or_pos len with rfl | hpos
  · apply List.eq_nil_of_length_eq_zero
    rw [ringBufRead_length (Nat.zero_le _)]
  · simp only [ringBufRead, ringCopies]
    rw [if_neg (Nat.ne_of_gt hpos)]
    split
    · simp
    · simp

theorem ringBufWrite_copies (ringBuf : Nat → U8) (bufSize offset : U32) (src : List U8) {i : Nat}
    (houtside : ∀ run ∈ ringCopies bufSize offset src.length, i < run.1 ∨ run.1 + run.2 ≤ i) :
    ringBufWrite ringBuf bufSize offset src i = ringBuf i := by
  rcases List.eq_nil_or_concat src with rfl | ⟨front, last, hsrc⟩
  · simp only [ringBufWrite]
    split
    · exact memcpy_of_outside _ _ (by simp; omega)
    · rw [memcpy_of_outside _ _ (by simp), memcpy_of_outside _ _ (by simp; omega)]
  · have hpos : src.length ≠ 0 := by simp [hsrc]
    simp only [ringCopies] at houtside
    rw [if_neg hpos] at houtside
    simp only [ringBufWrite]
    split
    · rename_i hfits
      rw [if_pos hfits] at houtside
      exact memcpy_of_outside _ _ (houtside _ (List.mem_singleton.mpr rfl))
    · rename_i hwraps
      rw [if_neg hwraps] at houtside
      have hfirst := houtside _ List.mem_cons_self
      have hsecond := houtside _ (List.mem_cons_of_mem _ (List.mem_singleton.mpr rfl))
      rw [memcpy_of_outside, memcpy_of_outside]
      · rw [List.length_take]
        dsimp only at hfirst
        omega
      · rw [List.length_drop]
        exact hsecond

/-- `ring_buf_read` reads exactly the cells of `ringCopies`, and `ring_buf_write`
writes no others. -/
structure CopiesOnly (bufSize : U32) : Prop where
  read : ∀ (ringBuf : Nat → U8) (offset : U32) (len : Nat),
    ringBufRead ringBuf bufSize offset len =
      (ringCopies bufSize offset len).flatMap fun run => memread ringBuf run.1 run.2
  write : ∀ (ringBuf : Nat → U8) (offset : U32) (src : List U8) (i : Nat),
    (∀ run ∈ ringCopies bufSize offset src.length, i < run.1 ∨ run.1 + run.2 ≤ i) →
      ringBufWrite ringBuf bufSize offset src i = ringBuf i

theorem copiesOnly (bufSize : U32) : CopiesOnly bufSize :=
  ⟨fun ringBuf => ringBufRead_copies ringBuf bufSize,
    fun ringBuf offset src _ => ringBufWrite_copies ringBuf bufSize offset src⟩

theorem ringCopies_inside (hsize : 0 < bufSize.toNat) (hlen : len ≤ bufSize.toNat) :
    ∀ run ∈ ringCopies bufSize offset len, run.1 + run.2 ≤ bufSize.toNat := by
  have hphysical : (offset % bufSize).toNat = offset.toNat % bufSize.toNat := BitVec.toNat_umod
  have hlt : offset.toNat % bufSize.toNat < bufSize.toNat := Nat.mod_lt _ hsize
  intro run hrun
  simp only [ringCopies, hphysical] at hrun
  split at hrun
  · cases hrun
  · split at hrun
    · rename_i hfits
      rw [List.mem_singleton.mp hrun]
      exact hfits
    · rcases List.mem_pair.mp hrun with rfl | rfl
      · dsimp only
        omega
      · dsimp only
        omega

/-- What a call of `ring_buf_read` returned: `len` bytes from the position `pos`
of the stream on. -/
structure RingRead where
  pos : Nat
  len : Nat
  bytes : List U8

/-- A ring buffer and its counters. `stream` are all bytes ever written,
`released` counts those that `head` has passed, `readings` are the reads and
`copies` the runs of cells that were touched. -/
structure Queue where
  ringBuf : Nat → U8
  head : U32
  tail : U32
  stream : List U8
  released : Nat
  readings : List RingRead
  copies : List (Nat × Nat)

inductive Op
  | write (src : List U8)
  | read (offset : U32) (len : Nat)
  | release (n : Nat)

/-- An operation where its caller may do it. -/
def Queue.next (bufSize : U32) (q : Queue) : Op → Option Queue
  | .write src =>
      if src.length ≤ (bufSize - (q.tail - q.head)).toNat then
        some
          { q with
            ringBuf := ringBufWrite q.ringBuf bufSize q.tail src
            tail := q.tail + BitVec.ofNat 32 src.length
            stream := q.stream ++ src
            copies := q.copies ++ ringCopies bufSize q.tail src.length }
      else none
  | .read offset len =>
      if (offset - q.head).toNat + len ≤ (q.tail - q.head).toNat then
        some
          { q with
            readings := q.readings ++
              [⟨q.released + (offset - q.head).toNat, len,
                ringBufRead q.ringBuf bufSize offset len⟩]
            copies := q.copies ++ ringCopies bufSize offset len }
      else none
  | .release n =>
      if n ≤ (q.tail - q.head).toNat then
        some { q with head := q.head + BitVec.ofNat 32 n, released := q.released + n }
      else none

def queues (bufSize : U32) : TransitionSystem Queue Op where
  init q := ∃ ringBuf, q = ⟨ringBuf, 0, 0, [], 0, [], []⟩
  step q op q' := q.next bufSize op = some q'

/-- The counters are positions of the stream, and the ring holds what lies
between them. -/
structure Abstracts (bufSize : U32) (q : Queue) : Prop where
  tail : q.tail = BitVec.ofNat 32 q.stream.length
  head : q.head = BitVec.ofNat 32 q.released
  order : q.released ≤ q.stream.length
  room : q.stream.length - q.released ≤ bufSize.toNat
  holds : Holds q.ringBuf bufSize.toNat q.released (q.stream.drop q.released)

theorem Abstracts.used {q : Queue} (h : Abstracts bufSize q) :
    (q.tail - q.head).toNat = q.stream.length - q.released := by
  have hlt := bufSize.isLt
  have horder := h.order
  have hroom := h.room
  rw [h.tail, h.head]
  have hdistance := toNat_ofNat_sub_ofNat 0#32 horder (by omega)
  rwa [BitVec.zero_add, BitVec.zero_add] at hdistance

theorem Abstracts.free {q : Queue} (h : Abstracts bufSize q) :
    (bufSize - (q.tail - q.head)).toNat =
      bufSize.toNat - (q.stream.length - q.released) := by
  have hroom := h.room
  rw [toNat_sub_of_ge (by rw [h.used]; exact hroom), h.used]

theorem Abstracts.write {q q' : Queue} {src : List U8} (hsize : Divides bufSize)
    (h : Abstracts bufSize q) (hstep : q.next bufSize (.write src) = some q') :
    Abstracts bufSize q' ∧ src.length ≤ bufSize.toNat := by
  have horder := h.order
  have hroom := h.room
  simp only [Queue.next] at hstep
  split at hstep
  · rename_i hfits
    cases hstep
    rw [h.free] at hfits
    have hheld : (q.stream.drop q.released).length = q.stream.length - q.released :=
      List.length_drop
    have hgrown : (q.stream ++ src).length = q.stream.length + src.length := List.length_append
    have hwritten : Holds (ringBufWrite q.ringBuf bufSize
        (BitVec.ofNat 32 (q.released + (q.stream.drop q.released).length)) src)
        bufSize.toNat q.released (q.stream.drop q.released ++ src) :=
      holds_ringBufWrite hsize h.holds (by omega)
    have htail : q.tail = BitVec.ofNat 32 (q.released + (q.stream.drop q.released).length) := by
      rw [h.tail, hheld, Nat.add_sub_cancel' horder]
    have hdrop : (q.stream ++ src).drop q.released = q.stream.drop q.released ++ src :=
      List.drop_append_of_le_length horder
    rw [← htail, ← hdrop] at hwritten
    refine ⟨⟨?_, h.head, ?_, ?_, hwritten⟩, by omega⟩
    · rw [hgrown, BitVec.ofNat_add, ← h.tail]
    · dsimp only
      omega
    · dsimp only
      omega
  · cases hstep

theorem Abstracts.release {q q' : Queue} {n : Nat} (h : Abstracts bufSize q)
    (hstep : q.next bufSize (.release n) = some q') : Abstracts bufSize q' := by
  have horder := h.order
  have hroom := h.room
  simp only [Queue.next] at hstep
  split at hstep
  · rename_i hheld
    cases hstep
    rw [h.used] at hheld
    refine ⟨h.tail, ?_, ?_, ?_, ?_⟩
    · rw [BitVec.ofNat_add, ← h.head]
    · dsimp only
      omega
    · dsimp only
      omega
    · have hforgotten := h.holds.forget n
      rw [List.drop_drop] at hforgotten
      exact hforgotten
  · cases hstep

theorem Abstracts.read {q : Queue} (hsize : Divides bufSize) (h : Abstracts bufSize q)
    (hinside : (offset - q.head).toNat + len ≤ (q.tail - q.head).toNat) :
    len ≤ bufSize.toNat ∧
      q.released + (offset - q.head).toNat + len ≤ q.stream.length ∧
      ringBufRead q.ringBuf bufSize offset len =
        (q.stream.drop (q.released + (offset - q.head).toNat)).take len := by
  have horder := h.order
  have hroom := h.room
  rw [h.used] at hinside
  have hheld : (q.stream.drop q.released).length = q.stream.length - q.released :=
    List.length_drop
  have hoffset : offset = BitVec.ofNat 32 (q.released + (offset - q.head).toNat) := by
    rw [BitVec.ofNat_add, ← h.head, BitVec.ofNat_toNat, BitVec.setWidth_eq, BitVec.add_comm,
      BitVec.sub_add_cancel]
  have hread := ringBufRead_holds hsize h.holds
    (show (offset - q.head).toNat + len ≤ (q.stream.drop q.released).length by omega) (by omega)
  rw [← hoffset, List.drop_drop] at hread
  exact ⟨by omega, by omega, hread⟩

/-- What a read returned is what the stream holds there. -/
structure Faithful (stream : List U8) (r : RingRead) : Prop where
  inside : r.pos + r.len ≤ stream.length
  bytes : r.bytes = (stream.drop r.pos).take r.len

theorem Faithful.grow {stream : List U8} {r : RingRead} (h : Faithful stream r) (src : List U8) :
    Faithful (stream ++ src) r := by
  have hinside := h.inside
  refine ⟨?_, ?_⟩
  · rw [List.length_append]
    omega
  · rw [h.bytes, List.drop_append_of_le_length (by omega),
      List.take_append_of_le_length (by rw [List.length_drop]; omega)]

/-- Whatever was read is what was written there, and no copy left the ring. -/
structure Sound (bufSize : U32) (q : Queue) : Prop where
  readings : ∀ r ∈ q.readings, Faithful q.stream r
  copies : ∀ run ∈ q.copies, run.1 + run.2 ≤ bufSize.toNat

theorem queue_step {q q' : Queue} {op : Op} (hsize : Divides bufSize) (h : Abstracts bufSize q)
    (hsound : Sound bufSize q) (hstep : q.next bufSize op = some q') :
    Abstracts bufSize q' ∧ Sound bufSize q' := by
  cases op with
  | write src =>
      obtain ⟨habstracts, hlen⟩ := h.write hsize hstep
      refine ⟨habstracts, ?_⟩
      simp only [Queue.next] at hstep
      split at hstep
      · cases hstep
        refine ⟨fun r hr => (hsound.readings r hr).grow src, ?_⟩
        intro run hrun
        rcases List.mem_append.mp hrun with hrun | hrun
        · exact hsound.copies run hrun
        · exact ringCopies_inside hsize.pos hlen run hrun
      · cases hstep
  | read offset len =>
      simp only [Queue.next] at hstep
      split at hstep
      · rename_i hinside
        cases hstep
        obtain ⟨hlen, hpos, hbytes⟩ := h.read hsize hinside
        refine ⟨⟨h.tail, h.head, h.order, h.room, h.holds⟩, ?_, ?_⟩
        · intro r hr
          rcases List.mem_append.mp hr with hr | hr
          · exact hsound.readings r hr
          · rw [List.mem_singleton.mp hr]
            exact ⟨hpos, hbytes⟩
        · intro run hrun
          rcases List.mem_append.mp hrun with hrun | hrun
          · exact hsound.copies run hrun
          · exact ringCopies_inside hsize.pos hlen run hrun
      · cases hstep
  | release n =>
      refine ⟨h.release hstep, ?_⟩
      simp only [Queue.next] at hstep
      split at hstep
      · cases hstep
        exact ⟨hsound.readings, hsound.copies⟩
      · cases hstep

theorem divides_of_pow {k : Nat} (h : bufSize.toNat = 2 ^ k) : Divides bufSize := by
  have hlt := bufSize.isLt
  have hk : k < 32 := by
    rw [h] at hlt
    exact (Nat.pow_lt_pow_iff_right (by decide)).mp hlt
  refine ⟨?_, ?_⟩
  · rw [h]
    exact Nat.two_pow_pos k
  · rw [h]
    exact Nat.pow_dvd_pow 2 (by omega)

/-- The rings are queues: in every run each read returned the bytes written at
its positions of the stream, and no copy left the memory of the ring. -/
theorem rings_fifo {k : Nat} (hsize : bufSize.toNat = 2 ^ k) {q : Queue}
    (h : Reachable (queues bufSize) q) :
    (∀ r ∈ q.readings, Faithful q.stream r) ∧
      (∀ run ∈ q.copies, run.1 + run.2 ≤ bufSize.toNat) ∧ CopiesOnly bufSize := by
  have hdivides := divides_of_pow hsize
  have hinv : Abstracts bufSize q ∧ Sound bufSize q := by
    apply h.invariant
    · rintro q ⟨ringBuf, rfl⟩
      exact ⟨⟨rfl, rfl, Nat.le_refl 0, Nat.zero_le _, holds_nil⟩, by simp, by simp⟩
    · rintro q op q' - ⟨habstracts, hsound⟩ - hstep
      exact queue_step hdivides habstracts hsound hstep
  exact ⟨hinv.2.readings, hinv.2.copies, copiesOnly bufSize⟩

/-- Four cells: three bytes in, two out, three more in over the end, and all
four that are left are read. -/
theorem rings_fifo_wraps :
    ∃ q, runAll (Queue.next 4) ⟨fun _ => 0, 0, 0, [], 0, [], []⟩
        [.write [1, 2, 3], .release 2, .write [4, 5, 6], .read 2 4] = some q ∧
      q.readings.map RingRead.bytes = [[3, 4, 5, 6]] ∧
      q.copies = [(0, 3), (3, 1), (0, 2), (2, 2), (0, 2)] ∧
      (∀ r ∈ q.readings, Faithful q.stream r) ∧ (∀ run ∈ q.copies, run.1 + run.2 ≤ 4) ∧
      CopiesOnly 4 := by
  have hends : (runAll (Queue.next 4) ⟨fun _ => 0, 0, 0, [], 0, [], []⟩
      [.write [1, 2, 3], .release 2, .write [4, 5, 6], .read 2 4]).map (fun q =>
        (q.readings.map RingRead.bytes, q.copies)) =
      some ([[3, 4, 5, 6]], [(0, 3), (3, 1), (0, 2), (2, 2), (0, 2)]) := by
    decide +kernel
  obtain ⟨q, hrun, hends⟩ := Option.map_eq_some_iff.mp hends
  obtain ⟨hreadings, hcopies⟩ := Prod.mk.inj hends
  have hreach : Reachable (queues 4) q :=
    .runAll (fun _ _ _ hstep => ⟨trivial, hstep⟩) _ (.init ⟨fun _ => 0, rfl⟩) hrun
  exact ⟨q, hrun, hreadings, hcopies, rings_fifo (show (4 : U32).toNat = 2 ^ 2 from rfl) hreach⟩

end Utcp.Rings
