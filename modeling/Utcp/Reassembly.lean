import Utcp.Accounting
import Utcp.Library.Ranges

/-!
The reassembly queue as a queue of ranges: a sequence number is a position
behind a base, and the code's comparisons are those of positions.
-/

namespace Utcp.Reassembly

open SerialNumbers
open Ranges
open Utcp.Tcp
open Utcp.Utils
open Utcp.Output
open Utcp.Input
open Utcp.Api
open Utcp.Accounting

/-- Where a sequence number lies when `base` lies at `origin`. -/
def position (origin : ℕ) (base seq : U32) : ℕ := origin + (seq - base).toNat

def entryStart (origin : ℕ) (base : U32) (entry : TcpqEntry) : ℕ := position origin base entry.seq

def entryStop (origin : ℕ) (base : U32) (entry : TcpqEntry) : ℕ :=
  entryStart origin base entry + entry.len.toNat

/-- An entry from a position on. -/
def cutEntry (origin : ℕ) (base : U32) (c : ℕ) (entry : TcpqEntry) : TcpqEntry :=
  trimEntry entry (BitVec.ofNat 32 (c - entryStart origin base entry))

/-- The range of an entry ends less than half a round behind the base. -/
def Near (base : U32) (entry : TcpqEntry) : Prop :=
  (entry.seq - base).toNat + entry.len.toNat < 2 ^ 31

variable {origin : ℕ} {base seq endSeq : U32} {entry : TcpqEntry} {queue : List TcpqEntry}

theorem entryStart_le_entryStop (origin : ℕ) (base : U32) (entry : TcpqEntry) :
    entryStart origin base entry ≤ entryStop origin base entry :=
  Nat.le_add_right _ _

theorem seqLt_iff (base : U32) {a b : U32} (ha : (a - base).toNat < 2 ^ 31) (hb : (b - base).toNat < 2 ^ 31) :
    seqLt a b = true ↔ (a - base).toNat < (b - base).toNat := by
  rw [seqLt, decide_eq_true_iff]
  exact sub_neg_iff_of_base (by omega) (by omega)

theorem seqLeq_iff (base : U32) {a b : U32} (ha : (a - base).toNat < 2 ^ 31) (hb : (b - base).toNat < 2 ^ 31) :
    seqLeq a b = true ↔ (a - base).toNat ≤ (b - base).toNat := by
  have hpos : 0 < (a - b).toInt ↔ (b - base).toNat < (a - base).toNat :=
    sub_pos_iff_of_base (by omega) (by omega)
  rw [seqLeq, decide_eq_true_iff]
  omega

theorem Near.start_lt (h : Near base entry) : (entry.seq - base).toNat < 2 ^ 31 :=
  Nat.lt_of_le_of_lt (Nat.le_add_right _ _) h

theorem Near.toNat_entryEnd (h : Near base entry) :
    (entryEnd entry - base).toNat = (entry.seq - base).toNat + entry.len.toNat := by
  apply toNat_add_sub_base
  unfold Near at h
  omega

theorem Near.seqLeq_entryEnd (origin : ℕ) (h : Near base entry) (hseq : (seq - base).toNat < 2 ^ 31) :
    seqLeq (entryEnd entry) seq = true ↔
      entryStop origin base entry ≤ position origin base seq := by
  have hend := h.toNat_entryEnd
  rw [seqLeq_iff base (by rw [hend]; exact h) hseq, hend, entryStop, entryStart, position, position]
  omega

theorem Near.seqLt_seq (origin : ℕ) (h : Near base entry)
    (hseq : (seq - base).toNat < 2 ^ 31) :
    seqLt entry.seq seq = true ↔ entryStart origin base entry < position origin base seq := by
  rw [seqLt_iff base h.start_lt hseq, entryStart, position, position]
  omega

theorem cutEntry_eq (h : entryStart origin base entry ≤ position origin base seq) :
    cutEntry origin base (position origin base seq) entry = trimEntry entry (seq - entry.seq) := by
  unfold entryStart position at h
  have hsub : (seq - entry.seq).toNat = (seq - base).toNat - (entry.seq - base).toNat :=
    toNat_sub_of_base (by omega)
  have heq : BitVec.ofNat 32 (position origin base seq - entryStart origin base entry) =
      seq - entry.seq := by
    apply BitVec.eq_of_toNat_eq
    have hlt := (seq - entry.seq).isLt
    rw [BitVec.toNat_ofNat, entryStart, position, position, Nat.add_sub_add_left, ← hsub,
      Nat.mod_eq_of_lt hlt]
  rw [cutEntry, heq]

theorem cuts (origin : ℕ) (hnear : ∀ entry ∈ queue, Near base entry) :
    Cuts (entryStart origin base) (entryStop origin base) (cutEntry origin base) queue := by
  have hcut : ∀ c, ∀ entry ∈ queue,
      Straddles (entryStart origin base) (entryStop origin base) c entry →
        entryStart origin base (cutEntry origin base c entry) = c ∧
          (cutEntry origin base c entry).len.toNat = entryStop origin base entry - c := by
    rintro c entry hmem ⟨hstart, hstop⟩
    have hentry := hnear entry hmem
    unfold Near at hentry
    unfold entryStop at hstop ⊢
    unfold entryStart position at hstart hstop ⊢
    have hlen := entry.len.isLt
    let cut : U32 := BitVec.ofNat 32 (c - (origin + (entry.seq - base).toNat))
    have hnat : cut.toNat = c - (origin + (entry.seq - base).toNat) := by
      rw [BitVec.toNat_ofNat, Nat.mod_eq_of_lt (by omega)]
    constructor
    · change origin + (entry.seq + cut - base).toNat = c
      rw [toNat_add_sub_base (by omega), hnat]
      omega
    · change (entry.len - cut).toNat = _
      rw [toNat_sub_of_ge (by omega), hnat]
      omega
  constructor
  · intro c entry hmem hstraddles
    exact (hcut c entry hmem hstraddles).1
  · intro c entry hmem hstraddles
    obtain ⟨hstart, hlen⟩ := hcut c entry hmem hstraddles
    have hstop := hstraddles.2
    rw [entryStop, hstart, hlen]
    omega

theorem absorbEntries_eq (hend : (endSeq - base).toNat < 2 ^ 31) :
    ∀ oooBytes : U32, (∀ entry ∈ queue, Near base entry) →
      (absorbEntries endSeq queue oooBytes).1 =
        absorb (entryStart origin base) (entryStop origin base) (cutEntry origin base)
          (position origin base endSeq) queue := by
  induction queue with
  | nil => exact fun _ _ => rfl
  | cons first rest ih =>
      intro oooBytes hnear
      have hfirst := hnear first List.mem_cons_self
      have hrest : ∀ entry ∈ rest, Near base entry :=
        fun entry hmem => hnear entry (List.mem_cons_of_mem _ hmem)
      have hstart := hfirst.seqLt_seq origin hend
      have hstop := hfirst.seqLeq_entryEnd origin hend
      unfold absorbEntries absorb
      by_cases hlt : seqLt first.seq endSeq = true
      · rw [if_pos hlt, if_pos (hstart.mp hlt)]
        by_cases hle : seqLeq (entryEnd first) endSeq = true
        · rw [if_pos hle, if_pos (hstop.mp hle)]
          exact ih _ hrest
        · rw [if_neg hle, if_neg (fun h => hle (hstop.mpr h))]
          rw [cutEntry_eq (Nat.le_of_lt (hstart.mp hlt))]
      · rw [if_neg hlt, if_neg (fun h => hlt (hstart.mpr h))]

theorem takeWhile_seqLeq (origin : ℕ) (hnear : ∀ entry ∈ queue, Near base entry)
    {new : TcpqEntry} (hnew : Near base new) :
    (queue.takeWhile fun entry => seqLeq (entryEnd entry) new.seq) =
        before (entryStart origin base) (entryStop origin base) new queue ∧
      (queue.dropWhile fun entry => seqLeq (entryEnd entry) new.seq) =
        behind (entryStart origin base) (entryStop origin base) new queue := by
  have hcond : ∀ entry ∈ queue, seqLeq (entryEnd entry) new.seq =
      decide (entryStop origin base entry ≤ entryStart origin base new) := by
    intro entry hmem
    rw [Bool.eq_iff_iff, decide_eq_true_iff]
    exact (hnear entry hmem).seqLeq_entryEnd origin hnew.start_lt
  unfold before behind
  induction queue with
  | nil => exact ⟨rfl, rfl⟩
  | cons first rest ih =>
      obtain ⟨htake, hdrop⟩ := ih (fun entry hmem => hnear entry (List.mem_cons_of_mem _ hmem))
        (fun entry hmem => hcond entry (List.mem_cons_of_mem _ hmem))
      rw [List.takeWhile_cons, List.takeWhile_cons, List.dropWhile_cons, List.dropWhile_cons,
        hcond first List.mem_cons_self, htake, hdrop]
      exact ⟨rfl, rfl⟩

/-- The entry `insert_ooo_segment` makes of a segment. -/
def newEntry (seq : U32) (data : List U8) : TcpqEntry := ⟨seq, BitVec.ofNat 32 data.length, data⟩

theorem insertOooSegment_oooHead (origin : ℕ) {env : Env} {tcb : Tcb} {data : List U8}
    (halloc : env.queueAlloc = true)
    (hroom : ¬ BitVec.ofNat 32 data.length > recvBufSize - bufUsed tcb - tcb.oooBytes)
    (hnear : ∀ entry ∈ tcb.oooHead, Near base entry) (hnew : Near base (newEntry seq data)) :
    (insertOooSegment env tcb seq data).tcb.oooHead =
      Ranges.insert (entryStart origin base) (entryStop origin base) (cutEntry origin base)
        (newEntry seq data) tcb.oooHead := by
  obtain ⟨htake, hdrop⟩ := takeWhile_seqLeq origin hnear hnew
  have hbehind : ∀ entry ∈ behind (entryStart origin base) (entryStop origin base)
      (newEntry seq data) tcb.oooHead, Near base entry :=
    fun entry hmem => hnear entry ((List.dropWhile_sublist _).subset hmem)
  have hend : (entryEnd (newEntry seq data) - base).toNat < 2 ^ 31 := by
    rw [hnew.toNat_entryEnd]
    exact hnew
  have hposition : position origin base (entryEnd (newEntry seq data)) =
      entryStop origin base (newEntry seq data) := by
    rw [position, hnew.toNat_entryEnd, entryStop, entryStart, position, Nat.add_assoc]
  have htrim := Sections.trimStart_takeWhile tcb.oooHead (newEntry seq data)
  unfold newEntry at htrim htake hdrop
  unfold insertOooSegment
  simp only [List.span_eq_takeWhile_dropWhile]
  rw [if_neg hroom, htrim]
  simp only [halloc, Bool.not_true, Bool.false_eq_true, if_false]
  rw [htake, hdrop, Ranges.insert, ← hposition, ← absorbEntries_eq hend tcb.oooBytes hbehind]
  rfl

/-- The sequence numbers of the bytes in a queue. -/
def covered (queue : List TcpqEntry) : Set U32 :=
  {x | ∃ entry ∈ queue, (x - entry.seq).toNat < entry.len.toNat}

/-- Sorted and disjoint, as seen from `base`. -/
def Sorted (base : U32) (queue : List TcpqEntry) : Prop :=
  Ascending (entryStart 0 base) (entryStop 0 base) queue

instance (base : U32) (queue : List TcpqEntry) : Decidable (Sorted base queue) :=
  inferInstanceAs (Decidable (List.Pairwise _ _))

instance (base : U32) (entry : TcpqEntry) : Decidable (Near base entry) :=
  inferInstanceAs (Decidable (_ < _))

theorem Near.mem_iff (h : Near base entry) (x : U32) :
    (x - entry.seq).toNat < entry.len.toNat ↔
      entryStart 0 base entry ≤ (x - base).toNat ∧ (x - base).toNat < entryStop 0 base entry := by
  unfold Near at h
  unfold entryStop entryStart position
  rw [Nat.zero_add]
  constructor
  · intro hx
    have hsum : (entry.seq + (x - entry.seq) - base).toNat =
        (entry.seq - base).toNat + (x - entry.seq).toNat := toNat_add_sub_base (by omega)
    rw [BitVec.add_comm, BitVec.sub_add_cancel] at hsum
    omega
  · rintro ⟨hstart, hstop⟩
    rw [toNat_sub_of_base hstart]
    omega

theorem mem_covered (hnear : ∀ entry ∈ queue, Near base entry) (x : U32) :
    x ∈ covered queue ↔ (x - base).toNat ∈ Covered (entryStart 0 base) (entryStop 0 base) queue := by
  constructor
  · rintro ⟨entry, hmem, hx⟩
    exact ⟨entry, hmem, ((hnear entry hmem).mem_iff x).mp hx⟩
  · rintro ⟨entry, hmem, hx⟩
    exact ⟨entry, hmem, ((hnear entry hmem).mem_iff x).mpr hx⟩

theorem near_cutEntry (h : Near base entry) {c : ℕ}
    (hstraddles : Straddles (entryStart origin base) (entryStop origin base) c entry) :
    Near base (cutEntry origin base c entry) := by
  have hmem : entry ∈ [entry] := List.mem_cons_self
  have hnear : ∀ e ∈ [entry], Near base e := by
    intro e he
    rwa [List.mem_singleton.mp he]
  have hstart := (cuts origin hnear).start_cut c entry hmem hstraddles
  have hstop := (cuts origin hnear).stop_cut c entry hmem hstraddles
  unfold Near at h ⊢
  unfold entryStop at hstop
  unfold entryStart position at hstart hstop
  omega

theorem near_insert (origin : ℕ) {new : TcpqEntry}
    (hnear : ∀ entry ∈ queue, Near base entry)
    (hnew : Near base new) :
    ∀ entry ∈ Ranges.insert (entryStart origin base) (entryStop origin base)
      (cutEntry origin base) new queue, Near base entry := by
  intro entry hmem
  rcases mem_insert hmem with hold | rfl | ⟨old, hold, hstraddles, rfl⟩
  · exact hnear entry hold
  · exact hnew
  · exact near_cutEntry (hnear old hold) hstraddles

theorem lt_of_covered (hnear : ∀ entry ∈ queue, Near base entry) {n : ℕ}
    (h : n ∈ Covered (entryStart 0 base) (entryStop 0 base) queue) : n < 2 ^ 32 := by
  obtain ⟨entry, hmem, -, hstop⟩ := h
  have hentry := hnear entry hmem
  unfold Near at hentry
  unfold entryStop entryStart position at hstop
  omega

theorem exists_word (base : U32) {n : ℕ} (hn : n < 2 ^ 32) : ∃ x : U32, (x - base).toNat = n := by
  refine ⟨BitVec.ofNat 32 n + base, ?_⟩
  rw [BitVec.add_sub_cancel, BitVec.toNat_ofNat, Nat.mod_eq_of_lt hn]

/-- `insert_ooo_segment` covers what was covered and the new segment, exactly
when no queued entry begins before the segment and ends behind its start: the
front of such an entry is thrown away. -/
theorem insertOooSegment_covers_iff {env : Env} {tcb : Tcb} {seq : U32} {data : List U8}
    (halloc : env.queueAlloc = true)
    (hroom : ¬ BitVec.ofNat 32 data.length > recvBufSize - bufUsed tcb - tcb.oooBytes)
    (hsorted : Sorted tcb.rcvNxt tcb.oooHead)
    (hnear : ∀ entry ∈ tcb.oooHead, Near tcb.rcvNxt entry)
    (hnew : (seq - tcb.rcvNxt).toNat + data.length < 2 ^ 31) :
    covered (insertOooSegment env tcb seq data).tcb.oooHead =
        covered tcb.oooHead ∪ {x | (x - seq).toNat < data.length} ↔
      ∀ entry ∈ tcb.oooHead, ¬ (seqLt entry.seq seq ∧ seqGt (entryEnd entry) seq) := by
  have hlen : (newEntry seq data).len.toNat = data.length := by
    change (BitVec.ofNat 32 data.length).toNat = data.length
    rw [BitVec.toNat_ofNat, Nat.mod_eq_of_lt (by omega)]
  have hnewNear : Near tcb.rcvNxt (newEntry seq data) := by
    unfold Near
    rw [hlen]
    exact hnew
  have hseq : (seq - tcb.rcvNxt).toNat < 2 ^ 31 := hnewNear.start_lt
  have hqueue := insertOooSegment_oooHead 0 halloc hroom hnear hnewNear
  have hstraddles : ∀ entry ∈ tcb.oooHead,
      (seqLt entry.seq seq = true ∧ seqGt (entryEnd entry) seq = true ↔
        Straddles (entryStart 0 tcb.rcvNxt) (entryStop 0 tcb.rcvNxt)
          (entryStart 0 tcb.rcvNxt (newEntry seq data)) entry) := by
    intro entry hmem
    have hstart := (hnear entry hmem).seqLt_seq 0 hseq
    have hstop := (hnear entry hmem).seqLeq_entryEnd 0 hseq
    rw [Sections.seqGt_eq_not, Bool.not_eq_true', ← Bool.not_eq_true, hstart, hstop, Nat.not_le]
    rfl
  have hrange : ∀ x : U32, (x - seq).toNat < data.length ↔
      entryStart 0 tcb.rcvNxt (newEntry seq data) ≤ (x - tcb.rcvNxt).toNat ∧
        (x - tcb.rcvNxt).toNat < entryStop 0 tcb.rcvNxt (newEntry seq data) := by
    intro x
    rw [← hlen]
    exact hnewNear.mem_iff x
  have hcuts : Cuts (entryStart 0 tcb.rcvNxt) (entryStop 0 tcb.rcvNxt) (cutEntry 0 tcb.rcvNxt)
      tcb.oooHead := cuts 0 hnear
  have hiff := covered_insert_iff hcuts (fun entry _ => entryStart_le_entryStop 0 tcb.rcvNxt entry)
    hsorted (entryStart_le_entryStop 0 tcb.rcvNxt (newEntry seq data))
  constructor
  · intro heq entry hmem hcross
    refine hiff.mp ?_ entry hmem ((hstraddles entry hmem).mp hcross)
    intro n
    by_cases hn : n < 2 ^ 32
    · obtain ⟨x, rfl⟩ := exists_word tcb.rcvNxt hn
      rw [← mem_covered (near_insert 0 hnear hnewNear), ← mem_covered hnear, ← hrange, ← hqueue, heq]
      rfl
    · constructor
      · intro hin
        exact absurd (lt_of_covered (near_insert 0 hnear hnewNear) hin) hn
      · rintro (hin | ⟨-, hin⟩)
        · exact absurd (lt_of_covered hnear hin) hn
        · have hlt := hnewNear
          unfold Near at hlt
          unfold entryStop entryStart position at hin
          omega
  · intro hnone
    have hall := hiff.mpr fun entry hmem hcross =>
      hnone entry hmem ((hstraddles entry hmem).mpr hcross)
    ext x
    rw [hqueue, mem_covered (near_insert 0 hnear hnewNear), hall, ← mem_covered hnear, ← hrange]
    rfl

/-- A socket that waits for byte 1 and holds five bytes from 10 on. -/
def waiting : Tcb :=
  { utcpSocket with
    state := .established
    rcvNxt := 1
    oooHead := [⟨10, 5, [1, 2, 3, 4, 5]⟩]
    oooBytes := 5 }

/-- A segment that covers all of the entry and more. -/
theorem insertOooSegment_covers_larger :
    covered (insertOooSegment (.still 0) waiting 8 [9, 9, 1, 2, 3, 4, 5, 9]).tcb.oooHead =
      covered waiting.oooHead ∪ {x | (x - 8).toNat < 8} :=
  (insertOooSegment_covers_iff rfl (by decide +kernel) (by decide +kernel) (by decide +kernel)
    (by decide +kernel)).mpr (by decide +kernel)

/-- A segment that begins inside the entry: the bytes 10 and 11 are gone. -/
theorem insertOooSegment_discards :
    ¬ ∀ (env : Env) (tcb : Tcb) (seq : U32) (data : List U8),
      env.queueAlloc = true →
      ¬ BitVec.ofNat 32 data.length > recvBufSize - bufUsed tcb - tcb.oooBytes →
      Sorted tcb.rcvNxt tcb.oooHead →
      (∀ entry ∈ tcb.oooHead, Near tcb.rcvNxt entry) →
      (seq - tcb.rcvNxt).toNat + data.length < 2 ^ 31 →
        covered (insertOooSegment env tcb seq data).tcb.oooHead =
          covered tcb.oooHead ∪ {x | (x - seq).toNat < data.length} := by
  intro h
  have heq := h (.still 0) waiting 12 [3, 4, 5, 6] rfl (by decide +kernel) (by decide +kernel)
    (by decide +kernel) (by decide +kernel)
  have hin : (10 : U32) ∈ covered waiting.oooHead :=
    ⟨⟨10, 5, [1, 2, 3, 4, 5]⟩, List.mem_cons_self, by decide⟩
  have hout : ∀ entry ∈ (insertOooSegment (.still 0) waiting 12 [3, 4, 5, 6]).tcb.oooHead,
      ¬ ((10 : U32) - entry.seq).toNat < entry.len.toNat := by
    decide +kernel
  have hafter : (10 : U32) ∈ covered
      (insertOooSegment (.still 0) waiting 12 [3, 4, 5, 6]).tcb.oooHead := by
    rw [heq]
    exact .inl hin
  obtain ⟨entry, hmem, hlt⟩ := hafter
  exact hout entry hmem hlt

end Utcp.Reassembly
