import Utcp.Buffers
import Utcp.Reassembly
import Utcp.Library.Slices

/-!
The receiver puts the stream together: `P pos x` says that `x` is the byte of
the stream at `pos`, and `edge` is the position of `rcv_nxt`.
-/

namespace Utcp.Receiver

open SerialNumbers
open Ranges
open RingMemory
open Slices
open Traces
open TransitionSystems
open Utcp.Tcp
open Utcp.Utils
open Utcp.Output
open Utcp.CongestionControl
open Utcp.Input
open Utcp.Api
open Utcp.Steps
open Utcp.Sections
open Utcp.Frames
open Utcp.Accounting
open Utcp.Buffers
open Utcp.Reassembly

variable {P : ℕ → U8 → Prop} {edge origin : ℕ} {base : U32} {tcb tcb' : Tcb} {bytes data : List U8}
  {queue : List TcpqEntry} {entry : TcpqEntry}

/-- The ring holds `bytes`, the last of the stream before `edge`. -/
structure Buffered (P : ℕ → U8 → Prop) (edge : ℕ) (tcb : Tcb) (bytes : List U8) : Prop where
  tail : tcb.recvBufTail = BitVec.ofNat 32 edge
  rcvNxt : tcb.rcvNxt = tcb.irs + 1 + tcb.recvBufTail
  used : (bufUsed tcb).toNat = bytes.length
  size : bytes.length ≤ recvBufSize.toNat
  le : bytes.length ≤ edge
  holds : Holds tcb.recvBuf recvBufSize.toNat (edge - bytes.length) bytes
  fits : Fits P (edge - bytes.length) bytes

/-- The entries of a queue hold bytes of the stream, where `base` lies at `origin`. -/
structure Queued (P : ℕ → U8 → Prop) (origin : ℕ) (base : U32) (queue : List TcpqEntry) :
    Prop where
  near : ∀ entry ∈ queue, Near base entry
  fits : ∀ entry ∈ queue, Fits P (entryStart origin base entry) entry.data
  full : ∀ entry ∈ queue, 0 < entry.len.toNat ∧ entry.data.length = entry.len.toNat
  sorted : Ascending (entryStart origin base) (entryStop origin base) queue

theorem Buffered.same (h : Buffered P edge tcb bytes) (hsame : SameReceive tcb tcb') :
    Buffered P edge tcb' bytes := by
  refine ⟨?_, ?_, ?_, h.size, h.le, ?_, h.fits⟩
  · rw [hsame.recvBufTail]
    exact h.tail
  · rw [hsame.rcvNxt, hsame.irs, hsame.recvBufTail]
    exact h.rcvNxt
  · rw [hsame.bufUsed]
    exact h.used
  · rw [hsame.recvBuf]
    exact h.holds

theorem Buffered.accept (h : Buffered P edge tcb bytes) (hfits : Fits P edge data)
    (hroom : bytes.length + data.length ≤ recvBufSize.toNat) :
    Buffered P (edge + data.length) (acceptBytes tcb data) (bytes ++ data) := by
  have hle := h.le
  have hsize := recvBufSize_toNat
  have hstart : edge + data.length - (bytes ++ data).length = edge - bytes.length := by
    rw [List.length_append]
    omega
  have htail : tcb.recvBufTail = BitVec.ofNat 32 (edge - bytes.length + bytes.length) := by
    rw [Nat.sub_add_cancel hle]
    exact h.tail
  constructor
  · change tcb.recvBufTail + BitVec.ofNat 32 data.length = _
    rw [h.tail, BitVec.ofNat_add]
  · change tcb.rcvNxt + BitVec.ofNat 32 data.length =
      tcb.irs + 1 + (tcb.recvBufTail + BitVec.ofNat 32 data.length)
    rw [h.rcvNxt, BitVec.add_assoc]
  · rw [bufUsed_acceptBytes, toNat_add_of_lt, h.used, List.length_append, toNat_ofNat_length]
    · omega
    · rw [h.used, toNat_ofNat_length (by omega)]
      omega
  · rw [List.length_append]
    exact hroom
  · rw [List.length_append]
    omega
  · rw [hstart]
    change Holds (ringBufWrite tcb.recvBuf recvBufSize tcb.recvBufTail data) _ _ _
    rw [htail]
    exact holds_ringBufWrite divides_recvBufSize h.holds hroom
  · rw [hstart]
    refine h.fits.append ?_
    rw [Nat.sub_add_cancel hle]
    exact hfits

theorem Buffered.requeue (h : Buffered P edge tcb bytes) (queue : List TcpqEntry) (oooBytes : U32) :
    Buffered P edge { tcb with oooHead := queue, oooBytes } bytes :=
  ⟨h.tail, h.rcvNxt, h.used, h.size, h.le, h.holds, h.fits⟩

theorem Queued.tail (h : Queued P origin base (entry :: queue)) : Queued P origin base queue :=
  ⟨fun e hmem => h.near e (List.mem_cons_of_mem _ hmem),
    fun e hmem => h.fits e (List.mem_cons_of_mem _ hmem),
    fun e hmem => h.full e (List.mem_cons_of_mem _ hmem), h.sorted.tail⟩

theorem Queued.behind (h : Queued P origin base (entry :: queue)) :
    ∀ e ∈ queue, entryStop origin base entry ≤ entryStart origin base e :=
  fun _ hmem => List.rel_of_pairwise_cons h.sorted hmem

theorem entryStart_lt_entryStop (h : Queued P origin base queue) (hmem : entry ∈ queue) :
    entryStart origin base entry < entryStop origin base entry := by
  have hpos := (h.full entry hmem).1
  unfold entryStop
  omega

theorem cutEntry_full (hnear : Near base entry) {c : ℕ}
    (hfull : entry.data.length = entry.len.toNat) (hfits : Fits P (entryStart origin base entry) entry.data)
    (hstraddles : Straddles (entryStart origin base) (entryStop origin base) c entry) :
    let cut := cutEntry origin base c entry
    entryStart origin base cut = c ∧ entryStop origin base cut = entryStop origin base entry ∧
      (0 < cut.len.toNat ∧ cut.data.length = cut.len.toNat) ∧ Fits P c cut.data ∧
        cut.len.toNat ≤ entry.len.toNat := by
  intro cut
  have hnears : ∀ e ∈ [entry], Near base e := by
    intro e he
    rwa [List.mem_singleton.mp he]
  have hstart : entryStart origin base cut = c :=
    (cuts origin hnears).start_cut c entry List.mem_cons_self hstraddles
  have hstop : entryStop origin base cut = entryStop origin base entry :=
    (cuts origin hnears).stop_cut c entry List.mem_cons_self hstraddles
  have hlen : cut.len.toNat = entryStop origin base entry - c := by
    rw [← hstop, entryStop, hstart]
    omega
  obtain ⟨hbefore, hbehind⟩ := hstraddles
  unfold Near at hnear
  unfold entryStop at hlen hbehind
  have hskip : (BitVec.ofNat 32 (c - entryStart origin base entry)).toNat =
      c - entryStart origin base entry := by
    rw [BitVec.toNat_ofNat, Nat.mod_eq_of_lt]
    omega
  have hdata : cut.data = entry.data.drop (c - entryStart origin base entry) := by
    change entry.data.drop (BitVec.ofNat 32 (c - entryStart origin base entry)).toNat = _
    rw [hskip]
  refine ⟨hstart, hstop, ⟨by omega, ?_⟩, ?_, by omega⟩
  · rw [hdata, List.length_drop, hfull]
    omega
  · have hdrop := hfits.drop (c - entryStart origin base entry)
    rw [Nat.add_sub_cancel' (Nat.le_of_lt hbefore)] at hdrop
    rw [hdata]
    exact hdrop

theorem Queued.cut (h : Queued P origin base (entry :: queue)) {c : ℕ}
    (hstraddles : Straddles (entryStart origin base) (entryStop origin base) c entry) :
    Queued P origin base (cutEntry origin base c entry :: queue) := by
  have hfull := h.full entry List.mem_cons_self
  have hnear := h.near entry List.mem_cons_self
  obtain ⟨hstart, hstop, hfull', hfits', -⟩ :=
    cutEntry_full hnear hfull.2 (h.fits entry List.mem_cons_self) hstraddles
  refine ⟨?_, ?_, ?_, ?_⟩
  · rintro e hmem
    rcases List.mem_cons.mp hmem with rfl | hmem
    · exact near_cutEntry hnear hstraddles
    · exact h.near e (List.mem_cons_of_mem _ hmem)
  · rintro e hmem
    rcases List.mem_cons.mp hmem with rfl | hmem
    · rw [hstart]
      exact hfits'
    · exact h.fits e (List.mem_cons_of_mem _ hmem)
  · rintro e hmem
    rcases List.mem_cons.mp hmem with rfl | hmem
    · exact hfull'
    · exact h.full e (List.mem_cons_of_mem _ hmem)
  · refine List.Pairwise.cons ?_ h.sorted.tail
    intro e hmem
    rw [hstop]
    exact h.behind e hmem

/-- The sequence number is the one at `pos`, not far behind the base. -/
def Lies (origin : ℕ) (base seq : U32) (pos : ℕ) : Prop :=
  position origin base seq = pos ∧ pos < origin + 2 ^ 31

theorem Lies.lt {seq : U32} (h : Lies origin base seq edge) : (seq - base).toNat < 2 ^ 31 := by
  obtain ⟨hposition, hlt⟩ := h
  unfold position at hposition
  omega

theorem Lies.inj {seq seq' : U32} (h : Lies origin base seq edge) (h' : position origin base seq' = edge) :
    seq' = seq := by
  have hposition := h.1
  unfold position at hposition h'
  have heq : seq' - base = seq - base := BitVec.eq_of_toNat_eq (by omega)
  rw [← BitVec.sub_add_cancel seq' base, heq, BitVec.sub_add_cancel]

theorem trimReceived_queued (h : Queued P origin base (entry :: queue)) {rcvNxt : U32}
    (hedge : Lies origin base rcvNxt edge) (hend : ¬ seqLeq (entryEnd entry) rcvNxt = true) :
    Queued P origin base (trimReceived rcvNxt entry :: queue) ∧
      edge ≤ entryStart origin base (trimReceived rcvNxt entry) ∧
        (trimReceived rcvNxt entry).len.toNat ≤ entry.len.toNat := by
  have hnear := h.near entry List.mem_cons_self
  have hstart := hnear.seqLt_seq origin hedge.lt
  have hstop := hnear.seqLeq_entryEnd origin hedge.lt
  rw [hedge.1] at hstart hstop
  rw [hstop] at hend
  unfold trimReceived
  split
  · rename_i hlt
    have hbefore := hstart.mp hlt
    have hstraddles : Straddles (entryStart origin base) (entryStop origin base) edge entry :=
      ⟨hbefore, Nat.lt_of_not_le hend⟩
    have hcut : cutEntry origin base edge entry = trimEntry entry (rcvNxt - entry.seq) := by
      rw [← hedge.1] at hbefore ⊢
      exact cutEntry_eq (Nat.le_of_lt hbefore)
    obtain ⟨hstart', -, -, -, hlen⟩ := cutEntry_full hnear
      (h.full entry List.mem_cons_self).2 (h.fits entry List.mem_cons_self) hstraddles
    rw [← hcut]
    exact ⟨h.cut hstraddles, Nat.le_of_eq hstart'.symm, hlen⟩
  · rename_i hlt
    rw [hstart] at hlt
    exact ⟨h, Nat.le_of_not_lt hlt, Nat.le_refl _⟩

/-- What `drain_ooo_queue` leaves when it started with `bytes` up to `edge`. -/
def Drained (P : ℕ → U8 → Prop) (origin : ℕ) (base : U32) (edge : ℕ) (bytes : List U8) (tcb : Tcb) :
    Prop :=
  ∃ more, Buffered P (edge + more.length) tcb (bytes ++ more) ∧
    Lies origin base tcb.rcvNxt (edge + more.length) ∧ Queued P origin base tcb.oooHead ∧
      ∀ entry ∈ tcb.oooHead, edge + more.length < entryStart origin base entry

theorem drained_stop (h : Buffered P edge tcb bytes) (hqueue : Queued P origin base tcb.oooHead)
    (hedge : Lies origin base tcb.rcvNxt edge)
    (hbeyond : ∀ entry ∈ tcb.oooHead, edge < entryStart origin base entry) :
    Drained P origin base edge bytes tcb := by
  refine ⟨[], ?_, hedge, hqueue, hbeyond⟩
  rw [List.append_nil]
  exact h

theorem Drained.more (h : Drained P origin base (edge + data.length) (bytes ++ data) tcb) :
    Drained P origin base edge bytes tcb := by
  obtain ⟨more, hbuffered, hedge, hqueue, hbeyond⟩ := h
  have hlen : edge + (data ++ more).length = edge + data.length + more.length := by
    rw [List.length_append, Nat.add_assoc]
  refine ⟨data ++ more, ?_, ?_, hqueue, ?_⟩
  · rw [hlen, ← List.append_assoc]
    exact hbuffered
  · rw [hlen]
    exact hedge
  · rw [hlen]
    exact hbeyond

theorem Lies.accept {rcvNxt : U32} (hedge : Lies origin base rcvNxt edge) (hnear : Near base entry)
    (hseq : entry.seq = rcvNxt) (hfull : entry.data.length = entry.len.toNat) :
    Lies origin base (rcvNxt + BitVec.ofNat 32 entry.data.length) (edge + entry.data.length) := by
  have hposition := hedge.1
  unfold Near at hnear
  unfold position at hposition
  have hlen : (BitVec.ofNat 32 entry.data.length).toNat = entry.data.length := by
    rw [BitVec.toNat_ofNat, Nat.mod_eq_of_lt (by omega)]
  rw [hseq] at hnear
  have hsum : (rcvNxt + BitVec.ofNat 32 entry.data.length - base).toNat =
      (rcvNxt - base).toNat + entry.data.length := by
    rw [toNat_add_sub_base (by omega), hlen]
  refine ⟨?_, by omega⟩
  rw [position, hsum]
  omega

theorem drainOooQueue_drained (queue : List TcpqEntry) :
    ∀ (tcb : Tcb) (edge : ℕ) (bytes : List U8), Buffered P edge tcb bytes →
      Queued P origin base queue → Lies origin base tcb.rcvNxt edge →
      bytes.length + queued queue ≤ recvBufSize.toNat →
        Drained P origin base edge bytes (drainOooQueue tcb queue).tcb := by
  induction queue with
  | nil =>
      intro tcb edge bytes hbuffered hqueue hedge hroom
      exact drained_stop (hbuffered.requeue [] tcb.oooBytes) hqueue hedge
        fun _ hmem => absurd hmem List.not_mem_nil
  | cons entry rest ih =>
      intro tcb edge bytes hbuffered hqueue hedge hroom
      rw [queued_cons] at hroom
      simp only [drainOooQueue]
      by_cases hend : seqLeq (entryEnd entry) tcb.rcvNxt = true
      · rw [if_pos hend]
        exact ih { tcb with oooBytes := tcb.oooBytes - entry.len } edge bytes
          (hbuffered.requeue tcb.oooHead _) hqueue.tail hedge (by omega)
      · rw [if_neg hend]
        obtain ⟨hqueue', hstart, hlen⟩ := trimReceived_queued hqueue hedge hend
        have hbehind := hqueue'.behind
        have hnonempty := entryStart_lt_entryStop hqueue' List.mem_cons_self
        obtain ⟨hpos, hfull⟩ := hqueue'.full _ List.mem_cons_self
        have hnear := hqueue'.near _ List.mem_cons_self
        have hfits := hqueue'.fits _ List.mem_cons_self
        generalize trimReceived tcb.rcvNxt entry = first at *
        by_cases hseq : first.seq = tcb.rcvNxt
        · have hat : entryStart origin base first = edge := by
            rw [entryStart, hseq]
            exact hedge.1
          have hused : (recvBufSize - (tcb.recvBufTail - tcb.recvBufHead)).toNat =
              recvBufSize.toNat - bytes.length := by
            have hle := hbuffered.size
            change (recvBufSize - bufUsed tcb).toNat = _
            rw [toNat_sub_of_ge (by rw [hbuffered.used]; exact hle), hbuffered.used]
          have hfits' : ¬ first.len > recvBufSize - (tcb.recvBufTail - tcb.recvBufHead) := by
            intro hgt
            have hlt : (recvBufSize - (tcb.recvBufTail - tcb.recvBufHead)).toNat <
              first.len.toNat := hgt
            omega
          rw [if_neg (not_not.mpr hseq), if_neg hfits']
          rw [hat] at hfits
          have haccept := hbuffered.accept hfits (by omega)
          refine (ih _ (edge + first.data.length) (bytes ++ first.data)
            (haccept.requeue (acceptBytes tcb first.data).oooHead _) hqueue'.tail ?_ ?_).more
          · exact hedge.accept hnear hseq hfull
          · rw [List.length_append]
            omega
        · rw [if_pos hseq]
          refine drained_stop (hbuffered.requeue (first :: rest) _) hqueue' hedge ?_
          have hne : entryStart origin base first ≠ edge := fun heq => hseq (hedge.inj heq)
          rintro e hmem
          rcases List.mem_cons.mp hmem with rfl | hmem
          · omega
          · have hnext := hbehind e hmem
            omega

/-- The receiver has put the stream together up to `edge`, the last `bytes` of
it not read yet; its queue is sorted and lies beyond. -/
structure Assembled (P : ℕ → U8 → Prop) (edge : ℕ) (tcb : Tcb) (bytes : List U8) : Prop where
  buffered : Buffered P edge tcb bytes
  queue : Queued P edge tcb.rcvNxt tcb.oooHead
  beyond : ∀ entry ∈ tcb.oooHead, edge < entryStart edge tcb.rcvNxt entry
  accounts : Accounts tcb

theorem Assembled.same (h : Assembled P edge tcb bytes) (hsame : SameReceive tcb tcb') :
    Assembled P edge tcb' bytes := by
  refine ⟨h.buffered.same hsame, ?_, ?_, h.accounts.same hsame⟩
  · rw [hsame.rcvNxt, hsame.oooHead]
    exact h.queue
  · rw [hsame.rcvNxt, hsame.oooHead]
    exact h.beyond

theorem Lies.rebase {rcvNxt : U32} (hedge : Lies origin base rcvNxt edge)
    (hstart : edge ≤ entryStart origin base entry) :
    entryStart edge rcvNxt entry = entryStart origin base entry := by
  have hposition := hedge.1
  unfold entryStart position at hstart ⊢
  unfold position at hposition
  have hsub : (entry.seq - rcvNxt).toNat = (entry.seq - base).toNat - (rcvNxt - base).toNat :=
    toNat_sub_of_base (by omega)
  omega

theorem Drained.assembled (h : Drained P origin base edge bytes tcb) (haccounts : Accounts tcb) :
    ∃ more, Assembled P (edge + more.length) tcb (bytes ++ more) := by
  obtain ⟨more, hbuffered, hedge, hqueue, hbeyond⟩ := h
  have hstart : ∀ entry ∈ tcb.oooHead,
      entryStart (edge + more.length) tcb.rcvNxt entry = entryStart origin base entry :=
    fun entry hmem => hedge.rebase (Nat.le_of_lt (hbeyond entry hmem))
  refine ⟨more, hbuffered, ⟨?_, ?_, hqueue.full, ?_⟩, ?_, haccounts⟩
  · intro entry hmem
    have hnear := hqueue.near entry hmem
    have heq := hstart entry hmem
    have hposition := hedge.1
    unfold Near at hnear ⊢
    unfold entryStart position at heq
    unfold position at hposition
    omega
  · intro entry hmem
    rw [hstart entry hmem]
    exact hqueue.fits entry hmem
  · refine List.Pairwise.imp_of_mem ?_ hqueue.sorted
    intro e e' hmem hmem' hle
    unfold entryStop at hle ⊢
    rw [hstart e hmem, hstart e' hmem']
    exact hle
  · intro entry hmem
    rw [hstart entry hmem]
    exact hbeyond entry hmem

theorem drainOooQueue_accounts (h : Accounts { tcb with oooHead := queue }) :
    Accounts (drainOooQueue tcb queue).tcb := by
  have htrace : Trace (ReceiveStep fun _ => False) _ _ _ := drainOooQueue_trace queue tcb
  refine htrace.invariant (fun _ _ _ hstep ha => ?_) h
  exact (receiveStep_accounts (fun _ hfalse => hfalse.elim) hstep ha).1

theorem acceptInOrder_assembled (h : Assembled P edge tcb bytes) (hfits : Fits P edge data)
    (hroom : data.length ≤ (recvBufSize - bufUsed tcb - tcb.oooBytes).toNat) :
    ∃ more, Assembled P (edge + more.length) (acceptInOrder tcb data).tcb (bytes ++ more) := by
  have hsize := recvBufSize_toNat
  have hused := h.buffered.used
  have hsum := h.accounts.sum
  have htotal := h.accounts.room
  rw [h.accounts.free] at hroom
  have haccept := h.buffered.accept hfits (by omega)
  have hlen : (BitVec.ofNat 32 data.length).toNat = data.length := toNat_ofNat_length (by omega)
  have hedge : Lies edge tcb.rcvNxt (acceptBytes tcb data).rcvNxt (edge + data.length) := by
    have hcancel : tcb.rcvNxt + BitVec.ofNat 32 data.length - tcb.rcvNxt =
        BitVec.ofNat 32 data.length := by
      rw [BitVec.add_comm, BitVec.add_sub_cancel]
    refine ⟨?_, by omega⟩
    change edge + (tcb.rcvNxt + BitVec.ofNat 32 data.length - tcb.rcvNxt).toNat = _
    rw [hcancel, hlen]
  have hqueue : Queued P edge tcb.rcvNxt (acceptBytes tcb data).oooHead := h.queue
  have hcount : queued (acceptBytes tcb data).oooHead = tcb.oooBytes.toNat := hsum.symm
  have hdrained := drainOooQueue_drained (acceptBytes tcb data).oooHead (acceptBytes tcb data)
    (edge + data.length) (bytes ++ data) haccept hqueue hedge (by
      rw [List.length_append, hcount]
      omega)
  have haccounts : Accounts (acceptBytes tcb data) := h.accounts.accept (by omega)
  obtain ⟨more, hassembled⟩ := hdrained.more.assembled (drainOooQueue_accounts haccounts)
  exact ⟨more, hassembled.same (outputTrace_sameReceive (scheduleAck_trace ..))⟩

theorem insertOooSegment_eq (env : Env) (tcb : Tcb) (seq : U32) (data : List U8) :
    ∃ oooHead oooBytes,
      (insertOooSegment env tcb seq data).tcb = { tcb with oooHead, oooBytes } := by
  simp only [insertOooSegment]
  split
  · exact ⟨tcb.oooHead, tcb.oooBytes, rfl⟩
  · split
    · exact ⟨tcb.oooHead, tcb.oooBytes, rfl⟩
    · split
      · exact ⟨tcb.oooHead, tcb.oooBytes, rfl⟩
      · exact ⟨_, _, rfl⟩

theorem insertOooSegment_cases (env : Env) (tcb : Tcb) (seq : U32) (data : List U8) :
    (insertOooSegment env tcb seq data).tcb = tcb ∨
      env.queueAlloc = true ∧
        ¬ BitVec.ofNat 32 data.length > recvBufSize - bufUsed tcb - tcb.oooBytes := by
  by_cases hroom : BitVec.ofNat 32 data.length > recvBufSize - bufUsed tcb - tcb.oooBytes
  · refine .inl ?_
    rw [insertOooSegment, if_pos hroom]
  · by_cases halloc : env.queueAlloc = true
    · exact .inr ⟨halloc, hroom⟩
    · refine .inl ?_
      rw [Bool.not_eq_true] at halloc
      simp only [insertOooSegment]
      rw [if_neg hroom]
      split
      · rfl
      · simp only [halloc, Bool.not_false, if_true]

theorem insertOooSegment_assembled (env : Env) {seg : TcpSegment} {seq : U32} {pos : ℕ}
    (h : Assembled P edge tcb bytes) (hseg : (payload seg).length < 2 ^ 32)
    (hdata : Carries seg seq data) (hpos : position edge tcb.rcvNxt seq = pos)
    (hbeyond : edge < pos) (hend : pos + data.length < edge + 2 ^ 31) (hfits : Fits P pos data) :
    Assembled P edge (insertOooSegment env tcb seq data).tcb bytes := by
  have haccounts : Accounts (insertOooSegment env tcb seq data).tcb := by
    have htrace : Trace (ReceiveStep fun seg => (payload seg).length < 2 ^ 32) tcb _ _ :=
      insertOooSegment_trace env hseg hdata
    refine htrace.invariant (I := Accounts) (fun _ _ _ hstep ha => ?_) h.accounts
    exact (receiveStep_accounts (fun _ hlt => hlt) hstep ha).1
  rcases insertOooSegment_cases env tcb seq data with hsame | ⟨halloc, hroom⟩
  · rw [hsame]
    exact h
  · have hlen : (newEntry seq data).len.toNat = data.length := by
      change (BitVec.ofNat 32 data.length).toNat = data.length
      rw [BitVec.toNat_ofNat, Nat.mod_eq_of_lt (by omega)]
    have hnew : Near tcb.rcvNxt (newEntry seq data) := by
      unfold position at hpos
      unfold Near
      rw [hlen]
      change (seq - tcb.rcvNxt).toNat + data.length < 2 ^ 31
      omega
    have hqueue := insertOooSegment_oooHead edge halloc hroom h.queue.near hnew
    have hcuts : Cuts (entryStart edge tcb.rcvNxt) (entryStop edge tcb.rcvNxt)
        (cutEntry edge tcb.rcvNxt) tcb.oooHead := cuts edge h.queue.near
    have hle := fun entry (_ : entry ∈ tcb.oooHead) =>
      entryStart_le_entryStop edge tcb.rcvNxt entry
    have hsorted := h.queue.sorted.insert hcuts hle
      (entryStart_le_entryStop edge tcb.rcvNxt (newEntry seq data))
    have hnear := near_insert edge h.queue.near hnew
    have hstart : entryStart edge tcb.rcvNxt (newEntry seq data) = pos := hpos
    have hpieces : ∀ entry ∈ Ranges.insert (entryStart edge tcb.rcvNxt)
        (entryStop edge tcb.rcvNxt) (cutEntry edge tcb.rcvNxt) (newEntry seq data) tcb.oooHead,
        (0 < entry.len.toNat ∧ entry.data.length = entry.len.toNat) ∧
          Fits P (entryStart edge tcb.rcvNxt entry) entry.data ∧
            edge < entryStart edge tcb.rcvNxt entry := by
      intro entry hmem
      rcases mem_insert hmem with hold | rfl | ⟨old, hold, hstraddles, rfl⟩
      · exact ⟨h.queue.full entry hold, h.queue.fits entry hold, h.beyond entry hold⟩
      · have hdata' := hdata.length_pos
        refine ⟨⟨by omega, hlen.symm⟩, ?_, ?_⟩
        · rw [hstart]
          exact hfits
        · rw [hstart]
          exact hbeyond
      · obtain ⟨hcut, -, hfull, hfits', -⟩ := cutEntry_full (h.queue.near old hold)
          (h.queue.full old hold).2 (h.queue.fits old hold) hstraddles
        rw [hcut]
        refine ⟨hfull, hfits', ?_⟩
        unfold entryStop
        omega
    obtain ⟨oooHead, oooBytes, heq⟩ := insertOooSegment_eq env tcb seq data
    rw [heq] at hqueue haccounts ⊢
    obtain rfl : oooHead = _ := hqueue
    refine ⟨h.buffered.requeue _ _, ⟨hnear, ?_, ?_, hsorted⟩, ?_, haccounts⟩
    · exact fun entry hmem => (hpieces entry hmem).2.1
    · exact fun entry hmem => (hpieces entry hmem).1
    · exact fun entry hmem => (hpieces entry hmem).2.2

/-- The payload of a segment is a part of the stream at its sequence number,
less than half a round away from the edge. -/
def InStream (P : ℕ → U8 → Prop) (irs : U32) (edge : ℕ) (seg : TcpSegment) : Prop :=
  payload seg = [] ∨
    ∃ pos, seg.hdr.thSeq = irs + 1 + BitVec.ofNat 32 pos ∧ Fits P pos (payload seg) ∧
      pos < edge + 2 ^ 31 ∧ edge < pos + 2 ^ 31 ∧ pos + (payload seg).length < edge + 2 ^ 31

/-- A later state of the receiver. -/
def Grown (P : ℕ → U8 → Prop) (edge : ℕ) (bytes : List U8) (tcb : Tcb) : Prop :=
  ∃ more, Assembled P (edge + more.length) tcb (bytes ++ more)

theorem Assembled.grown (h : Assembled P edge tcb bytes) : Grown P edge bytes tcb := by
  refine ⟨[], ?_⟩
  rw [List.append_nil]
  exact h

theorem Grown.same (h : Grown P edge bytes tcb) (hsame : SameReceive tcb tcb') :
    Grown P edge bytes tcb' := by
  obtain ⟨more, hassembled⟩ := h
  exact ⟨more, hassembled.same hsame⟩

theorem Grown.leaves (h : Grown P edge bytes tcb) (log : List Event) :
    Grown P edge bytes (Out.mk tcb log).tcb := h

theorem placeData_grown (env : Env) {seg : TcpSegment} {seqNum : U32} {pos : ℕ}
    (h : Assembled P edge tcb bytes) (hseg : (payload seg).length < 2 ^ 32)
    (hdata : Carries seg seqNum data) (hpos : position edge tcb.rcvNxt seqNum = pos)
    (hend : pos + data.length < edge + 2 ^ 31) (hfits : Fits P pos data) :
    Grown P edge bytes (placeData env tcb seqNum data).tcb := by
  by_cases hseq : seqNum = tcb.rcvNxt
  · subst hseq
    have hat : pos = edge := by
      rw [← hpos, position, toNat_sub_self, Nat.add_zero]
    rw [hat] at hfits
    by_cases hroom : data.length ≤ (recvBufSize - bufUsed tcb - tcb.oooBytes).toNat
    · rw [placeData_fits env hroom]
      have hgrown : Grown P edge bytes (acceptInOrder tcb data).tcb :=
        acceptInOrder_assembled h hfits hroom
      exact (hgrown.same (outputTrace_sameReceive (utcpOutput_trace ..))).leaves _
    · rw [placeData_full env hroom]
      exact h.grown.leaves _
  · have hbeyond : edge < pos := by
      have hne : (seqNum - tcb.rcvNxt).toNat ≠ 0 :=
        fun hzero => hseq (eq_of_toNat_sub_eq_zero hzero)
      unfold position at hpos
      omega
    rw [placeData_other env data hseq]
    have hinserted := insertOooSegment_assembled env h hseg hdata hpos hbeyond hend hfits
    exact (hinserted.grown.same (outputTrace_sameReceive (acknowOutput_trace ..))).leaves _

theorem handleData_grown (env : Env) {seg : TcpSegment} (h : Assembled P edge tcb bytes)
    (hseg : InStream P tcb.irs edge seg) : Grown P edge bytes (handleData env tcb seg).tcb := by
  have hrcvNxt : tcb.rcvNxt = tcb.irs + 1 + BitVec.ofNat 32 edge := by
    rw [h.buffered.rcvNxt, h.buffered.tail]
  simp only [handleData]
  by_cases hne : payload seg = []
  · rw [if_pos hne]
    exact h.grown.same (outputTrace_sameReceive (utcpOutput_trace ..))
  · rw [if_neg hne]
    obtain ⟨pos, hseq, hfits, hlow, hhigh, hend⟩ := hseg.resolve_left hne
    have hshort : (payload seg).length < 2 ^ 32 := by omega
    rcases Nat.lt_or_ge pos edge with hbefore | hafter
    · -- the segment begins with bytes that are here already
      have hdup : (tcb.rcvNxt - seg.hdr.thSeq).toNat = edge - pos := by
        rw [hrcvNxt, hseq]
        exact toNat_ofNat_sub_ofNat _ (by omega) (by omega)
      have hlt : seqLt seg.hdr.thSeq tcb.rcvNxt = true := by
        have hzero := toNat_sub_self seg.hdr.thSeq
        exact (seqLt_iff seg.hdr.thSeq (by omega) (by omega)).mpr (by omega)
      rw [if_pos hlt]
      by_cases hall : (tcb.rcvNxt - seg.hdr.thSeq).toNat ≥ (payload seg).length
      · rw [if_pos hall]
        exact h.grown.same (outputTrace_sameReceive (acknowOutput_trace ..))
      · rw [if_neg hall]
        have hsum : seg.hdr.thSeq + (tcb.rcvNxt - seg.hdr.thSeq) = tcb.rcvNxt := by
          rw [BitVec.add_comm, BitVec.sub_add_cancel]
        have hdrop := hfits.drop (edge - pos)
        rw [Nat.add_sub_cancel' (by omega)] at hdrop
        have hcarries : Carries seg (seg.hdr.thSeq + (tcb.rcvNxt - seg.hdr.thSeq))
            ((payload seg).drop (tcb.rcvNxt - seg.hdr.thSeq).toNat) :=
          ⟨tcb.rcvNxt - seg.hdr.thSeq, Nat.lt_of_not_le hall, rfl, rfl⟩
        have hat : position edge tcb.rcvNxt (seg.hdr.thSeq + (tcb.rcvNxt - seg.hdr.thSeq)) =
            edge := by
          rw [position, hsum, toNat_sub_self, Nat.add_zero]
        refine placeData_grown env h hshort hcarries hat ?_ ?_
        · rw [List.length_drop]
          omega
        · rw [hdup]
          exact hdrop
    · have hdist : (seg.hdr.thSeq - tcb.rcvNxt).toNat = pos - edge := by
        rw [hrcvNxt, hseq]
        exact toNat_ofNat_sub_ofNat _ hafter (by omega)
      have hlt : ¬ seqLt seg.hdr.thSeq tcb.rcvNxt = true := by
        have hzero := toNat_sub_self tcb.rcvNxt
        intro hlt
        have hless := (seqLt_iff tcb.rcvNxt (by omega) (by omega)).mp hlt
        omega
      rw [if_neg hlt]
      have hcarries : Carries seg seg.hdr.thSeq (payload seg) :=
        ⟨0, List.length_pos_of_ne_nil hne, (BitVec.add_zero _).symm, rfl⟩
      have hat : position edge tcb.rcvNxt seg.hdr.thSeq = pos := by
        rw [position, hdist]
        omega
      exact placeData_grown env h hshort hcarries hat hend hfits

theorem processWindowOption_sameReceive (env : Env) (seg : TcpSegment) (tcb : Tcb) :
    SameReceive tcb (processWindowOption env seg tcb) := by
  have hstep : AckStep (fun _ => True) tcb [] (processWindowOption env seg tcb) :=
    .options tcb env seg trivial
  exact ackStep_sameReceive hstep

theorem handleReceivedData_grown {env : Env} {seg : TcpSegment} {out : Out}
    (h : Assembled P edge tcb bytes) (hseg : InStream P tcb.irs edge seg)
    (hout : handleReceivedData env tcb seg = some out) : Grown P edge bytes out.tcb := by
  obtain ⟨acked, hacked, hout⟩ := Option.bind_eq_some_iff.mp hout
  cases hout
  have htrace : Trace (ControlStep fun _ => True) (processWindowOption env seg tcb) acked.log
      acked.tcb := handleAck_trace trivial hacked
  have hsame : SameReceive tcb acked.tcb :=
    (processWindowOption_sameReceive env seg tcb).trans (controlTrace_sameReceive htrace)
  refine handleData_grown env (h.same hsame) ?_
  rw [hsame.irs]
  exact hseg

/-- A block that has received nothing. -/
structure Untouched (tcb : Tcb) : Prop where
  recvBufHead : tcb.recvBufHead = 0
  recvBufTail : tcb.recvBufTail = 0
  oooHead : tcb.oooHead = []
  oooBytes : tcb.oooBytes = 0

theorem Untouched.same (h : Untouched tcb) (hsame : SameReceive tcb tcb') : Untouched tcb' :=
  ⟨hsame.recvBufHead.trans h.recvBufHead, hsame.recvBufTail.trans h.recvBufTail,
    hsame.oooHead.trans h.oooHead, hsame.oooBytes.trans h.oooBytes⟩

/-- The handshake fixes where the stream starts. -/
theorem Untouched.assembled (h : Untouched tcb) (hrcvNxt : tcb.rcvNxt = tcb.irs + 1) :
    Assembled P 0 tcb [] := by
  have hused : (bufUsed tcb).toNat = 0 := by
    rw [bufUsed, h.recvBufTail, h.recvBufHead]
    rfl
  refine ⟨⟨h.recvBufTail, ?_, hused, Nat.zero_le _, Nat.le_refl _, holds_nil, fits_nil _⟩, ?_, ?_, ?_⟩
  · rw [hrcvNxt, h.recvBufTail]
    exact (BitVec.add_zero _).symm
  · rw [h.oooHead]
    refine ⟨?_, ?_, ?_, List.Pairwise.nil⟩
    all_goals simp
  · rw [h.oooHead]
    simp
  · refine ⟨?_, ?_, ?_, ?_⟩
    · rw [h.oooBytes, h.oooHead]
      rfl
    · rw [h.oooHead]
      simp
    · rw [h.oooHead]
      simp
    · rw [hused, h.oooBytes]
      decide

theorem untouched_acceptSyn (env : Env) (seg : TcpSegment) (peer : Peer) (h : Untouched tcb) :
    Untouched (acceptSyn env tcb seg peer) ∧
      (acceptSyn env tcb seg peer).rcvNxt = (acceptSyn env tcb seg peer).irs + 1 := by
  have ht := h.same (processWindowOption_sameReceive env seg tcb)
  rw [acceptSyn]
  exact ⟨⟨ht.recvBufHead, ht.recvBufTail, ht.oooHead, ht.oooBytes⟩, rfl⟩

theorem untouched_acceptSynAck (env : Env) (seg : TcpSegment) (h : Untouched tcb) :
    Untouched (acceptSynAck env tcb seg) ∧
      (acceptSynAck env tcb seg).rcvNxt = (acceptSynAck env tcb seg).irs + 1 := by
  let opened : Tcb :=
    { tcb with
      sndUna := seg.hdr.thAck
      irs := seg.hdr.thSeq
      rcvNxt := seg.hdr.thSeq + 1
      state := .established }
  have hopened : Untouched opened := ⟨h.recvBufHead, h.recvBufTail, h.oooHead, h.oooBytes⟩
  have hsame := processWindowOption_sameReceive env seg opened
  have ht := hopened.same hsame
  rw [acceptSynAck]
  refine ⟨⟨ht.recvBufHead, ht.recvBufTail, ht.oooHead, ht.oooBytes⟩, ?_⟩
  exact hsame.rcvNxt.trans (congrArg (· + 1) hsame.irs.symm)

theorem utcpInput_grown {env : Env} {seg : TcpSegment} {peer : Peer} {out : Out}
    (h : Assembled P edge tcb bytes) (hstate : Receiving tcb) (hseg : InStream P tcb.irs edge seg)
    (hout : utcpInput env tcb seg peer = some out) : Grown P edge bytes out.tcb := by
  rcases hstate with hstate | hstate
  · simp only [utcpInput, hstate] at hout
    obtain ⟨cc, hcc, hout⟩ := Option.bind_eq_some_iff.mp hout
    obtain ⟨rest, hrest, hout⟩ := Option.bind_eq_some_iff.mp hout
    cases hout
    have hsame : SameReceive tcb cc.tcb := by
      unfold synRecvInput at hcc
      split at hcc
      · have hfinal : SameReceive tcb (acceptFinalAck tcb seg) :=
          ⟨rfl, rfl, rfl, rfl, rfl, rfl, rfl⟩
        have htrace : Trace (ControlStep fun _ => True) (acceptFinalAck tcb seg) cc.log cc.tcb :=
          congControl_trace (by simp) hcc
        exact hfinal.trans (controlTrace_sameReceive htrace)
      · cases hcc
        exact .refl tcb
    refine (handleReceivedData_grown (h.same hsame) ?_ hrest).leaves _
    rw [hsame.irs]
    exact hseg
  · simp only [utcpInput, hstate] at hout
    exact handleReceivedData_grown h hseg hout

theorem utcpInput_opened {env : Env} {seg : TcpSegment} {peer : Peer} {out : Out}
    (h : Untouched tcb) (hstate : ¬ Receiving tcb) (hout : utcpInput env tcb seg peer = some out) :
    (¬ Receiving out.tcb ∧ Untouched out.tcb) ∨ Receiving out.tcb ∧ Assembled P 0 out.tcb [] := by
  have hnothing : ∀ out', some (Out.mk tcb []) = some out' →
      (¬ Receiving out'.tcb ∧ Untouched out'.tcb) ∨
        Receiving out'.tcb ∧ Assembled P 0 out'.tcb [] := by
    rintro out' ⟨⟩
    exact .inl ⟨hstate, h⟩
  unfold utcpInput at hout
  split at hout
  · split at hout
    · cases hout
      obtain ⟨huntouched, hrcvNxt⟩ := untouched_acceptSyn env seg peer h
      refine .inr ⟨.inl (utcpOutput_state ..), ?_⟩
      exact (huntouched.assembled hrcvNxt).same (outputTrace_sameReceive (utcpOutput_trace ..))
    · exact hnothing out hout
  · split at hout
    · obtain ⟨cc, hcc, hout⟩ := Option.bind_eq_some_iff.mp hout
      cases hout
      obtain ⟨huntouched, hrcvNxt⟩ := untouched_acceptSynAck env seg h
      have hcontrol : Trace (ControlStep fun _ => True) (acceptSynAck env tcb seg) cc.log cc.tcb :=
        congControl_trace (by simp) hcc
      have hacknow : Trace (ControlStep fun _ => True) cc.tcb _ _ :=
        outputControl (acknowOutput_trace env.output cc.tcb)
      have htrace := hcontrol.append hacknow
      have hestablished : (acceptSynAck env tcb seg).state = .established := by
        simp [acceptSynAck]
      have hstate' := htrace.invariant
        (I := fun t => t.state = .established)
        (fun _ _ _ hstep hs => (controlStep_state hstep).trans hs) hestablished
      exact .inr ⟨.inr hstate',
        (huntouched.assembled hrcvNxt).same (controlTrace_sameReceive htrace)⟩
    · exact hnothing out hout
  · rename_i hsynRecv
    exact absurd (.inl hsynRecv) hstate
  · rename_i hestablished
    exact absurd (.inr hestablished) hstate
  · exact hnothing out hout

/-- What an endpoint has received. -/
structure Receives (P : ℕ → U8 → Prop) (e : Endpoint) : Prop where
  closed : ¬ Receiving e.tcb → Untouched e.tcb ∧ e.delivered = []
  opened : Receiving e.tcb →
    ∃ bytes, Assembled P (e.delivered.length + bytes.length) e.tcb bytes ∧ Fits P 0 e.delivered

/-- How much of the stream an endpoint has put together. -/
def edgeOf (e : Endpoint) : ℕ := e.delivered.length + (bufUsed e.tcb).toNat

theorem Receives.same {e e' : Endpoint} (h : Receives P e) (hsame : SameReceive e.tcb e'.tcb)
    (hstate : e'.tcb.state = e.tcb.state ∨ ¬ Receiving e.tcb ∧ ¬ Receiving e'.tcb)
    (hdelivered : e'.delivered = e.delivered) : Receives P e' := by
  have hreceiving : Receiving e'.tcb ↔ Receiving e.tcb := by
    rcases hstate with hstate | ⟨hnot, hnot'⟩
    · rw [Receiving, Receiving, hstate]
    · exact iff_of_false hnot' hnot
  constructor
  · intro hnot
    obtain ⟨huntouched, hempty⟩ := h.closed (mt hreceiving.mpr hnot)
    exact ⟨huntouched.same hsame, hdelivered.trans hempty⟩
  · intro hin
    obtain ⟨bytes, hassembled, hfits⟩ := h.opened (hreceiving.mp hin)
    rw [hdelivered]
    exact ⟨bytes, hassembled.same hsame, hfits⟩

theorem Grown.receives {e' : Endpoint} {delivered : List U8} (hdelivered : e'.delivered = delivered)
    (h : Grown P (delivered.length + bytes.length) bytes e'.tcb) (hfits : Fits P 0 delivered)
    (hstate : Receiving e'.tcb) : Receives P e' := by
  obtain ⟨more, hassembled⟩ := h
  refine ⟨fun hnot => absurd hstate hnot, fun _ => ⟨bytes ++ more, ?_, ?_⟩⟩
  · rw [hdelivered, List.length_append, ← Nat.add_assoc]
    exact hassembled
  · rw [hdelivered]
    exact hfits

theorem Assembled.take (h : Assembled P edge tcb bytes) {n : ℕ} (hn : n ≤ (bufUsed tcb).toNat) :
    ringBufRead tcb.recvBuf recvBufSize tcb.recvBufHead n = bytes.take n ∧
      Assembled P edge (takeBytes tcb n) (bytes.drop n) := by
  have hsize := recvBufSize_toNat
  have hle := h.buffered.le
  have hcap := h.buffered.size
  have hused := h.buffered.used
  have hhead : tcb.recvBufHead = BitVec.ofNat 32 (edge - bytes.length) := by
    have hsub : tcb.recvBufTail - bufUsed tcb = tcb.recvBufHead := by
      rw [bufUsed]
      bv_omega
    have hlen : bufUsed tcb = BitVec.ofNat 32 bytes.length := by
      rw [← hused, BitVec.ofNat_toNat, BitVec.setWidth_eq]
    rw [← hsub, hlen, h.buffered.tail, ← Nat.sub_add_cancel hle, BitVec.ofNat_add,
      BitVec.add_sub_cancel, Nat.sub_add_cancel hle]
  constructor
  · have hread : ringBufRead tcb.recvBuf recvBufSize (BitVec.ofNat 32 (edge - bytes.length + 0)) n =
        (bytes.drop 0).take n :=
      ringBufRead_holds divides_recvBufSize h.buffered.holds (by omega) (by omega)
    rw [Nat.add_zero, ← hhead] at hread
    exact hread
  · have hstart : edge - (bytes.drop n).length = edge - bytes.length + n := by
      rw [List.length_drop]
      omega
    have hqueue : (takeBytes tcb n).oooHead = tcb.oooHead := by rw [takeBytes]
    have hrcvNxt : (takeBytes tcb n).rcvNxt = tcb.rcvNxt := by rw [takeBytes]
    refine ⟨⟨?_, ?_, ?_, ?_, ?_, ?_, ?_⟩, ?_, ?_, h.accounts.take hn⟩
    · rw [takeBytes]
      exact h.buffered.tail
    · rw [takeBytes]
      exact h.buffered.rcvNxt
    · rw [bufUsed_takeBytes hn, List.length_drop, hused]
    · rw [List.length_drop]
      omega
    · rw [List.length_drop]
      omega
    · rw [hstart]
      have hbuf : (takeBytes tcb n).recvBuf = tcb.recvBuf := by rw [takeBytes]
      rw [hbuf]
      exact h.buffered.holds.forget n
    · rw [hstart]
      exact h.buffered.fits.drop n
    · rw [hqueue, hrcvNxt]
      exact h.queue
    · rw [hqueue, hrcvNxt]
      exact h.beyond

theorem utcpRead_grown (env : Env) (len : ℕ) (h : Assembled P edge tcb bytes) :
    (utcpRead env tcb len).2 = bytes.take (min len (bufUsed tcb).toNat) ∧
      Assembled P edge (utcpRead env tcb len).1.tcb (bytes.drop (min len (bufUsed tcb).toNat)) := by
  obtain ⟨hread, htaken⟩ := h.take (Nat.min_le_right len (bufUsed tcb).toNat)
  simp only [utcpRead]
  split
  · exact ⟨hread, htaken.same (outputTrace_sameReceive (acknowOutput_trace ..))⟩
  · exact ⟨hread, htaken⟩

theorem receives_afterRead {e : Endpoint} {result : Out × List U8} {n : ℕ}
    (hread : result.2 = bytes.take n)
    (hleft : Assembled P (e.delivered.length + bytes.length) result.1.tcb (bytes.drop n))
    (hdelivered : Fits P 0 e.delivered) (hbytes : Fits P e.delivered.length bytes)
    (hstate : Receiving result.1.tcb) : Receives P (e.afterRead result).1 := by
  have hlen : (e.delivered ++ bytes.take n).length + (bytes.drop n).length =
      e.delivered.length + bytes.length := by
    rw [List.length_append, Nat.add_assoc, ← List.length_append, List.take_append_drop]
  have hall : (e.afterRead result).1.delivered = e.delivered ++ bytes.take n := by
    rw [← hread]
    rfl
  refine ⟨fun hnot => absurd hstate hnot, fun _ => ⟨bytes.drop n, ?_, ?_⟩⟩
  · rw [hall, hlen]
    exact hleft
  · rw [hall]
    refine hdelivered.append ?_
    rw [Nat.zero_add]
    exact hbytes.take n

/-- One critical section, of an endpoint that gets parts of the stream only. -/
theorem run_receives {e e' : Endpoint} {s : Section} {log : List Event} (h : Receives P e)
    (hstream : ∀ env seg peer, s = .input env seg peer → Receiving e.tcb →
      InStream P e.tcb.irs (edgeOf e) seg)
    (hrun : e.run s = some (e', log)) : Receives P e' := by
  have hsend : ∀ (envs : ℕ → Env) (e'' : Endpoint) (bytes : List U8),
      e''.tcb = e.tcb → e''.delivered = e.delivered →
        Receives P (e''.sendSection envs bytes).1 := by
    intro envs e'' bytes htcb hdelivered
    refine h.same ?_ (.inl ?_) hdelivered
    · rw [← htcb]
      exact sendLoop_sameReceive envs bytes.length 0 e''.tcb bytes
    · rw [← htcb]
      exact sendLoop_state envs bytes.length 0 e''.tcb bytes
  cases s with
  | connect env ip port =>
      simp only [Endpoint.run] at hrun
      split at hrun
      · rename_i hclosed
        cases hrun
        have hopen : SameReceive e.tcb
            { e.tcb with dstIp := ip, dstPort := port, dstUdpPort := 1970, state := .synSent } :=
          ⟨rfl, rfl, rfl, rfl, rfl, rfl, rfl⟩
        refine h.same (hopen.trans (outputTrace_sameReceive (utcpOutput_trace ..))) (.inr ⟨?_, ?_⟩) rfl
        · simp [Receiving, hclosed]
        · intro hreceiving
          have hstate : (utcpConnect env e.tcb ip port).tcb.state = .synSent := utcpOutput_state ..
          rw [Receiving] at hreceiving
          change (utcpConnect env e.tcb ip port).tcb.state = _ ∨
            (utcpConnect env e.tcb ip port).tcb.state = _ at hreceiving
          rw [hstate] at hreceiving
          simp at hreceiving
      · cases hrun
  | input env seg peer =>
      obtain ⟨out, hout, hrun⟩ := Option.map_eq_some_iff.mp hrun
      cases hrun
      by_cases hstate : Receiving e.tcb
      · obtain ⟨bytes, hassembled, hfits⟩ := h.opened hstate
        have hseg := hstream env seg peer rfl hstate
        rw [edgeOf, hassembled.buffered.used] at hseg
        have htrace : Trace (TcbStep (fun _ => True) fun _ => True) e.tcb out.log out.tcb :=
          utcpInput_trace trivial hout
        exact (utcpInput_grown hassembled hstate hseg hout).receives rfl hfits
          (trace_receiving htrace hstate)
      · obtain ⟨huntouched, hempty⟩ := h.closed hstate
        rcases utcpInput_opened (P := P) huntouched hstate hout with ⟨hnot, hsame⟩ | ⟨hin, hassembled⟩
        · exact ⟨fun _ => ⟨hsame, hempty⟩, fun hin => absurd hin hnot⟩
        · refine ⟨fun hnot => absurd hin hnot, fun _ => ⟨[], ?_, ?_⟩⟩
          · change Assembled P (e.delivered.length + 0) out.tcb []
            rw [hempty]
            exact hassembled
          · change Fits P 0 e.delivered
            rw [hempty]
            exact fits_nil 0
  | slowtimo envs =>
      obtain ⟨out, hout, hrun⟩ := Option.map_eq_some_iff.mp hrun
      cases hrun
      have htrace : Trace (ClockStep fun _ => True) e.tcb out.log out.tcb :=
        utcpSlowtimo_trace (fun _ => trivial) hout
      exact h.same (clockTrace_sameReceive htrace) (.inl (clockTrace_state htrace)) rfl
  | send envs bytes =>
      simp only [Endpoint.run] at hrun
      split at hrun
      · have heq := Option.some.inj hrun
        have hsent := hsend envs e bytes rfl rfl
        rw [heq] at hsent
        exact hsent
      · cases hrun
  | wake envs =>
      simp only [Endpoint.run] at hrun
      split at hrun
      · have heq := Option.some.inj hrun
        have hsent := hsend envs e e.pending rfl rfl
        rw [heq] at hsent
        exact hsent
      · cases hrun
  | read env len =>
      simp only [Endpoint.run] at hrun
      split at hrun
      · rename_i hstate
        have heq := Option.some.inj hrun
        have hreceiving : Receiving e.tcb := .inr hstate.1
        obtain ⟨bytes, hassembled, hfits⟩ := h.opened hreceiving
        obtain ⟨hread, hleft⟩ := utcpRead_grown env len hassembled
        have hstate' : Receiving (utcpRead env e.tcb len).1.tcb :=
          .inr ((utcpRead_state env e.tcb len).trans hstate.1)
        have hbytes := hassembled.buffered.fits
        rw [Nat.add_sub_cancel] at hbytes
        have hresult := receives_afterRead hread hleft hfits hbytes hstate'
        rw [heq] at hresult
        exact hresult
      · cases hrun

/-- The bytes in the receive buffer. -/
def ringContents (tcb : Tcb) : List U8 :=
  ringBufRead tcb.recvBuf recvBufSize tcb.recvBufHead (bufUsed tcb).toNat

/-- A segment that reaches a connection carries a slice of `stream` at its
sequence number, and begins and ends less than half a round from `rcv_nxt`. -/
def SliceOf (stream : List U8) (e : Endpoint) : Section → Prop
  | .input _ seg _ =>
      Receiving e.tcb → payload seg = [] ∨
        ∃ pos, seg.hdr.thSeq = e.tcb.irs + 1 + BitVec.ofNat 32 pos ∧
          payload seg <+: stream.drop pos ∧ pos < edgeOf e + 2 ^ 31 ∧ edgeOf e < pos + 2 ^ 31 ∧
            pos + (payload seg).length < edgeOf e + 2 ^ 31
  | _ => True

/-- What the receiver has put together is the beginning of `stream`, and what
waits in its queue is where it belongs. -/
structure Reassembled (stream : List U8) (e : Endpoint) : Prop where
  rcvNxt : e.tcb.rcvNxt = e.tcb.irs + 1 + e.tcb.recvBufTail
  inOrder : e.delivered ++ ringContents e.tcb <+: stream
  entries : ∀ entry ∈ e.tcb.oooHead, ∃ pos, entry.seq = e.tcb.irs + 1 + BitVec.ofNat 32 pos ∧
    edgeOf e < pos ∧ entry.data <+: stream.drop pos ∧ entry.data.length = entry.len.toNat
  ascending : e.tcb.oooHead.Pairwise fun entry entry' =>
    seqLt entry.seq entry'.seq ∧ seqLeq (entryEnd entry) entry'.seq
  beyond : ∀ entry ∈ e.tcb.oooHead, seqGt entry.seq e.tcb.rcvNxt

theorem Receives.reassembled {stream : List U8} {e : Endpoint} (h : Receives (Agrees 0 stream) e)
    (hstate : Receiving e.tcb) : Reassembled stream e := by
  obtain ⟨bytes, hassembled, hfits⟩ := h.opened hstate
  have hused := hassembled.buffered.used
  have hedge : edgeOf e = e.delivered.length + bytes.length := by rw [edgeOf, hused]
  have hcontents : ringContents e.tcb = bytes := by
    rw [ringContents, (hassembled.take (Nat.le_refl _)).1, hused, List.take_length]
  rw [← hedge] at hassembled
  refine ⟨hassembled.buffered.rcvNxt, ?_, ?_, ?_, ?_⟩
  · have hbytes := hassembled.buffered.fits
    rw [hedge, Nat.add_sub_cancel] at hbytes
    have hall : Fits (Agrees 0 stream) 0 (e.delivered ++ bytes) :=
      hfits.append (by rw [Nat.zero_add]; exact hbytes)
    rw [hcontents]
    exact prefix_of_fits hall
  · intro entry hmem
    refine ⟨entryStart (edgeOf e) e.tcb.rcvNxt entry, ?_, hassembled.beyond entry hmem, ?_,
      (hassembled.queue.full entry hmem).2⟩
    · have hback : entry.seq = e.tcb.rcvNxt + (entry.seq - e.tcb.rcvNxt) := by
        rw [BitVec.add_comm, BitVec.sub_add_cancel]
      rw [entryStart, position, BitVec.ofNat_add, BitVec.ofNat_toNat, BitVec.setWidth_eq,
        ← BitVec.add_assoc, ← hassembled.buffered.tail, ← hassembled.buffered.rcvNxt]
      exact hback
    · exact fits_agrees_iff.mp (hassembled.queue.fits entry hmem)
  · refine List.Pairwise.imp_of_mem ?_ hassembled.queue.sorted
    intro entry entry' hmem hmem' hle
    have hnear := hassembled.queue.near entry hmem
    have hseq := (hassembled.queue.near entry' hmem').start_lt
    have hlt := entryStart_lt_entryStop hassembled.queue hmem
    refine ⟨(hnear.seqLt_seq (edgeOf e) hseq).mpr ?_, (hnear.seqLeq_entryEnd (edgeOf e) hseq).mpr hle⟩
    exact Nat.lt_of_lt_of_le hlt hle
  · intro entry hmem
    have hbeyond := hassembled.beyond entry hmem
    have hnear := hassembled.queue.near entry hmem
    have hzero := toNat_sub_self e.tcb.rcvNxt
    rw [seqGt_eq_not, Bool.not_eq_true', ← Bool.not_eq_true,
      seqLeq_iff e.tcb.rcvNxt hnear.start_lt (by omega), hzero]
    unfold entryStart position at hbeyond
    omega

theorem receives_start {e : Endpoint} (h : e.Fresh) : Receives P e := by
  obtain ⟨ip, port, rfl | rfl⟩ := h
  · refine ⟨fun _ => ⟨⟨rfl, rfl, rfl, rfl⟩, rfl⟩, fun hstate => ?_⟩
    simp [Receiving, Endpoint.start, utcpBind, utcpSocket] at hstate
  · refine ⟨fun _ => ⟨⟨rfl, rfl, rfl, rfl⟩, rfl⟩, fun hstate => ?_⟩
    simp [Receiving, Endpoint.start, utcpListen, utcpBind, utcpSocket] at hstate

/-- Whatever order the parts of the stream come in and however they are cut, a
connection puts the stream together. -/
theorem stream_reassembled {stream : List U8} {e : Endpoint}
    (h : ReachedBy endpoints (SliceOf stream) e) (hstate : Receiving e.tcb) :
    Reassembled stream e := by
  have hreceives : Receives (Agrees 0 stream) e := by
    refine h.invariant (fun _ => receives_start) ?_
    rintro e s e' - hreceives hslice ⟨log, hrun⟩
    refine run_receives hreceives ?_ hrun
    rintro env seg peer rfl hstate
    rcases hslice hstate with hempty | ⟨pos, hseq, hprefix, hbounds⟩
    · exact .inl hempty
    · exact .inr ⟨pos, hseq, fits_agrees_iff.mpr hprefix, hbounds⟩
  exact hreceives.reassembled hstate

/-- `SliceOf` near the start of a stream, where the position can be computed. -/
def SliceNearStart (stream : List U8) (e : Endpoint) : Section → Prop
  | .input _ seg _ =>
      payload seg <+: stream.drop (seg.hdr.thSeq - e.tcb.irs - 1).toNat ∧
        (seg.hdr.thSeq - e.tcb.irs - 1).toNat + (payload seg).length < 2 ^ 31 ∧ edgeOf e < 2 ^ 31 ∨
          ¬ Receiving e.tcb
  | _ => True

instance (tcb : Tcb) : Decidable (Receiving tcb) := inferInstanceAs (Decidable (_ ∨ _))

instance (stream : List U8) (e : Endpoint) (s : Section) : Decidable (SliceNearStart stream e s) :=
  match s with
  | .input .. => inferInstanceAs (Decidable (_ ∨ _))
  | .connect .. | .slowtimo .. | .send .. | .wake .. | .read .. => .isTrue trivial

theorem SliceNearStart.sliceOf {stream : List U8} {e : Endpoint} {s : Section}
    (h : SliceNearStart stream e s) : SliceOf stream e s := by
  cases s with
  | input env seg peer =>
      intro hstate
      obtain ⟨hpre, hend, hedge⟩ := h.resolve_right (not_not.mpr hstate)
      refine .inr ⟨_, ?_, hpre, by omega, by omega, by omega⟩
      rw [BitVec.ofNat_toNat, BitVec.setWidth_eq, BitVec.sub_sub, BitVec.add_comm,
        BitVec.sub_add_cancel]
  | _ => trivial

/-- Nine bytes from just below the wrap of the sequence numbers on: the end
first, then a part that overlaps it, then the beginning, then a read. -/
theorem stream_reassembled_wrapped :
    ∃ e : Endpoint, e.delivered = [1, 2, 3, 4] ∧ e.tcb.rcvNxt = 3 ∧ e.tcb.oooHead = [] ∧
      Reassembled [1, 2, 3, 4, 5, 6, 7, 8, 9] e := by
  let segment (seq : U32) (flags : U8) (data : List U8) : Section :=
    .input (.still 0) ⟨⟨0, 0, seq, 1, 0x50, flags, 0, 0, 0⟩, data⟩ ⟨0, 0⟩
  let sections : List Section :=
    [segment 0xFFFFFFF9 thSyn [], segment 0xFFFFFFFA thAck [], segment 0 thAck [7, 8, 9],
      segment 0xFFFFFFFD thAck [4, 5, 6, 7], segment 0xFFFFFFFA thAck [1, 2, 3, 4],
      .read (.still 0) 4]
  let fresh : Endpoint := .start (utcpListen (utcpBind utcpSocket 0 0))
  have hrun : (runAll (guarded (SliceNearStart [1, 2, 3, 4, 5, 6, 7, 8, 9]) Endpoint.next) fresh
      sections).map (fun e => (e.tcb.state, e.delivered, e.tcb.rcvNxt, e.tcb.oooHead)) =
        some (.established, [1, 2, 3, 4], 3, []) := by
    decide +kernel
  obtain ⟨e, hrun, heq⟩ := Option.map_eq_some_iff.mp hrun
  obtain ⟨hstate, hdelivered, hrcvNxt, hqueue⟩ : e.tcb.state = .established ∧
      e.delivered = [1, 2, 3, 4] ∧ e.tcb.rcvNxt = 3 ∧ e.tcb.oooHead = [] := by
    simpa using heq
  exact ⟨e, hdelivered, hrcvNxt, hqueue, stream_reassembled
    (.runGuarded (fun _ _ => SliceNearStart.sliceOf) (fun _ _ _ => endpoints_next) sections
      (.init ⟨0, 0, .inr rfl⟩) hrun) (.inr hstate)⟩

end Utcp.Receiver
