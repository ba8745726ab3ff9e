import Mathlib.Algebra.BigOperators.Group.List.Basic
import Utcp.Frames
import Utcp.Library.SerialNumbers

/-!
The accounting of the receive buffer, whatever segments arrive.
-/

namespace Utcp.Accounting

open SerialNumbers
open Traces
open TransitionSystems
open Utcp.Tcp
open Utcp.Utils
open Utcp.Output
open Utcp.Input
open Utcp.Api
open Utcp.Steps
open Utcp.Sections
open Utcp.Frames

variable {In : TcpSegment → Prop} {Ex : U8 → Prop}

/-- The bytes in the entries of a queue. -/
def queued (queue : List TcpqEntry) : Nat := (queue.map fun entry => entry.len.toNat).sum

@[simp] theorem queued_nil : queued [] = 0 := rfl

@[simp] theorem queued_cons (entry : TcpqEntry) (queue : List TcpqEntry) :
    queued (entry :: queue) = entry.len.toNat + queued queue := by
  simp [queued]

@[simp] theorem queued_append (before after : List TcpqEntry) :
    queued (before ++ after) = queued before + queued after := by
  simp [queued]

/-- The counters say what is there, and it fits. -/
structure Accounts (tcb : Tcb) : Prop where
  sum : tcb.oooBytes.toNat = queued tcb.oooHead
  positive : ∀ entry ∈ tcb.oooHead, 0 < entry.len.toNat
  copied : ∀ entry ∈ tcb.oooHead, entry.data.length = entry.len.toNat
  room : (bufUsed tcb).toNat + tcb.oooBytes.toNat ≤ recvBufSize.toNat

/-- The window of a segment is the free space of a block, subtracted without a wrap. -/
def Advertises (seg : TcpSegment) : Prop :=
  ∃ tcb : Tcb, seg.hdr.thWin = setScaledWin tcb seg.hdr.thFlags (currentFreeSpace tcb) ∧
    (currentFreeSpace tcb).toNat =
      recvBufSize.toNat - (bufUsed tcb).toNat - tcb.oooBytes.toNat ∧
    (bufUsed tcb).toNat + tcb.oooBytes.toNat ≤ recvBufSize.toNat

/-- No subtraction wraps, no trim takes more than there is, and the branch for
a full buffer is not taken. -/
def Accounted : Event → Prop
  | .freeSpace used reserved => used.toNat + reserved.toNat ≤ recvBufSize.toNat
  | .sent _ _ seg => Advertises seg
  | .trim overlap len => overlap.toNat < len.toNat
  | .drainFull => False
  | _ => True

theorem Accounts.same {tcb tcb' : Tcb} (h : Accounts tcb) (hsame : SameReceive tcb tcb') :
    Accounts tcb' := by
  refine ⟨?_, ?_, ?_, ?_⟩
  · rw [hsame.oooBytes, hsame.oooHead]
    exact h.sum
  · rw [hsame.oooHead]
    exact h.positive
  · rw [hsame.oooHead]
    exact h.copied
  · rw [hsame.bufUsed, hsame.oooBytes]
    exact h.room

theorem Accounts.free {tcb : Tcb} (h : Accounts tcb) :
    (recvBufSize - bufUsed tcb - tcb.oooBytes).toNat =
      recvBufSize.toNat - (bufUsed tcb).toNat - tcb.oooBytes.toNat := by
  have hroom := h.room
  have hfirst : (recvBufSize - bufUsed tcb).toNat = recvBufSize.toNat - (bufUsed tcb).toNat :=
    toNat_sub_of_ge (by omega)
  rw [toNat_sub_of_ge (by omega), hfirst]

theorem Accounts.advertises {tcb : Tcb} (h : Accounts tcb) (timeUs : U64) (seq : U32) (flags : U8)
    (dataLength : U32) : Advertises (buildSegment timeUs tcb seq flags dataLength) :=
  ⟨tcb, rfl, h.free, h.room⟩

theorem bufUsed_acceptBytes (tcb : Tcb) (data : List U8) :
    bufUsed (acceptBytes tcb data) = bufUsed tcb + BitVec.ofNat 32 data.length := by
  rw [bufUsed, bufUsed, acceptBytes, BitVec.sub_eq_add_neg, BitVec.sub_eq_add_neg,
    BitVec.add_assoc, BitVec.add_assoc, BitVec.add_comm (BitVec.ofNat 32 data.length)]

theorem toNat_ofNat_length {data : List U8} (h : data.length ≤ recvBufSize.toNat) :
    (BitVec.ofNat 32 data.length).toNat = data.length := by
  rw [BitVec.toNat_ofNat, Nat.mod_eq_of_lt]
  rw [recvBufSize_toNat] at h
  omega

theorem toNat_add_of_lt {a b : U32} (h : a.toNat + b.toNat < 2 ^ 32) :
    (a + b).toNat = a.toNat + b.toNat := by
  rw [BitVec.toNat_add, Nat.mod_eq_of_lt h]

theorem seqLt_toInt {a b : U32} (h : seqLt a b = true) : (a - b).toInt < 0 := by
  simpa [seqLt] using h

theorem seqLeq_false_toInt {a b : U32} (h : seqLeq a b = false) : 0 < (a - b).toInt := by
  simpa [seqLeq] using h

theorem accounted_space {tcb : Tcb} (h : Accounts tcb) :
    ∀ event ∈ [Event.freeSpace (bufUsed tcb) tcb.oooBytes], Accounted event := by
  intro event hevent
  rw [List.mem_singleton] at hevent
  rw [hevent]
  exact h.room

theorem Accounts.accept {tcb : Tcb} {data : List U8} (h : Accounts tcb)
    (hfits : (bufUsed tcb).toNat + tcb.oooBytes.toNat + data.length ≤ recvBufSize.toNat) :
    Accounts (acceptBytes tcb data) := by
  have hsize := recvBufSize_toNat
  have hlen : (BitVec.ofNat 32 data.length).toNat = data.length :=
    toNat_ofNat_length (by omega)
  have hused : (bufUsed (acceptBytes tcb data)).toNat = (bufUsed tcb).toNat + data.length := by
    rw [bufUsed_acceptBytes, toNat_add_of_lt (by omega), hlen]
  have hooo : (acceptBytes tcb data).oooBytes = tcb.oooBytes := by rw [acceptBytes]
  have hqueue : (acceptBytes tcb data).oooHead = tcb.oooHead := by rw [acceptBytes]
  refine ⟨?_, ?_, ?_, ?_⟩
  · rw [hooo, hqueue]
    exact h.sum
  · rw [hqueue]
    exact h.positive
  · rw [hqueue]
    exact h.copied
  · rw [hused, hooo]
    omega

theorem accounts_requeue {tcb : Tcb} {queue : List TcpqEntry} {oooBytes : U32}
    (hsum : oooBytes.toNat = queued queue)
    (hentries : ∀ entry ∈ queue, 0 < entry.len.toNat ∧ entry.data.length = entry.len.toNat)
    (hroom : (bufUsed tcb).toNat + oooBytes.toNat ≤ recvBufSize.toNat) :
    Accounts { tcb with oooHead := queue, oooBytes } :=
  ⟨hsum, fun entry hentry => (hentries entry hentry).1, fun entry hentry => (hentries entry hentry).2,
    hroom⟩

theorem Accounts.entry {tcb : Tcb} (h : Accounts tcb) {entry : TcpqEntry}
    (hentry : entry ∈ tcb.oooHead) :
    0 < entry.len.toNat ∧ entry.data.length = entry.len.toNat :=
  ⟨h.positive entry hentry, h.copied entry hentry⟩

theorem Accounts.split {tcb : Tcb} (h : Accounts tcb) {before after : List TcpqEntry}
    {entry : TcpqEntry} (hqueue : tcb.oooHead = before ++ entry :: after) :
    tcb.oooBytes.toNat = queued before + (entry.len.toNat + queued after) := by
  rw [h.sum, hqueue, queued_append, queued_cons]

theorem receiveStep_accounts (hIn : ∀ seg, In seg → (payload seg).length < 2 ^ 32)
    {tcb tcb' : Tcb} {log : List Event} (h : ReceiveStep In tcb log tcb')
    (ha : Accounts tcb) : Accounts tcb' ∧ ∀ event ∈ log, Accounted event := by
  have hroom := ha.room
  have hfree := ha.free
  have hsize := recvBufSize_toNat
  cases h with
  | space => exact ⟨ha, accounted_space ha⟩
  | accept seg data hseg hdata hfits =>
      have hshort := hIn seg hseg
      have hlen := hdata.length_pos
      refine ⟨ha.accept (by omega), fun event hevent => ?_⟩
      rw [List.mem_singleton.mp hevent]
      trivial
  | insert seg entry before after hseg hdata hlen hqueue hfits =>
      have hshort := hIn seg hseg
      have hpos := hdata.length_pos
      have hcopied : entry.len.toNat = entry.data.length := by
        rw [hlen, BitVec.toNat_ofNat, Nat.mod_eq_of_lt (by omega)]
      have hle : entry.len.toNat ≤
          recvBufSize.toNat - (bufUsed tcb).toNat - tcb.oooBytes.toNat := by
        rw [← hfree]
        exact Nat.le_of_not_lt hfits
      have hadd : (tcb.oooBytes + entry.len).toNat = tcb.oooBytes.toNat + entry.len.toNat :=
        toNat_add_of_lt (by omega)
      have hsum := ha.sum
      rw [hqueue, queued_append] at hsum
      refine ⟨accounts_requeue ?_ ?_ ?_, by simp⟩
      · rw [hadd, queued_append, queued_cons]
        omega
      · intro other hother
        rcases List.mem_append.mp hother with hother | hother
        · exact ha.entry (hqueue ▸ List.mem_append_left _ hother)
        · rcases List.mem_cons.mp hother with rfl | hother
          · exact ⟨by omega, hcopied.symm⟩
          · exact ha.entry (hqueue ▸ List.mem_append_right _ hother)
      · rw [hadd]
        omega
  | absorb entry before after hqueue =>
      have hsplit := ha.split hqueue
      have hsub : (tcb.oooBytes - entry.len).toNat = tcb.oooBytes.toNat - entry.len.toNat :=
        toNat_sub_of_ge (by omega)
      refine ⟨accounts_requeue ?_ ?_ ?_, by simp⟩
      · rw [hsub, queued_append]
        omega
      · intro other hother
        apply ha.entry
        rw [hqueue]
        rcases List.mem_append.mp hother with hother | hother
        · exact List.mem_append_left _ hother
        · exact List.mem_append_right _ (List.mem_cons_of_mem _ hother)
      · rw [hsub]
        omega
  | trim entry before after cut hqueue hstart hend =>
      have hsplit := ha.split hqueue
      have hmem : entry ∈ tcb.oooHead := by rw [hqueue]; simp
      have hentry := ha.entry hmem
      have hinside : (cut - entry.seq).toNat < entry.len.toNat :=
        cut_inside (by omega) (seqLt_toInt hstart) (seqLeq_false_toInt hend)
      have hsub : (tcb.oooBytes - (cut - entry.seq)).toNat =
          tcb.oooBytes.toNat - (cut - entry.seq).toNat := toNat_sub_of_ge (by omega)
      have hlen : (entry.len - (cut - entry.seq)).toNat =
          entry.len.toNat - (cut - entry.seq).toNat := toNat_sub_of_ge (by omega)
      refine ⟨accounts_requeue ?_ ?_ ?_, ?_⟩
      · rw [hsub, queued_append, queued_cons, trimEntry, hlen]
        omega
      · intro other hother
        rcases List.mem_append.mp hother with hother | hother
        · exact ha.entry (hqueue ▸ List.mem_append_left _ hother)
        · rcases List.mem_cons.mp hother with rfl | hother
          · rw [trimEntry, hlen, List.length_drop]
            omega
          · exact ha.entry (hqueue ▸ List.mem_append_right _ (List.mem_cons_of_mem _ hother))
      · rw [hsub]
        omega
      · intro event hevent
        rw [List.mem_singleton] at hevent
        rw [hevent]
        exact hinside
  | drain entry rest hqueue hseq hfits =>
      have hfront : tcb.oooHead = [] ++ entry :: rest := hqueue
      have hsplit := ha.split hfront
      rw [queued_nil] at hsplit
      have hmem : entry ∈ tcb.oooHead := by rw [hqueue]; simp
      have hentry := ha.entry hmem
      have hsub : (tcb.oooBytes - entry.len).toNat = tcb.oooBytes.toNat - entry.len.toNat :=
        toNat_sub_of_ge (by omega)
      have hrest : Accounts { tcb with oooHead := rest, oooBytes := tcb.oooBytes - entry.len } := by
        refine accounts_requeue ?_ ?_ ?_
        · rw [hsub]
          omega
        · intro other hother
          exact ha.entry (by rw [hqueue]; exact List.mem_cons_of_mem _ hother)
        · rw [hsub]
          omega
      have hfits' : (bufUsed tcb).toNat + (tcb.oooBytes - entry.len).toNat + entry.data.length ≤
          recvBufSize.toNat := by
        rw [hsub, hentry.2]
        omega
      have haccept := hrest.accept hfits'
      refine ⟨?_, ?_⟩
      · rw [acceptBytes] at haccept ⊢
        exact haccept
      · intro event hevent
        rw [List.mem_singleton] at hevent
        rw [hevent]
        change (bufUsed tcb).toNat + 0 ≤ _
        omega
  | drainFull entry rest hqueue hfull =>
      have hfront : tcb.oooHead = [] ++ entry :: rest := hqueue
      have hsplit := ha.split hfront
      rw [queued_nil] at hsplit
      have hsub : (recvBufSize - bufUsed tcb).toNat = recvBufSize.toNat - (bufUsed tcb).toNat :=
        toNat_sub_of_ge (by omega)
      have hlt : (recvBufSize - bufUsed tcb).toNat < entry.len.toNat := hfull
      omega

theorem accounted_sent {tcb : Tcb} (h : Accounts tcb) (origin : Origin) (timeUs : U64) (seq : U32)
    (flags : U8) (dataLength : U32) :
    ∀ event ∈ [Event.freeSpace (bufUsed tcb) tcb.oooBytes,
      .sent origin timeUs (buildSegment timeUs tcb seq flags dataLength)], Accounted event := by
  intro event hevent
  rcases List.mem_cons.mp hevent with rfl | hevent
  · exact h.room
  · rw [List.mem_singleton.mp hevent]
    exact h.advertises timeUs seq flags dataLength

theorem outputStep_accounted {tcb tcb' : Tcb} {log : List Event} (h : OutputStep tcb log tcb')
    (ha : Accounts tcb) : ∀ event ∈ log, Accounted event := by
  cases h with
  | flags => simp
  | delack => simp
  | bare timeUs hlen hsyn => exact accounted_sent ha _ _ _ _ _
  | advance timeUs newSynFin hsyn hadvance => exact accounted_sent ha _ _ _ _ _

theorem retransmit_accounted (reading : Reading) {tcb : Tcb} (seq : U32) (ha : Accounts tcb) :
    ∀ event ∈ utcpRetransmitSegment reading tcb seq, Accounted event := by
  unfold utcpRetransmitSegment
  split
  · simp
  · unfold utcpSendSegment
    split
    · exact accounted_sent ha _ _ _ _ _
    · simp

theorem ackStep_accounted {tcb tcb' : Tcb} {log : List Event} (h : AckStep In tcb log tcb')
    (ha : Accounts tcb) : ∀ event ∈ log, Accounted event := by
  cases h with
  | retransmit reading => exact retransmit_accounted reading _ ha
  | rearm env =>
      unfold rearmRexmt
      split
      · simp
      · dsimp only
        split
        · intro event hevent
          rw [List.mem_singleton] at hevent
          rw [hevent]
          trivial
        · simp
  | _ => simp

theorem timerStep_accounted {tcb tcb' : Tcb} {log : List Event} (h : TimerStep Ex tcb log tcb') :
    ∀ event ∈ log, Accounted event := by
  cases h with
  | clock => simp
  | countDown => simp
  | rexmt env recover hticks hshift =>
      intro event hevent
      rcases List.mem_cons.mp hevent with rfl | hevent
      · trivial
      · rw [List.mem_singleton] at hevent
        rw [hevent]
        trivial
  | other timer hticks htimer =>
      intro event hevent
      rw [List.mem_singleton] at hevent
      rw [hevent]
      trivial

theorem openStep_accounts {tcb tcb' : Tcb} {log : List Event} (h : OpenStep In tcb log tcb')
    (ha : Accounts tcb) : Accounts tcb' ∧ log = [] := by
  have hoptions : ∀ (env : Env) (seg : TcpSegment) (t : Tcb), Accounts t →
      Accounts (processWindowOption env seg t) := by
    intro env seg t ht
    obtain ⟨_, _, _, _, heq⟩ := processWindowOption_eq env seg t
    rw [heq]
    exact ⟨ht.sum, ht.positive, ht.copied, ht.room⟩
  cases h with
  | connect ip port hstate => exact ⟨⟨ha.sum, ha.positive, ha.copied, ha.room⟩, rfl⟩
  | syn env seg peer hseg hstate hflag =>
      have ht := hoptions env seg tcb ha
      rw [acceptSyn]
      exact ⟨⟨ht.sum, ht.positive, ht.copied, ht.room⟩, rfl⟩
  | synAck env seg hseg hstate hawaited =>
      have ht := hoptions env seg
        { tcb with
          sndUna := seg.hdr.thAck
          irs := seg.hdr.thSeq
          rcvNxt := seg.hdr.thSeq + 1
          state := .established } ⟨ha.sum, ha.positive, ha.copied, ha.room⟩
      rw [acceptSynAck]
      exact ⟨⟨ht.sum, ht.positive, ht.copied, ht.room⟩, rfl⟩
  | finalAck seg hseg hstate hcompletes =>
      rw [acceptFinalAck]
      exact ⟨⟨ha.sum, ha.positive, ha.copied, ha.room⟩, rfl⟩

theorem tcbStep_accounts (hIn : ∀ seg, In seg → (payload seg).length < 2 ^ 32)
    {tcb tcb' : Tcb} {log : List Event} (h : TcbStep In Ex tcb log tcb') (ha : Accounts tcb) :
    Accounts tcb' ∧ ∀ event ∈ log, Accounted event := by
  cases h with
  | output h => exact ⟨ha.same (outputStep_sameReceive h), outputStep_accounted h ha⟩
  | receive _ h => exact receiveStep_accounts hIn h ha
  | ack _ h => exact ⟨ha.same (ackStep_sameReceive h), ackStep_accounted h ha⟩
  | timer h => exact ⟨ha.same (timerStep_sameReceive h), timerStep_accounted h⟩
  | opening h =>
      obtain ⟨ha', rfl⟩ := openStep_accounts h ha
      exact ⟨ha', by simp⟩

theorem bufUsed_takeBytes {tcb : Tcb} {n : Nat} (hn : n ≤ (bufUsed tcb).toNat) :
    (bufUsed (takeBytes tcb n)).toNat = (bufUsed tcb).toNat - n := by
  have hlt := (bufUsed tcb).isLt
  have hnat : (BitVec.ofNat 32 n).toNat = n := by
    rw [BitVec.toNat_ofNat, Nat.mod_eq_of_lt (by omega)]
  have heq : bufUsed (takeBytes tcb n) = bufUsed tcb - BitVec.ofNat 32 n := by
    rw [takeBytes, bufUsed, bufUsed]
    bv_omega
  rw [heq, toNat_sub_of_ge (by omega), hnat]

theorem Accounts.take {tcb : Tcb} {n : Nat} (h : Accounts tcb) (hn : n ≤ (bufUsed tcb).toNat) :
    Accounts (takeBytes tcb n) := by
  have hused := bufUsed_takeBytes hn
  have hroom := h.room
  have hooo : (takeBytes tcb n).oooBytes = tcb.oooBytes := by rw [takeBytes]
  have hqueue : (takeBytes tcb n).oooHead = tcb.oooHead := by rw [takeBytes]
  refine ⟨?_, ?_, ?_, ?_⟩
  · rw [hooo, hqueue]
    exact h.sum
  · rw [hqueue]
    exact h.positive
  · rw [hqueue]
    exact h.copied
  · rw [hused, hooo]
    omega

theorem endpointStep_accounts (hIn : ∀ seg, In seg → (payload seg).length < 2 ^ 32)
    {e e' : Endpoint} {log : List Event} (h : EndpointStep In Ex e log e')
    (ha : Accounts e.tcb ∧ ∀ event ∈ e.history, Accounted event) :
    Accounts e'.tcb ∧ ∀ event ∈ e'.history, Accounted event := by
  cases h with
  | tcb h =>
      obtain ⟨ha', hlog⟩ := tcbStep_accounts hIn h ha.1
      refine ⟨ha', fun event hevent => ?_⟩
      rcases List.mem_append.mp hevent with hevent | hevent
      · exact ha.2 event hevent
      · exact hlog event hevent
  | call bytes hstate hpending => exact ha
  | write n hstate hroom hn =>
      refine ⟨?_, ha.2⟩
      rw [writeChunk]
      exact ⟨ha.1.sum, ha.1.positive, ha.1.copied, ha.1.room⟩
  | read n hstate hn => exact ⟨ha.1.take hn, ha.2⟩

theorem accounts_start {e : Endpoint} (h : e.Fresh) :
    Accounts e.tcb ∧ ∀ event ∈ e.history, Accounted event := by
  obtain ⟨ip, port, rfl | rfl⟩ := h
  · exact ⟨⟨rfl, by simp [Endpoint.start, utcpBind, utcpSocket],
      by simp [Endpoint.start, utcpBind, utcpSocket],
      by simp [Endpoint.start, utcpBind, utcpSocket, bufUsed]⟩, by simp [Endpoint.start]⟩
  · exact ⟨⟨rfl, by simp [Endpoint.start, utcpListen, utcpBind, utcpSocket],
      by simp [Endpoint.start, utcpListen, utcpBind, utcpSocket],
      by simp [Endpoint.start, utcpListen, utcpBind, utcpSocket, bufUsed]⟩,
      by simp [Endpoint.start]⟩

/-- The payload of a datagram of at most 1500 bytes. -/
def ShortPayload (_ : Endpoint) : Section → Prop
  | .input _ seg _ => (payload seg).length ≤ 1480
  | _ => True

instance (e : Endpoint) (s : Section) : Decidable (ShortPayload e s) := by
  cases s <;> unfold ShortPayload <;> infer_instance

theorem reached_accounts {e : Endpoint} (h : ReachedBy endpoints ShortPayload e) :
    Accounts e.tcb ∧ ∀ event ∈ e.history, Accounted event := by
  refine h.invariant (fun _ => accounts_start) ?_
  rintro e s e' - ha hshort ⟨log, hrun⟩
  have hIn : ∀ env seg peer, s = .input env seg peer → (payload seg).length ≤ 1480 := by
    rintro env seg peer rfl
    exact hshort
  have htrace : Trace (EndpointStep (fun seg => (payload seg).length ≤ 1480) fun _ => True)
      e log e' := run_trace hIn (fun _ _ _ => trivial) hrun
  have hlt : ∀ seg, (payload seg).length ≤ 1480 → (payload seg).length < 2 ^ 32 :=
    fun _ hseg => by omega
  exact htrace.invariant (fun _ _ _ hstep => endpointStep_accounts hlt hstep) ha

/-- Whatever segments arrive in whatever order, and whenever the application
reads, the receive buffer and the reassembly queue are accounted for. -/
theorem receive_accounting {e : Endpoint} (h : ReachedBy endpoints ShortPayload e) :
    e.tcb.oooBytes.toNat = (e.tcb.oooHead.map fun entry => entry.len.toNat).sum ∧
      (∀ entry ∈ e.tcb.oooHead, 0 < entry.len.toNat) ∧
      (e.tcb.recvBufTail - e.tcb.recvBufHead).toNat + e.tcb.oooBytes.toNat ≤
        recvBufSize.toNat ∧
      ∀ event ∈ e.history, Accounted event := by
  obtain ⟨haccounts, hhistory⟩ := reached_accounts h
  exact ⟨haccounts.sum, haccounts.positive, haccounts.room, hhistory⟩

/-- A listener that gets a SYN, the final ACK, three bytes too early, and three
that overlap them and leave a gap. -/
theorem receive_accounting_reordered :
    ∃ e : Endpoint, e.tcb.oooBytes = 5 ∧
      e.tcb.oooBytes.toNat = (e.tcb.oooHead.map fun entry => entry.len.toNat).sum ∧
      (∀ entry ∈ e.tcb.oooHead, 0 < entry.len.toNat) ∧
      (e.tcb.recvBufTail - e.tcb.recvBufHead).toNat + e.tcb.oooBytes.toNat ≤
        recvBufSize.toNat ∧
      ∀ event ∈ e.history, Accounted event := by
  let segment (seq : U32) (flags : U8) (data : List U8) : Section :=
    .input (.still 0) ⟨⟨0, 0, seq, 1, 0x50, flags, 0, 0, 0⟩, data⟩ ⟨0, 0⟩
  let sections : List Section :=
    [segment 7 thSyn [], segment 8 thAck [], segment 20 thAck [1, 2, 3],
      segment 18 thAck [4, 5, 6]]
  let fresh : Endpoint := .start (utcpListen (utcpBind utcpSocket 0 0))
  have hbytes : (runAll (guarded ShortPayload Endpoint.next) fresh sections).map
      (fun e => e.tcb.oooBytes) = some 5 := by
    decide +kernel
  obtain ⟨e, hrun, hooo⟩ := Option.map_eq_some_iff.mp hbytes
  exact ⟨e, hooo, receive_accounting (.runGuarded (fun _ _ h => h) (fun _ _ _ => endpoints_next)
    sections (.init ⟨0, 0, .inr rfl⟩) hrun)⟩

end Utcp.Accounting
