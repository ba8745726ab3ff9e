import Mathlib.Data.List.Infix
import Utcp.SectionCases
import Utcp.Timeouts

/-!
The sending half of the endpoint that opened the connection: its sequence numbers
and the counters of its ring are positions of the stream the application writes.
-/

namespace Utcp.Sender

open RingMemory
open SerialNumbers
open Traces
open TransitionSystems
open Utcp.Tcp
open Utcp.Utils
open Utcp.Output
open Utcp.CongestionControl
open Utcp.Timers
open Utcp.Input
open Utcp.Api
open Utcp.Steps
open Utcp.Sections
open Utcp.Frames
open Utcp.SendLoop
open Utcp.Opening
open Utcp.Timeouts
open Utcp.SectionCases
open Utcp.Buffers
open Utcp.Wire

variable {Ex : U8 → Prop} {tcb tcb' : Tcb} {log : List Event}
  {written : List U8} {una nxt top low limit : Nat}

/-- The sequence number of a position of the stream: the SYN has number zero. -/
def seqOf (pos : Nat) : U32 := BitVec.ofNat 32 (pos + 1)

/-- A block in `TCP_ESTABLISHED` that has sent the stream up to `top`, goes on at
`nxt`, and knows that all below `una` has arrived. -/
structure Sending (written : List U8) (una nxt top : Nat) (tcb : Tcb) : Prop where
  state : tcb.state = .established
  iss : tcb.iss = 0
  sndUna : tcb.sndUna = seqOf una
  sndNxt : tcb.sndNxt = seqOf nxt
  sndMax : tcb.sndMax = seqOf top
  head : tcb.sendBufHead = BitVec.ofNat 32 una
  tail : tcb.sendBufTail = BitVec.ofNat 32 written.length
  una_le : una ≤ nxt
  nxt_le : nxt ≤ top
  top_le : top ≤ written.length
  room : written.length - una ≤ sendBufSize.toNat
  holds : Holds tcb.sendBuf sendBufSize.toNat una (written.drop una)

/-- A segment of the stream: a SYN comes first, and what it carries is a slice at
its sequence number. -/
structure PartOf (written : List U8) (seg : TcpSegment) : Prop where
  syn : hasFlag seg.hdr.thFlags thSyn = true → seg.hdr.thSeq = 0
  slice : payload seg = [] ∨
    ∃ pos, seg.hdr.thSeq = seqOf pos ∧ payload seg <+: written.drop pos

def EmitsParts (written : List U8) (event : Event) : Prop :=
  ∀ origin timeUs seg, event = .sent origin timeUs seg → PartOf written seg

theorem PartOf.mono {written' : List U8} {seg : TcpSegment} (h : PartOf written seg)
    (hle : written <+: written') : PartOf written' seg := by
  refine ⟨h.syn, h.slice.imp_right ?_⟩
  rintro ⟨pos, hseq, hslice⟩
  exact ⟨pos, hseq, hslice.trans (hle.drop pos)⟩

theorem Sending.same (h : Sending written una nxt top tcb) (hsame : SameSend tcb tcb') :
    Sending written una nxt top tcb' where
  state := hsame.state.trans h.state
  iss := hsame.iss.trans h.iss
  sndUna := hsame.sndUna.trans h.sndUna
  sndNxt := hsame.sndNxt.trans h.sndNxt
  sndMax := hsame.sndMax.trans h.sndMax
  head := hsame.sendBufHead.trans h.head
  tail := hsame.sendBufTail.trans h.tail
  una_le := h.una_le
  nxt_le := h.nxt_le
  top_le := h.top_le
  room := h.room
  holds := by
    rw [hsame.sendBuf]
    exact h.holds

theorem toNat_seqOf {pos : Nat} (h : pos < 2 ^ 31) : (seqOf pos).toNat = pos + 1 := by
  rw [seqOf, BitVec.toNat_ofNat, Nat.mod_eq_of_lt (by omega)]

theorem seqOf_sub (pos : Nat) : seqOf pos - 0 - 1 = BitVec.ofNat 32 pos := by
  have hzero : ∀ x : U32, x - 0 - 1 = x - 1 := fun x => congrArg (· - 1) (BitVec.sub_zero x)
  rw [hzero, seqOf, BitVec.ofNat_add]
  exact BitVec.add_sub_cancel _ _

theorem seqOf_add (pos len : Nat) : seqOf pos + BitVec.ofNat 32 len = seqOf (pos + len) := by
  rw [seqOf, seqOf, ← BitVec.ofNat_add]
  congr 1
  omega

theorem seqGt_seqOf {p q : Nat} (hp : p < 2 ^ 31 - 1) (hq : q < 2 ^ 31 - 1) :
    seqGt (seqOf p) (seqOf q) = true ↔ q < p := by
  have hp' := @toNat_seqOf p (by omega)
  have hq' := @toNat_seqOf q (by omega)
  rw [seqGt, decide_eq_true_eq, sub_pos_iff (by omega) (by omega)]
  omega

theorem seqOf_beyond {pos : Nat} (hpos : pos < 2 ^ 31 - 1) : seqGt (seqOf pos) 0 = true := by
  have hword := @toNat_seqOf pos (by omega)
  rw [seqGt, decide_eq_true_eq, sub_pos_iff (by omega) (by decide)]
  rw [hword]
  exact Nat.succ_pos pos

theorem unsent_toNat {pos : Nat} (hpos : pos ≤ written.length) (hsmall : written.length < 2 ^ 32)
    (htail : tcb.sendBufTail = BitVec.ofNat 32 written.length) :
    (if tcb.sendBufTail > BitVec.ofNat 32 pos then tcb.sendBufTail - BitVec.ofNat 32 pos
      else 0).toNat = written.length - pos := by
  have hlen : (BitVec.ofNat 32 written.length).toNat = written.length := by
    rw [BitVec.toNat_ofNat, Nat.mod_eq_of_lt (by omega)]
  have hword : (BitVec.ofNat 32 pos).toNat = pos := by
    rw [BitVec.toNat_ofNat, Nat.mod_eq_of_lt (by omega)]
  rw [htail]
  split
  · rename_i hgt
    have hlt : (BitVec.ofNat 32 pos).toNat < (BitVec.ofNat 32 written.length).toNat := hgt
    rw [toNat_sub_of_ge (by omega), hlen, hword]
  · rename_i hle
    have hge : ¬ (BitVec.ofNat 32 pos).toNat < (BitVec.ofNat 32 written.length).toNat := hle
    change 0 = _
    omega

/-- Beyond what was sent there is at most a buffer. -/
theorem Sending.written_lt (h : Sending written una nxt top tcb) (hsmall : top < 2 ^ 31 - 1) :
    written.length < 2 ^ 32 := by
  have huna := h.una_le
  have hnxt := h.nxt_le
  have hroom := h.room
  rw [sendBufSize_toNat] at hroom
  omega

theorem Sending.outputBuffered (h : Sending written una nxt top tcb) (hsmall : top < 2 ^ 31 - 1) :
    (outputBuffered tcb).toNat = written.length - nxt := by
  have hle := h.top_le
  have hnxt := h.nxt_le
  have hgt := @seqOf_beyond nxt (by omega)
  have hsent : (if seqGt tcb.sndNxt tcb.iss then tcb.sndNxt - tcb.iss - 1 else 0) =
      BitVec.ofNat 32 nxt := by
    rw [h.sndNxt, h.iss, if_pos hgt, seqOf_sub]
  rw [Output.outputBuffered]
  simp only [hsent]
  exact unsent_toNat (by omega) (h.written_lt hsmall) h.tail

theorem Sending.buffered_seqOf (h : Sending written una nxt top tcb) (hsmall : top < 2 ^ 31 - 1)
    {pos : Nat} (hpos : pos ≤ top) :
    (Output.retransmitBuffered tcb (seqOf pos)).toNat = written.length - pos := by
  have hle := h.top_le
  have hgt : seqOf pos > 0 := by
    change 0 < (seqOf pos).toNat
    rw [toNat_seqOf (by omega)]
    exact Nat.succ_pos pos
  have hsent : (if seqOf pos > tcb.iss then seqOf pos - tcb.iss - 1 else 0) =
      BitVec.ofNat 32 pos := by
    rw [h.iss, if_pos hgt, seqOf_sub]
  rw [Output.retransmitBuffered]
  simp only [hsent]
  exact unsent_toNat (by omega) (h.written_lt hsmall) h.tail

theorem Sending.retransmitBuffered (h : Sending written una nxt top tcb)
    (hsmall : top < 2 ^ 31 - 1) :
    (retransmitBuffered tcb tcb.sndUna).toNat = written.length - una := by
  rw [h.sndUna]
  exact h.buffered_seqOf hsmall (Nat.le_trans h.una_le h.nxt_le)

/-- The bytes that are written and not sent, as the sequence numbers count them. -/
theorem Sending.unsent (h : Sending written una nxt top tcb) (hsmall : top < 2 ^ 31 - 1)
    {pos : Nat} (hpos : pos ≤ top) :
    (tcb.sendBufTail - (seqOf pos - tcb.iss - 1)).toNat = written.length - pos := by
  have hle := h.top_le
  have hlen := h.written_lt hsmall
  have hdistance := @toNat_ofNat_sub_ofNat 32 0#32 written.length pos (by omega) (by omega)
  rw [BitVec.zero_add, BitVec.zero_add] at hdistance
  rw [h.tail, h.iss, seqOf_sub, hdistance]

theorem outputLength_le_buffered : (outputLength tcb).toNat ≤ (outputBuffered tcb).toNat := by
  have hcases : ∀ buffered canSend flight : U32,
      let clipped := if buffered < canSend then buffered else canSend
      let dataLength := if clipped > mss then mss else clipped
      (if dataLength > 0 ∧ dataLength < mss ∧ flight > 0 then 0 else dataLength).toNat ≤
        buffered.toNat := by
    intro buffered canSend flight clipped dataLength
    have hclipped : clipped.toNat = min buffered.toNat canSend.toNat := smaller_toNat ..
    have hdata : dataLength.toNat = min mss.toNat clipped.toNat := smaller_toNat ..
    split
    · exact Nat.zero_le _
    · omega
  unfold outputLength
  split
  · dsimp only
    split
    · exact hcases _ _ _
    · exact Nat.zero_le _
  · exact Nat.zero_le _

theorem consumed_data (dataLength : U32) :
    dataLength + (if false = true then 1 else 0) = BitVec.ofNat 32 dataLength.toNat := by
  rw [BitVec.ofNat_toNat, BitVec.setWidth_eq]
  exact BitVec.add_zero _

theorem partOf_ack (timeUs : U64) (tcb : Tcb) (seq : U32) :
    PartOf written (buildSegment timeUs tcb seq thAck 0) := by
  refine ⟨fun hsyn => absurd (show hasFlag thAck thSyn = true from hsyn) (by decide), .inl ?_⟩
  exact List.eq_nil_of_length_eq_zero (payload_length_buildSegment _ _ _ _ 0 (by decide))

theorem Sending.partOf (h : Sending written una nxt top tcb) (timeUs : U64) {pos : Nat} {len : U32}
    (hpos : una ≤ pos) (hend : pos + len.toNat ≤ written.length) :
    PartOf written (buildSegment timeUs tcb (seqOf pos) thAck len) := by
  refine ⟨fun hsyn => absurd (show hasFlag thAck thSyn = true from hsyn) (by decide), .inr ⟨pos, rfl, ?_⟩⟩
  have hroom := h.room
  have hskip : una + (pos - una) = pos := by omega
  have hread := @ringBufRead_holds tcb.sendBuf sendBufSize len.toNat una (pos - una)
    (written.drop una) divides_sendBufSize h.holds (by rw [List.length_drop]; omega) (by omega)
  rw [hskip, List.drop_drop, hskip] at hread
  rw [payload_buildSegment, h.iss, seqOf_sub, hread]
  exact List.take_prefix _ _

theorem emitsParts_sent {used reserved : U32} {origin : Origin} {timeUs : U64} {seg : TcpSegment}
    (hseg : PartOf written seg) :
    ∀ event ∈ [Event.freeSpace used reserved, .sent origin timeUs seg],
      EmitsParts written event := by
  rintro event hevent origin' timeUs' seg' rfl
  rcases List.mem_cons.mp hevent with hspace | hsent
  · cases hspace
  · cases List.mem_singleton.mp hsent
    exact hseg

theorem Sending.advance (h : Sending written una nxt top tcb) (hsmall : top < 2 ^ 31 - 1)
    {len : Nat} (hlen : nxt + len ≤ written.length) (hend : nxt + len < 2 ^ 31 - 1)
    (tTimer : Timer → U16) (tRtt tRtseq : U32) :
    Sending written una (nxt + len) (max top (nxt + len))
      { tcb with
        sndNxt := tcb.sndNxt + BitVec.ofNat 32 len
        sndMax := nextSndMax tcb (BitVec.ofNat 32 len)
        tTimer, tRtt, tRtseq } := by
  have huna := h.una_le
  have hnxt := h.nxt_le
  have htop := h.top_le
  have hmoved : tcb.sndNxt + BitVec.ofNat 32 len = seqOf (nxt + len) := by
    rw [h.sndNxt, seqOf_add]
  have hraised := @seqGt_seqOf (nxt + len) top (by omega) (by omega)
  have hnext : nextSndMax tcb (BitVec.ofNat 32 len) = seqOf (max top (nxt + len)) := by
    rw [nextSndMax, hmoved, h.sndMax]
    split
    · rename_i hgt
      rw [Nat.max_eq_right (Nat.le_of_lt (hraised.mp hgt))]
    · rename_i hle
      rw [hraised] at hle
      rw [Nat.max_eq_left (by omega)]
  exact ⟨h.state, h.iss, h.sndUna, hmoved, hnext, h.head, h.tail, by omega,
    Nat.le_max_right _ _, Nat.max_le.mpr ⟨htop, hlen⟩, h.room, h.holds⟩

/-- A segment of the receiver acknowledges the position it waits for, at most `limit`. -/
def Acks (limit : Nat) (seg : TcpSegment) : Prop := ∃ pos ≤ limit, seg.hdr.thAck = seqOf pos

/-- In `TCP_ESTABLISHED`, for some positions, with all below `low` and nothing
beyond `limit` acknowledged. -/
def Sends (written : List U8) (low limit : Nat) (tcb : Tcb) : Prop :=
  ∃ una nxt top, (low ≤ una ∧ una ≤ limit) ∧ Sending written una nxt top tcb

theorem outputStep_sends (h : OutputStep tcb log tcb') (hs : Sends written low limit tcb)
    (hsmall : written.length < 2 ^ 31 - 1) :
    Sends written low limit tcb' ∧ ∀ event ∈ log, EmitsParts written event := by
  obtain ⟨una, nxt, top, hlimit, hs⟩ := hs
  have hflags : tcpOutflags tcb.state = thAck := congrArg tcpOutflags hs.state
  cases h with
  | flags => exact ⟨⟨una, nxt, top, hlimit, hs.same ⟨rfl, rfl, rfl, rfl, rfl, rfl, rfl, rfl⟩⟩, by simp⟩
  | delack => exact ⟨⟨una, nxt, top, hlimit, hs.same ⟨rfl, rfl, rfl, rfl, rfl, rfl, rfl, rfl⟩⟩, by simp⟩
  | bare timeUs hlen hsyn =>
      rw [hflags]
      exact ⟨⟨una, nxt, top, hlimit, hs⟩, emitsParts_sent (partOf_ack ..)⟩
  | advance timeUs newSynFin hsyn hadvance =>
      obtain rfl : newSynFin = false := hsyn.symm.trans (noSynFin_established hs.state)
      have hlen : nxt + (outputLength tcb).toNat ≤ written.length := by
        have hle := hs.top_le
        have hnxt := hs.nxt_le
        have hbuffered := hs.outputBuffered (by omega)
        have hshort := @outputLength_le_buffered tcb
        omega
      have htop := hs.top_le
      obtain ⟨tTimer, tRtt, tRtseq, heq⟩ := advanceSndNxt_eq tcb (outputLength tcb) false
      rw [consumed_data] at heq
      have hadvanced := hs.advance (by omega) hlen (by omega) tTimer tRtt tRtseq
      rw [heq, hflags, hs.sndNxt]
      rw [hs.sndNxt] at hadvanced
      refine ⟨⟨una, _, _, hlimit, hadvanced⟩, emitsParts_sent ?_⟩
      exact hs.partOf timeUs hs.una_le hlen

theorem seqOf_sub_seqOf {p q : Nat} (hle : q ≤ p) (hlt : p < 2 ^ 31) :
    (seqOf p - seqOf q).toNat = p - q := by
  have hp := @toNat_seqOf p hlt
  have hq := @toNat_seqOf q (by omega)
  rw [toNat_sub_of_ge (by omega), hp, hq]
  omega

theorem Sending.validAck (h : Sending written una nxt top tcb) (hsmall : top < 2 ^ 31 - 1)
    {ack : U32} (hack : validAck tcb ack = true) : ∃ pos, una < pos ∧ pos ≤ top ∧ ack = seqOf pos := by
  have huna := h.una_le
  have hnxt := h.nxt_le
  have htop := h.top_le
  have hspan := @seqOf_sub_seqOf top una (by omega) (by omega)
  rw [Input.validAck, h.sndUna, h.sndMax, Bool.and_eq_true, seqGt, seqLeq, decide_eq_true_eq,
    decide_eq_true_eq, ← Int.not_lt] at hack
  obtain ⟨hnew, hsent⟩ := hack
  obtain ⟨hpos, hhalf⟩ := (toInt_pos_iff _).mp hnew
  rw [sub_pos_iff_of_base hhalf (by omega)] at hsent
  refine ⟨una + (ack - seqOf una).toNat, by omega, by omega, ?_⟩
  rw [← seqOf_add, BitVec.ofNat_toNat, BitVec.setWidth_eq, BitVec.add_comm, BitVec.sub_add_cancel]

theorem Sending.acceptAck (h : Sending written una nxt top tcb) (hsmall : top < 2 ^ 31 - 1)
    {pos : Nat} (hnew : una < pos) (hsent : pos ≤ top) {hdr : TcpHdr} (hack : hdr.thAck = seqOf pos) :
    Sending written pos (max nxt pos) top (acceptAck tcb hdr) := by
  have huna := h.una_le
  have hnxt := h.nxt_le
  have htop := h.top_le
  have hroom := h.room
  have hgt := @seqGt_seqOf pos nxt (by omega) (by omega)
  have hmoved : (if seqGt (seqOf pos) (seqOf nxt) then seqOf pos else seqOf nxt) =
      seqOf (max nxt pos) := by
    split
    · rename_i hbeyond
      rw [Nat.max_eq_right (Nat.le_of_lt (hgt.mp hbeyond))]
    · rename_i hbelow
      rw [hgt] at hbelow
      rw [Nat.max_eq_left (by omega)]
  have hhead : BitVec.ofNat 32 una + (seqOf pos - seqOf una) = BitVec.ofNat 32 pos := by
    have hdistance := @seqOf_sub_seqOf pos una (by omega) (by omega)
    apply BitVec.eq_of_toNat_eq
    rw [BitVec.toNat_add, hdistance, BitVec.toNat_ofNat, BitVec.toNat_ofNat]
    omega
  have hforgotten := h.holds.forget (pos - una)
  rw [List.drop_drop, show una + (pos - una) = pos by omega] at hforgotten
  rw [Input.acceptAck, hack, h.sndUna, h.sndNxt, h.head, hmoved, hhead]
  exact ⟨h.state, h.iss, rfl, rfl, h.sndMax, rfl, h.tail, Nat.le_max_right _ _, by omega, htop,
    by omega, hforgotten⟩

theorem Sending.retransmit (h : Sending written una nxt top tcb) (hsmall : top < 2 ^ 31 - 1)
    (reading : Reading) :
    ∀ event ∈ utcpRetransmitSegment reading tcb tcb.sndUna, EmitsParts written event := by
  have huna := h.una_le
  have hnxt := h.nxt_le
  have htop := h.top_le
  have hflags : tcpOutflags tcb.state = thAck := congrArg tcpOutflags h.state
  have hbuffered := h.retransmitBuffered hsmall
  have hlen := smaller_toNat (Output.retransmitBuffered tcb tcb.sndUna) mss
  rw [utcpRetransmitSegment, if_neg (not_not.mpr h.state), hflags]
  unfold utcpSendSegment
  split
  · rw [Option.getD_some]
    refine emitsParts_sent ?_
    rw [h.sndUna] at hbuffered hlen ⊢
    exact h.partOf reading.timeUs (Nat.le_refl una) (by omega)
  · simp

theorem seqOf_inj {p q : Nat} (hp : p < 2 ^ 31) (hq : q < 2 ^ 31) (h : seqOf p = seqOf q) : p = q := by
  have hword := congrArg BitVec.toNat h
  rw [toNat_seqOf hp, toNat_seqOf hq] at hword
  exact Nat.succ_inj.mp hword

theorem ackStep_sends (hlimit : limit < 2 ^ 31 - 1) (h : AckStep (Acks limit) tcb log tcb')
    (hs : Sends written low limit tcb) (hsmall : written.length < 2 ^ 31 - 1) :
    Sends written low limit tcb' ∧ ∀ event ∈ log, EmitsParts written event := by
  obtain ⟨una, nxt, top, hbound, hs⟩ := hs
  cases h with
  | options env seg hseg =>
      exact ⟨⟨una, nxt, top, hbound, hs.same (processWindowOption_sameSend ..)⟩, by simp⟩
  | ack seg hseg hack =>
      have htop := hs.top_le
      obtain ⟨pos, hnew, hsent, hpos⟩ := hs.validAck (by omega) hack
      obtain ⟨pos', hpos', heq⟩ := hseg
      obtain rfl : pos' = pos := seqOf_inj (by omega) (by omega) (heq.symm.trans hpos)
      exact ⟨⟨pos', _, top, ⟨by omega, hpos'⟩, hs.acceptAck (by omega) hnew hsent hpos⟩, by simp⟩
  | window seg hseg hack =>
      exact ⟨⟨una, nxt, top, hbound, hs.same ⟨rfl, rfl, rfl, rfl, rfl, rfl, rfl, rfl⟩⟩, by simp⟩
  | sample rttUs =>
      exact ⟨⟨una, nxt, top, hbound, hs.same (ackStep_sameSend (.sample tcb rttUs))⟩, by simp⟩
  | rearm env =>
      refine ⟨⟨una, nxt, top, hbound, hs.same (ackStep_sameSend (.rearm tcb env))⟩, ?_⟩
      unfold rearmRexmt
      split
      · simp
      · dsimp only
        split <;> simp [EmitsParts]
  | congestion =>
      exact ⟨⟨una, nxt, top, hbound, hs.same ⟨rfl, rfl, rfl, rfl, rfl, rfl, rfl, rfl⟩⟩, by simp⟩
  | retransmit reading =>
      exact ⟨⟨una, nxt, top, hbound, hs⟩,
        hs.retransmit (Nat.lt_of_le_of_lt hs.top_le hsmall) reading⟩

theorem receiveStep_sends {In : TcpSegment → Prop} (h : ReceiveStep In tcb log tcb')
    (hs : Sends written low limit tcb) :
    Sends written low limit tcb' ∧ ∀ event ∈ log, EmitsParts written event := by
  obtain ⟨una, nxt, top, hlimit, hs⟩ := hs
  refine ⟨⟨una, nxt, top, hlimit, hs.same (receiveStep_sameSend h)⟩, ?_⟩
  cases h <;> simp [EmitsParts]

theorem Sending.expired (h : Sending written una nxt top tcb) (env : Env) (recover : U32) :
    Sending written una una top (expireRexmt env tcb recover) := by
  obtain ⟨_, _, heq⟩ := expireRexmt_eq env tcb recover
  rw [heq]
  exact ⟨h.state, h.iss, h.sndUna, h.sndUna, h.sndMax, h.head, h.tail, Nat.le_refl una,
    Nat.le_trans h.una_le h.nxt_le, h.top_le, h.room, h.holds⟩

theorem timerStep_sends (h : TimerStep Ex tcb log tcb') (hs : Sends written low limit tcb) :
    Sends written low limit tcb' ∧ ∀ event ∈ log, EmitsParts written event := by
  obtain ⟨una, nxt, top, hlimit, hs⟩ := hs
  cases h with
  | clock => exact ⟨⟨una, nxt, top, hlimit, hs.same ⟨rfl, rfl, rfl, rfl, rfl, rfl, rfl, rfl⟩⟩, by simp⟩
  | countDown =>
      exact ⟨⟨una, nxt, top, hlimit, hs.same ⟨rfl, rfl, rfl, rfl, rfl, rfl, rfl, rfl⟩⟩, by simp⟩
  | rexmt env recover hticks hshift =>
      exact ⟨⟨una, una, top, hlimit, hs.expired env recover⟩, by simp [EmitsParts]⟩
  | other =>
      exact ⟨⟨una, nxt, top, hlimit, hs.same ⟨rfl, rfl, rfl, rfl, rfl, rfl, rfl, rfl⟩⟩,
        by simp [EmitsParts]⟩

theorem tcbStep_sends (hlimit : limit < 2 ^ 31 - 1) (h : TcbStep (Acks limit) Ex tcb log tcb')
    (hs : Sends written low limit tcb) (hsmall : written.length < 2 ^ 31 - 1) :
    Sends written low limit tcb' ∧ ∀ event ∈ log, EmitsParts written event := by
  cases h with
  | output h => exact outputStep_sends h hs hsmall
  | receive _ h => exact receiveStep_sends h hs
  | ack _ h => exact ackStep_sends hlimit h hs hsmall
  | timer h => exact timerStep_sends h hs
  | opening h =>
      -- the steps of the handshake start in other states
      obtain ⟨una, nxt, top, -, hs⟩ := hs
      have hstate := hs.state
      cases h with
      | connect ip port hclosed => exact absurd (hclosed.symm.trans hstate) (by decide)
      | syn env seg peer hseg hlisten => exact absurd (hlisten.symm.trans hstate) (by decide)
      | synAck env seg hseg hsent => exact absurd (hsent.symm.trans hstate) (by decide)
      | finalAck seg hseg hrecv => exact absurd (hrecv.symm.trans hstate) (by decide)

theorem Sending.write (h : Sending written una nxt top tcb) {chunk : List U8}
    (hroom : chunk.length ≤ (sendFreeSpace tcb).toNat) :
    Sending (written ++ chunk) una nxt top (writeChunk tcb chunk) := by
  have huna := h.una_le
  have hnxt := h.nxt_le
  have htop := h.top_le
  have hused := h.room
  have hheld : (written.drop una).length = written.length - una := List.length_drop
  have hlen : (written ++ chunk).length = written.length + chunk.length := List.length_append
  have hfree : (sendFreeSpace tcb).toNat = sendBufSize.toNat - (written.length - una) := by
    have hdistance := @toNat_ofNat_sub_ofNat 32 0#32 written.length una (by omega) (by omega)
    rw [BitVec.zero_add, BitVec.zero_add] at hdistance
    rw [sendFreeSpace, h.tail, h.head, toNat_sub_of_ge (by omega), hdistance]
  have hwritten := holds_ringBufWrite divides_sendBufSize h.holds
    (show (written.drop una).length + chunk.length ≤ sendBufSize.toNat by omega)
  have hend : una + (written.drop una).length = written.length := by omega
  have hdrop : (written ++ chunk).drop una = written.drop una ++ chunk :=
    List.drop_append_of_le_length (by omega)
  rw [hend, ← h.tail, ← hdrop] at hwritten
  rw [writeChunk]
  refine ⟨h.state, h.iss, h.sndUna, h.sndNxt, h.sndMax, h.head, ?_, huna, hnxt, ?_, ?_, hwritten⟩
  · rw [hlen, BitVec.ofNat_add, ← h.tail]
  · omega
  · omega

theorem takeBytes_sameSend (tcb : Tcb) (n : Nat) : SameSend tcb (takeBytes tcb n) := by
  rw [takeBytes]
  exact ⟨rfl, rfl, rfl, rfl, rfl, rfl, rfl, rfl⟩

theorem endpointStep_written {In : TcpSegment → Prop} {e e' : Endpoint} (h : EndpointStep In Ex e log e') :
    e.written <+: e'.written := by
  cases h with
  | write n => exact List.prefix_append _ _
  | _ => exact List.prefix_rfl

theorem endpointStep_sends {stream : List U8} (hstream : stream.length < 2 ^ 31 - 1)
    (hlimit : limit < 2 ^ 31 - 1) {e e' : Endpoint}
    (h : EndpointStep (Acks limit) Ex e log e') (hle : e'.written <+: stream)
    (hs : Sends e.written low limit e.tcb) :
    Sends e'.written low limit e'.tcb ∧ ∀ event ∈ log, EmitsParts stream event := by
  have hsmall : e.written.length < 2 ^ 31 - 1 :=
    Nat.lt_of_le_of_lt ((endpointStep_written h).trans hle).length_le hstream
  cases h with
  | tcb h =>
      obtain ⟨hs', hlog⟩ := tcbStep_sends hlimit h hs hsmall
      refine ⟨hs', fun event hevent origin timeUs seg heq => ?_⟩
      exact (hlog event hevent origin timeUs seg heq).mono hle
  | call => exact ⟨hs, by simp⟩
  | write n hstate hroom hn =>
      obtain ⟨una, nxt, top, hbound, hs⟩ := hs
      refine ⟨⟨una, nxt, top, hbound, hs.write ?_⟩, by simp⟩
      rw [List.length_take]
      omega
  | read n hstate hn =>
      obtain ⟨una, nxt, top, hbound, hs⟩ := hs
      exact ⟨⟨una, nxt, top, hbound, hs.same (takeBytes_sameSend ..)⟩, by simp⟩

theorem trace_sends {stream : List U8} (hstream : stream.length < 2 ^ 31 - 1)
    (hlimit : limit < 2 ^ 31 - 1) {e e' : Endpoint}
    (h : Trace (EndpointStep (Acks limit) Ex) e log e') (hle : e'.written <+: stream)
    (hs : Sends e.written low limit e.tcb) :
    Sends e'.written low limit e'.tcb ∧ ∀ event ∈ log, EmitsParts stream event := by
  refine @Trace.events_under _ _ _ (fun e => Sends e.written low limit e.tcb)
    (fun e => e.written <+: stream) _ ?_ ?_ _ _ _ h hle hs
  · exact fun _ _ _ hstep hle => (endpointStep_written hstep).trans hle
  · exact fun _ _ _ hstep hle hs => endpointStep_sends hstream hlimit hstep hle hs

theorem run_written {e e' : Endpoint} {s : Section} (h : e.run s = some (e', log)) :
    e.written <+: e'.written := by
  have htrace : Trace (EndpointStep (fun _ => True) fun _ => True) e log e' :=
    run_trace (fun _ _ _ _ => trivial) (fun _ _ _ => trivial) h
  exact htrace.invariant (I := fun e'' => e.written <+: e''.written)
    (fun _ _ _ hstep hle => hle.trans (endpointStep_written hstep)) List.prefix_rfl

/-- A block that has asked for a connection and nothing else: the SYN could not be
allocated, or it was sent and may have timed out since. -/
structure Opening (tcb : Tcb) : Prop where
  state : tcb.state = .synSent
  iss : tcb.iss = 0
  sndUna : tcb.sndUna = 0
  head : tcb.sendBufHead = 0
  tail : tcb.sendBufTail = 0
  acknow : tcb.tfAcknow = false
  delack : tcb.tTimer .delack = 0
  syn : (tcb.sndNxt = 0 ∧ tcb.sndMax = 0 ∧ tcb.tTimer .rexmt = 0) ∨
    (tcb.sndMax = 1 ∧ (tcb.sndNxt = 0 ∨ tcb.sndNxt = 1))

theorem emits_of_segments {segs : List TcpSegment} (hlog : segments log = segs)
    (hsegs : ∀ seg ∈ segs, PartOf written seg) : ∀ event ∈ log, EmitsParts written event := by
  rintro event hevent origin timeUs seg rfl
  apply hsegs
  rw [← hlog]
  exact mem_segments.mpr ⟨origin, timeUs, hevent⟩

theorem partOf_syn (timeUs : U64) (tcb : Tcb) : PartOf written (buildSegment timeUs tcb 0 thSyn 0) :=
  ⟨fun _ => rfl,
    .inl (List.eq_nil_of_length_eq_zero (payload_length_buildSegment _ _ _ _ 0 (by decide)))⟩

theorem Opening.notEstablished (h : Opening tcb) : tcb.state ≠ .established := by
  rw [h.state]
  decide

theorem expireRexmt_delack (env : Env) (tcb : Tcb) (recover : U32) :
    (expireRexmt env tcb recover).tTimer .delack = tcb.tTimer .delack := by
  rw [expireRexmt, ccTimeout]
  rfl

theorem Opening.expires (h : Opening tcb) (hticks : tcb.tTimer .rexmt = 1) (env : Env)
    (recover : U32) :
    Opening (expireRexmt env tcb recover) ∧
      utcpOutput env.output (expireRexmt env tcb recover) =
        ⟨expireRexmt env tcb recover, []⟩ := by
  have hmax : tcb.sndMax = 1 := by
    rcases h.syn with ⟨-, -, hoff⟩ | ⟨hmax, -⟩
    · rw [hoff] at hticks
      exact absurd hticks (by decide)
    · exact hmax
  have hdelack := expireRexmt_delack env tcb recover
  obtain ⟨tTimer, ssthresh, heq⟩ := expireRexmt_eq env tcb recover
  rw [heq] at hdelack ⊢
  have hopening : Opening
      { tcb with
        tTimer, ssthresh, recover
        tRxtshift := tcb.tRxtshift + 1
        sndNxt := tcb.sndUna
        tRtt := 0
        cwnd := mss
        caState := .loss } :=
    ⟨h.state, h.iss, h.sndUna, h.head, h.tail, h.acknow, hdelack.trans h.delack,
      .inr ⟨hmax, .inl h.sndUna⟩⟩
  refine ⟨hopening, utcpOutput_outstanding env.output hopening.notEstablished h.acknow ?_⟩
  dsimp only
  rw [h.sndUna, hmax]
  decide

theorem Opening.tick {env : Env} {timer : Timer} {out : Out} (h : Opening tcb)
    (htick : TickCases env tcb timer out) : Opening out.tcb ∧ segments out.log = [] := by
  have hset : ∀ timer ticks, timer ≠ .delack → timer ≠ .rexmt → Opening (setTimer tcb timer ticks) := by
    intro timer ticks hdelack hrexmt
    refine ⟨h.state, h.iss, h.sndUna, h.head, h.tail, h.acknow, ?_, ?_⟩
    · exact (if_neg hdelack.symm).trans h.delack
    · refine h.syn.imp_left fun ⟨hnxt, hmax, hoff⟩ => ⟨hnxt, hmax, ?_⟩
      exact (if_neg hrexmt.symm).trans hoff
  cases htick with
  | idle => exact ⟨h, rfl⟩
  | countDown timer hticks =>
      refine ⟨?_, rfl⟩
      have hoff : timer ≠ .delack := by
        rintro rfl
        rw [h.delack] at hticks
        exact absurd hticks (by decide)
      refine ⟨h.state, h.iss, h.sndUna, h.head, h.tail, h.acknow, ?_, ?_⟩
      · exact (if_neg hoff.symm).trans h.delack
      · refine h.syn.imp_left fun ⟨hnxt, hmax, hrexmt⟩ => ⟨hnxt, hmax, ?_⟩
        have hother : timer ≠ .rexmt := by
          rintro rfl
          rw [hrexmt] at hticks
          exact absurd hticks (by decide)
        exact (if_neg hother.symm).trans hrexmt
  | rexmt recover hticks hcc =>
      obtain ⟨hopening, hquiet⟩ := h.expires hticks env recover
      rw [hquiet]
      exact ⟨hopening, rfl⟩
  | delack hticks =>
      rw [h.delack] at hticks
      exact absurd hticks (by decide)
  | other timer hticks hrexmt hdelack => exact ⟨hset timer 0 hdelack hrexmt, rfl⟩

theorem Opening.slowtimo {envs : Timer → Env} {out : Out} (h : Opening tcb)
    (hout : utcpSlowtimo envs tcb = some out) : Opening out.tcb ∧ segments out.log = [] := by
  have hcomposes : Composes fun tcb log tcb' => Opening tcb → Opening tcb' ∧ segments log = [] := by
    refine ⟨fun tcb h => ⟨h, rfl⟩, fun hab hbc ha => ?_⟩
    obtain ⟨hb, hlog⟩ := hab ha
    obtain ⟨hc, hlog'⟩ := hbc hb
    exact ⟨hc, by rw [segments_append, hlog, hlog', List.append_nil]⟩
  refine utcpSlowtimo_composes hcomposes (fun _ _ _ htick h => h.tick htick) ?_ hout h
  exact fun h => ⟨⟨h.state, h.iss, h.sndUna, h.head, h.tail, h.acknow, h.delack, h.syn⟩, rfl⟩

/-- A socket before `utcp_connect`. -/
structure Idle (tcb : Tcb) : Prop where
  state : tcb.state = .closed
  iss : tcb.iss = 0
  sndUna : tcb.sndUna = 0
  sndNxt : tcb.sndNxt = 0
  sndMax : tcb.sndMax = 0
  head : tcb.sendBufHead = 0
  tail : tcb.sendBufTail = 0
  acknow : tcb.tfAcknow = false
  timers : ∀ timer, tcb.tTimer timer = 0

theorem Opening.cancelDelack (h : Opening tcb) :
    Opening (cancelDelack { tcb with tfAcknow := false }) := by
  have hdelack : (setTimer tcb .delack 0).tTimer .delack = 0 := by simp [setTimer]
  have hrexmt : (setTimer tcb .delack 0).tTimer .rexmt = tcb.tTimer .rexmt := by simp [setTimer]
  unfold Output.cancelDelack
  split
  · refine ⟨h.state, h.iss, h.sndUna, h.head, h.tail, rfl, hdelack, ?_⟩
    refine h.syn.imp_left ?_
    rintro ⟨hnxt, hmax, hoff⟩
    exact ⟨hnxt, hmax, hrexmt.trans hoff⟩
  · exact ⟨h.state, h.iss, h.sndUna, h.head, h.tail, rfl, h.delack, h.syn⟩

theorem cancelDelack_sndMax (tcb : Tcb) : (cancelDelack tcb).sndMax = tcb.sndMax := by
  unfold cancelDelack
  split <;> rfl

theorem advanceSndNxt_tTimer (tcb : Tcb) (dataLength : U32) (newSynFin : Bool) :
    (advanceSndNxt tcb dataLength newSynFin).tTimer = (armRexmt tcb).tTimer := by
  have hraise : ∀ t : Tcb, (raiseSndMax t).tTimer = t.tTimer := by
    intro t
    unfold raiseSndMax
    split <;> rfl
  have htiming : (startTiming tcb dataLength).tTimer = tcb.tTimer ∧
      (startTiming tcb dataLength).tRxtcur = tcb.tRxtcur := by
    unfold startTiming
    split <;> exact ⟨rfl, rfl⟩
  have harm : ∀ t t' : Tcb, t.tTimer = t'.tTimer → t.tRxtcur = t'.tRxtcur →
      (armRexmt t).tTimer = (armRexmt t').tTimer := by
    intro t t' htimer hcur
    unfold armRexmt
    rw [htimer, hcur]
    split
    · simp only [setTimer, htimer]
    · exact htimer
  rw [advanceSndNxt, hraise]
  exact harm _ _ htiming.1 htiming.2

theorem advanceSndNxt_other (tcb : Tcb) (dataLength : U32) (newSynFin : Bool) {timer : Timer}
    (hother : timer ≠ .rexmt) :
    (advanceSndNxt tcb dataLength newSynFin).tTimer timer = tcb.tTimer timer := by
  rw [advanceSndNxt_tTimer]
  unfold armRexmt
  split
  · simp [setTimer, hother]
  · rfl

theorem Opening.syn_sent (h : Opening tcb) (hnxt : tcb.sndNxt = 0) (hmax : tcb.sndMax = 0) :
    Opening (advanceSndNxt tcb 0 true) := by
  have hdelack := @advanceSndNxt_other tcb 0 true .delack (by decide)
  obtain ⟨tTimer, tRtt, tRtseq, heq⟩ := advanceSndNxt_eq tcb 0 true
  rw [heq] at hdelack ⊢
  have hsent : nextSndMax tcb (0 + if true = true then 1 else 0) = 1 := by
    rw [nextSndMax, hnxt, hmax]
    decide
  refine ⟨h.state, h.iss, h.sndUna, h.head, h.tail, h.acknow, hdelack.trans h.delack,
    .inr ⟨hsent, .inr ?_⟩⟩
  change tcb.sndNxt + _ = 1
  rw [hnxt]
  decide

theorem Idle.connect (h : Idle tcb) (env : Env) (ip : U32) (port : U16) :
    Opening (utcpConnect env tcb ip port).tcb ∧
      ∀ event ∈ (utcpConnect env tcb ip port).log, EmitsParts written event := by
  let asked : Tcb :=
    { tcb with dstIp := ip, dstPort := port, dstUdpPort := 1970, state := .synSent }
  have hopening : Opening asked :=
    ⟨rfl, h.iss, h.sndUna, h.head, h.tail, h.acknow, h.timers .delack,
      .inl ⟨h.sndNxt, h.sndMax, h.timers .rexmt⟩⟩
  have hends := utcpOutput_ends env.output hopening.notEstablished
  change Opening (utcpOutput env.output asked).tcb ∧
    ∀ event ∈ (utcpOutput env.output asked).log, EmitsParts written event
  have hnew : sendingNewSynFin (tcpOutflags asked.state) asked = true := by
    have hsame : asked.sndNxt = asked.sndMax := h.sndNxt.trans h.sndMax.symm
    rw [sendingNewSynFin, hsame, beq_self_eq_true]
    change (hasFlag (tcpOutflags .synSent) (thSyn ||| thFin) && true) = true
    decide
  generalize utcpOutput env.output asked = out at hends ⊢
  cases hends with
  | quiet hsyn => exact absurd (hsyn.symm.trans hnew) (by decide)
  | failed halloc hcause => exact ⟨hopening.cancelDelack, by simp⟩
  | bare hsyn => exact absurd (hsyn.symm.trans hnew) (by decide)
  | syn hsyn log hlog =>
      refine ⟨?_, emits_of_segments hlog ?_⟩
      · refine hopening.cancelDelack.syn_sent ?_ ?_
        · rw [cancelDelack_sndNxt]
          exact h.sndNxt
        · rw [cancelDelack_sndMax]
          exact h.sndMax
      · intro seg hseg
        rw [List.mem_singleton.mp hseg, show asked.sndNxt = 0 from h.sndNxt]
        exact partOf_syn _ _

theorem Opening.sending (h : Opening tcb) (env : Env) {seg : TcpSegment} (hack : seg.hdr.thAck = 1)
    (hsent : seg.hdr.thAck = tcb.sndNxt) : Sending [] 0 0 0 (acceptSynAck env tcb seg) := by
  let opened : Tcb :=
    { tcb with
      sndUna := seg.hdr.thAck
      irs := seg.hdr.thSeq
      rcvNxt := seg.hdr.thSeq + 1
      state := .established }
  have hmax : tcb.sndMax = 1 := by
    rcases h.syn with ⟨hnxt, -, -⟩ | ⟨hmax, -⟩
    · rw [hack, hnxt] at hsent
      exact absurd hsent (by decide)
    · exact hmax
  have hopened : Sending [] 0 0 0 opened :=
    ⟨rfl, h.iss, hack, hsent.symm.trans hack, hmax, h.head, h.tail, Nat.le_refl 0, Nat.le_refl 0,
      Nat.le_refl 0, Nat.zero_le _, holds_nil⟩
  have hrest : ∀ (t : Tcb) (sndWnd : U32),
      SameSend t { setTimer { t with sndWnd } .rexmt 0 with tRxtshift := 0 } :=
    fun _ _ => ⟨rfl, rfl, rfl, rfl, rfl, rfl, rfl, rfl⟩
  have hoptions := hopened.same (processWindowOption_sameSend env seg opened)
  exact hoptions.same (hrest _ (getScaledWin (processWindowOption env seg opened) seg.hdr))

theorem Opening.awaited (h : Opening tcb) {seg : TcpSegment} (hawaited : isAwaitedSynAck tcb seg.hdr)
    (hack : seg.hdr.thAck ≠ 0) : seg.hdr.thAck = 1 ∧ seg.hdr.thAck = tcb.sndNxt := by
  have hsent : seg.hdr.thAck = tcb.sndNxt := by
    rw [isAwaitedSynAck, Bool.and_eq_true, beq_iff_eq] at hawaited
    exact hawaited.2
  refine ⟨?_, hsent⟩
  rcases h.syn with ⟨hnxt, -, -⟩ | ⟨-, hnxt | hnxt⟩
  · exact absurd (hsent.trans hnxt) hack
  · exact absurd (hsent.trans hnxt) hack
  · exact hsent.trans hnxt

theorem Opening.synAck (h : Opening tcb) (env : Env) {seg : TcpSegment} {cc : Out}
    (hawaited : isAwaitedSynAck tcb seg.hdr) (hack : seg.hdr.thAck ≠ 0)
    (hcc : congControl env (acceptSynAck env tcb seg) .init = some cc) :
    Sends [] 0 0 (utcpOutput env.output (setAcknow cc.tcb)).tcb ∧
      ∀ event ∈ cc.log ++ (utcpOutput env.output (setAcknow cc.tcb)).log,
        EmitsParts [] event := by
  obtain ⟨hone, hsent⟩ := h.awaited hawaited hack
  obtain ⟨recover, hinit⟩ := congControl_init env (acceptSynAck env tcb seg)
  obtain rfl : _ = cc := Option.some.inj (hinit.symm.trans hcc)
  have hstarted : ∀ t : Tcb, SameSend t (setAcknow { ccInit t with recover }) :=
    fun _ => ⟨rfl, rfl, rfl, rfl, rfl, rfl, rfl, rfl⟩
  have hsends : Sends [] 0 0 (setAcknow { ccInit (acceptSynAck env tcb seg) with recover }) :=
    ⟨0, 0, 0, ⟨Nat.le_refl 0, Nat.le_refl 0⟩, (h.sending env hone hsent).same (hstarted _)⟩
  have htrace := utcpOutput_trace env.output
    (setAcknow { ccInit (acceptSynAck env tcb seg) with recover })
  rw [List.nil_append]
  exact htrace.events (fun _ _ _ hstep hs => outputStep_sends hstep hs (by decide)) hsends

/-- The endpoint that opens the connection, before, in and after the handshake. -/
inductive Client (low limit : Nat) (e : Endpoint) : Prop
  | idle (h : Idle e.tcb) (hwritten : e.written = []) (hlow : low = 0)
  | opening (h : Opening e.tcb) (hwritten : e.written = []) (hlow : low = 0)
  | sends (h : Sends e.written low limit e.tcb)

theorem Client.start (ip : U32) (port : U16) : Client 0 limit (.start (utcpBind utcpSocket ip port)) :=
  .idle ⟨rfl, rfl, rfl, rfl, rfl, rfl, rfl, rfl, fun _ => rfl⟩ rfl rfl

theorem Sends.mono {limit' : Nat} (h : Sends written low limit tcb) (hle : limit ≤ limit') :
    Sends written low limit' tcb := by
  obtain ⟨una, nxt, top, hbound, hs⟩ := h
  exact ⟨una, nxt, top, ⟨hbound.1, Nat.le_trans hbound.2 hle⟩, hs⟩

theorem Client.mono {limit' : Nat} {e : Endpoint} (h : Client low limit e) (hle : limit ≤ limit') :
    Client low limit' e := by
  cases h with
  | idle h hwritten hlow => exact .idle h hwritten hlow
  | opening h hwritten hlow => exact .opening h hwritten hlow
  | sends h => exact .sends (h.mono hle)

/-- How much of the stream the endpoint knows to have arrived. -/
def ackedOf (e : Endpoint) : Nat := e.tcb.sendBufHead.toNat

theorem Sending.ackedOf {e : Endpoint} (h : Sending e.written una nxt top e.tcb)
    (hsmall : top < 2 ^ 31 - 1) : ackedOf e = una := by
  have huna := h.una_le
  have hnxt := h.nxt_le
  have htop := h.top_le
  rw [Sender.ackedOf, h.head, BitVec.toNat_ofNat, Nat.mod_eq_of_lt (by omega)]

theorem Client.bounds {e : Endpoint} (h : Client low limit e)
    (hsmall : e.written.length < 2 ^ 31 - 1) :
    low ≤ ackedOf e ∧ ackedOf e ≤ limit ∧ ackedOf e ≤ e.written.length := by
  cases h with
  | idle h hwritten hlow =>
      rw [ackedOf, h.head, hlow]
      exact ⟨Nat.le_refl _, Nat.zero_le _, Nat.zero_le _⟩
  | opening h hwritten hlow =>
      rw [ackedOf, h.head, hlow]
      exact ⟨Nat.le_refl _, Nat.zero_le _, Nat.zero_le _⟩
  | sends h =>
      obtain ⟨una, nxt, top, hbound, hs⟩ := h
      rw [hs.ackedOf (Nat.lt_of_le_of_lt hs.top_le hsmall)]
      exact ⟨hbound.1, hbound.2, Nat.le_trans hs.una_le (Nat.le_trans hs.nxt_le hs.top_le)⟩

theorem Client.exact {e : Endpoint} (h : Client low limit e)
    (hsmall : e.written.length < 2 ^ 31 - 1) : Client (ackedOf e) limit e := by
  cases h with
  | idle h hwritten hlow => exact .idle h hwritten (congrArg BitVec.toNat h.head)
  | opening h hwritten hlow => exact .opening h hwritten (congrArg BitVec.toNat h.head)
  | sends h =>
      obtain ⟨una, nxt, top, hbound, hs⟩ := h
      exact .sends ⟨una, nxt, top, ⟨Nat.le_of_eq (hs.ackedOf (Nat.lt_of_le_of_lt hs.top_le hsmall)), hbound.2⟩, hs⟩

theorem Acks.mono {limit' : Nat} {seg : TcpSegment} (h : Acks limit seg) (hle : limit ≤ limit') :
    Acks limit' seg := by
  obtain ⟨pos, hpos, hack⟩ := h
  exact ⟨pos, Nat.le_trans hpos hle, hack⟩

theorem Acks.ne_zero {seg : TcpSegment} (h : Acks limit seg) (hlimit : limit < 2 ^ 31 - 1) :
    seg.hdr.thAck ≠ 0 := by
  obtain ⟨pos, hpos, hack⟩ := h
  intro hzero
  have hword := congrArg BitVec.toNat (hack.symm.trans hzero)
  rw [toNat_seqOf (by omega)] at hword
  exact absurd hword (Nat.succ_ne_zero pos)

theorem run_unopened {e e' : Endpoint} {s : Section} (hnot : e.tcb.state ≠ .established)
    (hrun : e.run s = some (e', log)) : e'.written = e.written := by
  have hcall : ∀ {P : Prop}, ¬ (e.tcb.state = .established ∧ P) := fun hcall => hnot hcall.1
  cases s with
  | connect env ip port =>
      simp only [Endpoint.run] at hrun
      split at hrun
      · cases hrun
        rfl
      · cases hrun
  | input env seg peer =>
      obtain ⟨out, hout, hrun⟩ := Option.map_eq_some_iff.mp hrun
      cases hrun
      rfl
  | slowtimo envs =>
      obtain ⟨out, hout, hrun⟩ := Option.map_eq_some_iff.mp hrun
      cases hrun
      rfl
  | send envs bytes =>
      simp only [Endpoint.run] at hrun
      rw [if_neg hcall] at hrun
      cases hrun
  | wake envs =>
      simp only [Endpoint.run] at hrun
      rw [if_neg hcall] at hrun
      cases hrun
  | read env len =>
      simp only [Endpoint.run] at hrun
      rw [if_neg hcall] at hrun
      cases hrun

theorem Idle.run {stream : List U8} {s : Section} {out : Out} (h : Idle tcb)
    (hout : RunCases tcb s out) :
    (Idle out.tcb ∨ Opening out.tcb) ∧ ∀ event ∈ out.log, EmitsParts stream event := by
  have hstate := h.state
  cases hout with
  | connect env ip port hclosed =>
      obtain ⟨hopening, hlog⟩ := h.connect env ip port
      exact ⟨.inr hopening, hlog⟩
  | input env seg peer out hin =>
      cases hin with
      | syn hlisten => exact absurd (hlisten.symm.trans hstate) (by decide)
      | synAck cc hsent => exact absurd (hsent.symm.trans hstate) (by decide)
      | finalAck cc rest hrecv => exact absurd (hrecv.symm.trans hstate) (by decide)
      | received _ hreceiving =>
          rcases hreceiving with hother | hother <;>
            exact absurd (hother.symm.trans hstate) (by decide)
      | ignored => exact ⟨.inl h, by simp⟩
  | slowtimo envs out hslow =>
      rw [utcpSlowtimo, if_pos hstate] at hslow
      cases hslow
      exact ⟨.inl h, by simp⟩
  | send envs bytes hother => exact absurd (hother.symm.trans hstate) (by decide)
  | wake envs bytes hother => exact absurd (hother.symm.trans hstate) (by decide)
  | read env len out hother => exact absurd (hother.symm.trans hstate) (by decide)

theorem Opening.run {stream : List U8} {s : Section} {out : Out} (hlimit : limit < 2 ^ 31 - 1)
    (h : Opening tcb) (hin : ∀ env seg peer, s = .input env seg peer → Acks limit seg)
    (hout : RunCases tcb s out) :
    (Opening out.tcb ∨ Sends [] 0 limit out.tcb) ∧ ∀ event ∈ out.log, EmitsParts stream event := by
  have hstate := h.state
  cases hout with
  | connect env ip port hother => exact absurd (hother.symm.trans hstate) (by decide)
  | input env seg peer out hcases =>
      cases hcases with
      | syn hother => exact absurd (hother.symm.trans hstate) (by decide)
      | synAck cc hsent hawaited hcc =>
          have hack := (hin env seg peer rfl).ne_zero hlimit
          obtain ⟨hsends, hlog⟩ := h.synAck env hawaited hack hcc
          refine ⟨.inr (hsends.mono (Nat.zero_le limit)), fun event hevent origin timeUs seg' heq => ?_⟩
          exact (hlog event hevent origin timeUs seg' heq).mono (List.nil_prefix)
      | finalAck cc rest hother => exact absurd (hother.symm.trans hstate) (by decide)
      | received _ hreceiving =>
          rcases hreceiving with hother | hother <;>
            exact absurd (hother.symm.trans hstate) (by decide)
      | ignored => exact ⟨.inl h, by simp⟩
  | slowtimo envs out hslow =>
      obtain ⟨hopening, hlog⟩ := h.slowtimo hslow
      exact ⟨.inl hopening, emits_of_segments hlog (by simp)⟩
  | send envs bytes hother => exact absurd (hother.symm.trans hstate) (by decide)
  | wake envs bytes hother => exact absurd (hother.symm.trans hstate) (by decide)
  | read env len out hother => exact absurd (hother.symm.trans hstate) (by decide)

/-- One critical section of the endpoint that opens the connection. -/
theorem run_client {stream : List U8} (hstream : stream.length < 2 ^ 31 - 1)
    (hlimit : limit < 2 ^ 31 - 1) {e e' : Endpoint} {s : Section} (h : Client low limit e)
    (hin : ∀ env seg peer, s = .input env seg peer → Acks limit seg)
    (hle : e'.written <+: stream) (hrun : e.run s = some (e', log)) :
    Client low limit e' ∧ ∀ event ∈ log, EmitsParts stream event := by
  obtain ⟨out, hout, hran⟩ := run_cases hrun
  cases h with
  | idle hidle hwritten hlow =>
      have hnot : e.tcb.state ≠ .established := fun heq => absurd (heq.symm.trans hidle.state) (by decide)
      have hwritten' := (run_unopened hnot hrun).trans hwritten
      obtain ⟨hnext, hlog⟩ := @Idle.run e.tcb stream s out hidle hout
      rw [hran.log_eq]
      rw [← hran.tcb_eq] at hnext
      refine ⟨?_, hlog⟩
      rcases hnext with hnext | hnext
      · exact .idle hnext hwritten' hlow
      · exact .opening hnext hwritten' hlow
  | opening hopening hwritten hlow =>
      have hwritten' := (run_unopened hopening.notEstablished hrun).trans hwritten
      obtain ⟨hnext, hlog⟩ := @Opening.run e.tcb limit stream s out hlimit hopening hin hout
      rw [hran.log_eq]
      rw [← hran.tcb_eq] at hnext
      refine ⟨?_, hlog⟩
      rcases hnext with hnext | hnext
      · exact .opening hnext hwritten' hlow
      · rw [← hwritten', ← hlow] at hnext
        exact .sends hnext
  | sends hsends =>
      have htrace : Trace (EndpointStep (Acks limit) fun _ => True) e log e' :=
        run_trace hin (fun _ _ _ => trivial) hrun
      obtain ⟨hsends', hlog⟩ := trace_sends hstream hlimit htrace hle hsends
      exact ⟨.sends hsends', hlog⟩

end Utcp.Sender
