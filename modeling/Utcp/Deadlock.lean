import Utcp.Handshake
import Utcp.LongRuns
import Utcp.Rearming

/-!
A sender with something left. While its window is open the retransmission timer puts a
segment on the wire. When the window is shut nothing does: `TCPT_PERSIST` is never armed, so
once the update is lost both ends wait.
-/

namespace Utcp.Deadlock

open SerialNumbers
open Traces
open TransitionSystems
open Utcp.Tcp
open Utcp.Utils
open Utcp.Output
open Utcp.CongestionControl
open Utcp.Timers
open Utcp.Input
open Utcp.Api
open Utcp.Network
open Utcp.Steps
open Utcp.Sections
open Utcp.Frames
open Utcp.SendLoop
open Utcp.Timeouts
open Utcp.SectionCases
open Utcp.Backoff
open Utcp.Sender
open Utcp.Wire
open Utcp.Karn
open Utcp.Handshake
open Utcp.Stalls
open Utcp.Rearming
open Utcp.Alignment
open Utcp.Accounting
open Utcp.LongRuns
open Utcp.Reliable

variable {env : Env} {tcb tcb' : Tcb} {seg : TcpSegment} {log : List Event} {e e' : Endpoint}
  {s : Section} {n n' : Net} {a : Action}

/-- The timer runs, and the tick on which it expires puts a segment on the wire. -/
def Wakes (tcb : Tcb) (timer : Timer) : Prop :=
  0 < (tcb.tTimer timer).toInt ∧
    ∀ env, EnvAllocates env → ∃ out, tickTimer env (setTimer tcb timer 1) timer = some out ∧
      segments out.log ≠ []

/-- The handshake goes in order, every segment gets its memory and is answered, and the
retransmission timer stays in its table. -/
structure Orderly (e : Endpoint) (s : Section) : Prop where
  prompt : Prompt e s
  sends : KeepsSending e s
  inTable : ExpiresInTable e s

/-- What holds of an endpoint in ESTABLISHED. -/
structure Stays (e : Endpoint) : Prop where
  stands : Stands e
  timed : Timed e.tcb
  armed : e.tcb.state = .established → Armed e.tcb

theorem armed_positioned (h : Positioned [] tcb) : Armed tcb := by
  obtain ⟨una, nxt, top, -, hs⟩ := h
  exact armed_unwritten ⟨una, nxt, top, ⟨Nat.le_refl una, Nat.le_refl una⟩, hs⟩

theorem run_stays (h : Stays e) (hok : Orderly e s) (hshort : Short log)
    (hrun : e.run s = some (e', log)) : Stays e' := by
  have hstands' := (run_lands h.stands hok.prompt (.inl hshort) hrun).1
  obtain ⟨htimed', harmed'⟩ := run_timed h.timed hok.inTable hrun
  refine ⟨hstands', htimed', fun hstate' => ?_⟩
  by_cases hstate : e.tcb.state = .established
  · exact harmed' hstate (h.armed hstate)
  · -- the handshake just ended, and nothing is written yet
    have hpositioned := hstands'.positioned hstate'
    rw [run_unopened hstate hrun, h.stands.unwritten hstate] at hpositioned
    exact armed_positioned hpositioned

theorem reached_stays (h : ReachedBy endpoints Orderly e) : Short e.history → Stays e := by
  apply @ReachedBy.invariant_under _ _ endpoints Orderly Stays (fun e => Short e.history)
  · have hlower : 0 < tcptvSrttdflt.toNat := by decide
    have hupper : tcptvSrttdflt.toNat ≤ tcptvRexmtmax.toNat := by decide
    rintro e ⟨ip, port, rfl | rfl⟩
    · exact ⟨.idle ⟨rfl, rfl, rfl, rfl, rfl, rfl, rfl, rfl, fun _ => rfl⟩ rfl,
        ⟨Nat.zero_le _, hlower, hupper, Nat.zero_le _⟩, fun _ hnot => absurd rfl hnot⟩
    · exact ⟨.listening ⟨ip, port, 0, rfl⟩ rfl, ⟨Nat.zero_le _, hlower, hupper, Nat.zero_le _⟩,
        fun _ hnot => absurd rfl hnot⟩
  · rintro e s e' ⟨log, hrun⟩ hshort
    obtain ⟨out, -, -, -, hhistory⟩ := run_cases hrun
    rw [hhistory] at hshort
    exact hshort.front
  · rintro e s e' - hstays hok hshort ⟨log, hrun⟩
    obtain ⟨out, -, -, -, hhistory⟩ := run_cases hrun
    rw [hhistory] at hshort
    exact run_stays hstays hok hshort.back hrun
  · exact h

theorem Positioned.outstanding (h : Positioned e.written e.tcb) (hzero : outputLength e.tcb = 0)
    (hleft : e.tcb.sendBufHead ≠ e.tcb.sendBufTail) (hopen : sendWindow e.tcb ≠ 0) :
    e.tcb.sndUna ≠ e.tcb.sndMax ∧ WrittenBeyondUna e.tcb := by
  obtain ⟨una, nxt, top, hsmall, hs⟩ := h
  have huna := hs.una_le
  have hnxt := hs.nxt_le
  have htop := hs.top_le
  have hlen := hs.written_lt hsmall
  have hrest : una < e.written.length := by
    apply Nat.lt_of_le_of_ne (by omega)
    intro hall
    rw [hs.head, hs.tail, hall] at hleft
    exact hleft rfl
  have hflight : (e.tcb.sndNxt - e.tcb.sndUna).toNat = nxt - una := by
    rw [hs.sndNxt, hs.sndUna]
    exact seqOf_sub_seqOf hs.una_le (by omega)
  have hsent : una < top := by
    rcases (outputLength_zero_iff hs.state).mp hzero with hfull | hempty | ⟨hsome, -⟩
    · have hpos : 0 < (sendWindow e.tcb).toNat :=
        Nat.pos_of_ne_zero fun hnone => hopen (BitVec.eq_of_toNat_eq hnone)
      rw [WindowFull, hflight] at hfull
      omega
    · have hbuffered := hs.outputBuffered hsmall
      have hnone : (outputBuffered e.tcb).toNat = 0 := congrArg BitVec.toNat hempty
      omega
    · omega
  refine ⟨fun hsame => ?_, ?_⟩
  · have hword := congrArg BitVec.toNat hsame
    rw [hs.sndUna, hs.sndMax, toNat_seqOf (by omega), toNat_seqOf (by omega)] at hword
    omega
  · have hbeyond := @seqOf_beyond una (by omega)
    rw [WrittenBeyondUna, hs.sndUna, hs.iss, if_pos hbeyond, seqOf_sub, hs.tail, BitVec.lt_def,
      BitVec.toNat_ofNat, BitVec.toNat_ofNat, Nat.mod_eq_of_lt (by omega), Nat.mod_eq_of_lt hlen]
    exact hrest

theorem expiry_sends (hstate : tcb.state = .established) (hnone : tcb.tfAcknow = false)
    (houtstanding : tcb.sndUna ≠ tcb.sndMax) (hwritten : WrittenBeyondUna tcb)
    (hopen : tcb.sndWnd ≠ 0) (halloc : EnvAllocates env) :
    ∃ out, tickTimer env (setTimer tcb .rexmt 1) .rexmt = some out ∧ segments out.log ≠ [] := by
  obtain ⟨recover, htick⟩ := @tickTimer_rexmt (setTimer tcb .rexmt 1) env rfl
  have hsends := (@expireRexmt_output (setTimer tcb .rexmt 1) env hnone houtstanding
    (fun _ => hopen) recover).mpr ⟨hstate, halloc.output 0, hwritten⟩
  obtain ⟨seg, hseg, -⟩ := hsends
  refine ⟨_, htick, fun hnothing => ?_⟩
  rw [segments_append] at hnothing
  rw [(List.append_eq_nil_iff.mp hnothing).2] at hseg
  cases hseg

theorem open_wakes (h : ReachedBy endpoints Orderly e) (hshort : Short e.history)
    (hstate : e.tcb.state = .established) (hleft : e.tcb.sendBufHead ≠ e.tcb.sendBufTail)
    (hopen : sendWindow e.tcb ≠ 0) : Wakes e.tcb .rexmt := by
  have hstays := reached_stays h hshort
  obtain ⟨-, hsettled⟩ := reached_settled (h.mono fun _ _ hok => hok.sends)
  obtain ⟨houtstanding, hwritten⟩ := Positioned.outstanding (hstays.stands.positioned hstate)
    (hsettled hstate) hleft hopen
  have hwnd : e.tcb.sndWnd ≠ 0 := by
    intro hshut
    apply hopen
    apply BitVec.eq_of_toNat_eq
    rw [sendWindow_toNat, hshut]
    exact Nat.zero_min _
  refine ⟨?_, fun env halloc => ?_⟩
  · have hticks := hstays.timed.ticks
    have hmax : tcptvRexmtmax.toNat = 6400 := rfl
    have hpos : 0 < (e.tcb.tTimer .rexmt).toNat :=
      Nat.pos_of_ne_zero fun hzero => hstays.armed hstate houtstanding (BitVec.eq_of_toNat_eq hzero)
    exact (toInt_pos_iff _).mpr ⟨hpos, by omega⟩
  · exact expiry_sends hstate (reachable_tfAcknow h.reachable) houtstanding hwritten hwnd halloc

/-- No silent deadlock while the window is open. -/
theorem open_window_wakes (h : ReachedBy network (Everywhere Orderly) n) (x : Side)
    (hshort : Short (n.endpoint x).history) (hstate : (n.tcb x).state = .established)
    (hleft : (n.tcb x).sendBufHead ≠ (n.tcb x).sendBufTail) (hopen : sendWindow (n.tcb x) ≠ 0) :
    Wakes (n.tcb x) .rexmt :=
  open_wakes (endpoint_everywhere h x) hshort hstate hleft hopen

/-- The client connects. -/
def connecting : List Action :=
  [.run .client (.connect (.still 0) 2 20), .deliver .server (.still 0) 0,
    .deliver .client (.still 0) 0, .deliver .server (.still 0) 0]

/-- A segment that arrives during the handshake, in order. -/
def ArrivesInOrder (n : Net) : Action → Prop
  | .deliver x env index =>
      ∀ seg ∈ (n.inbox x)[index]?, (n.tcb x).state ≠ .established ∧
        Prompt (n.endpoint x) (.input env seg (n.address x.other))
  | _ => True

instance (n : Net) (a : Action) : Decidable (ArrivesInOrder n a) :=
  match a with
  | .deliver .. => inferInstanceAs (Decidable (∀ seg ∈ _, _ ∧ _))
  | .run .. | .duplicate .. | .lose .. => .isTrue trivial

/-- A byte is lost on its way and nothing else is in flight. -/
theorem open_window_wakes_lost :
    ∃ n : Net, (∀ x, n.inbox x = []) ∧ (n.tcb .client).sendBufHead ≠ (n.tcb .client).sendBufTail ∧
      Wakes (n.tcb .client) .rexmt := by
  let actions : List Action := connecting ++ [.run .client oneByte, .lose .server 0]
  have hrun : (runAll (guarded ArrivesInOrder Net.step) Net.start actions).map (fun n =>
      decide ((n.inbox .client).isEmpty ∧ (n.inbox .server).isEmpty ∧
        (∀ seg ∈ segments (n.endpoint .client).history, endOf seg < 2 ^ 31) ∧
        (n.tcb .client).state = .established ∧
        (n.tcb .client).sendBufHead ≠ (n.tcb .client).sendBufTail ∧
        sendWindow (n.tcb .client) ≠ 0)) = some true := by
    decide +kernel
  obtain ⟨n, hn, hcheck⟩ := Option.map_eq_some_iff.mp hrun
  obtain ⟨hmail, hbytes, hshort, hstate, hleft, hopen⟩ := of_decide_eq_true hcheck
  have hlisted : ∀ a ∈ actions, ∀ n n', guarded ArrivesInOrder Net.step n a = some n' →
      Everywhere Orderly n a ∧ n.step a = some n' := by
    intro a ha n n' hstep
    unfold guarded at hstep
    split at hstep
    · rename_i hguard
      refine ⟨?_, hstep⟩
      have hdeliver : ∀ x, (∀ seg ∈ (n.inbox x)[0]?, (n.tcb x).state ≠ .established ∧
          Prompt (n.endpoint x) (.input (.still 0) seg (n.address x.other))) →
          Everywhere Orderly n (.deliver x (.still 0) 0) := by
        intro x harrives seg hseg
        obtain ⟨hbefore, hprompt⟩ := harrives seg hseg
        exact ⟨hprompt, ⟨envAllocates_still 0, fun _ _ _ _ hstate => absurd hstate hbefore⟩, trivial⟩
      simp only [actions, connecting, List.cons_append, List.nil_append, List.mem_cons,
        List.not_mem_nil, or_false] at ha
      rcases ha with rfl | rfl | rfl | rfl | rfl | rfl
      · exact ⟨trivial, ⟨envAllocates_still 0, by rintro env seg peer ⟨⟩⟩, trivial⟩
      · exact hdeliver .server hguard
      · exact hdeliver .client hguard
      · exact hdeliver .server hguard
      · exact ⟨trivial, ⟨fun _ => envAllocates_still 0, by rintro env seg peer ⟨⟩⟩, trivial⟩
      · trivial
    · cases hstep
  have hreach : ReachedBy network (Everywhere Orderly) n :=
    .runListed actions hlisted (.init Net.start_initial) hn
  refine ⟨n, fun x => ?_, hleft, open_window_wakes hreach .client hshort hstate hleft hopen⟩
  cases x with
  | client => exact List.isEmpty_iff.mp hmail
  | server => exact List.isEmpty_iff.mp hbytes

theorem step_ran (hlocal : isLocal s = true) {x y : Side} (hy : x.other = y)
    (hrun : (n.endpoint x).run s = some (e', log)) :
    ∃ n', n.step (.run x s) = some n' ∧ n'.endpoint x = e' ∧ n'.endpoint y = n.endpoint y ∧
      n'.inbox x = n.inbox x ∧ n'.inbox y = n.inbox y ++ segments log := by
  subst hy
  refine ⟨n.finish x (e', log), ?_, finish_endpoint_self .., finish_endpoint_other .., ?_, ?_⟩
  · simp only [Net.step]
    rw [if_pos hlocal, hrun, Option.map_some]
  · exact Function.update_of_ne x.ne_other ..
  · exact Function.update_self ..

theorem step_delivered {x y : Side} (hy : x.other = y) {index : Nat}
    (hinbox : (n.inbox x)[index]? = some seg)
    (hrun : (n.endpoint x).run (.input env seg (n.address y)) = some (e', log)) :
    ∃ n', n.step (.deliver x env index) = some n' ∧ n'.endpoint x = e' ∧
      n'.endpoint y = n.endpoint y ∧ n'.inbox x = (n.inbox x).eraseIdx index ∧
      n'.inbox y = n.inbox y ++ segments log := by
  subst hy
  refine ⟨(n.withInbox x ((n.inbox x).eraseIdx index)).finish x (e', log), ?_,
    finish_endpoint_self .., finish_endpoint_other .., ?_, ?_⟩
  · simp only [Net.step]
    rw [hinbox]
    simp only [Option.bind_eq_bind, Option.bind_some]
    rw [hrun]
    rfl
  · exact (Function.update_of_ne x.ne_other ..).trans (Function.update_self ..)
  · have hkept : (n.withInbox x ((n.inbox x).eraseIdx index)).inbox x.other = n.inbox x.other :=
      Function.update_of_ne x.other_ne ..
    rw [← hkept]
    exact Function.update_self ..

/-- The oldest segment in flight arrives. -/
theorem step_received {x y : Side} (hy : x.other = y) {rest : List TcpSegment}
    (hinbox : n.inbox x = seg :: rest)
    (hrun : (n.endpoint x).run (.input env seg (n.address y)) = some (e', log)) :
    ∃ n', n.step (.deliver x env 0) = some n' ∧ n'.endpoint x = e' ∧ n'.endpoint y = n.endpoint y ∧
      n'.inbox x = rest ∧ n'.inbox y = n.inbox y ++ segments log := by
  have hfirst : (n.inbox x)[0]? = some seg := by
    rw [hinbox]
    rfl
  obtain ⟨n', hstep, hself, hother, hrest, hsent⟩ := step_delivered hy hfirst hrun
  rw [hinbox] at hrest
  exact ⟨n', hstep, hself, hother, hrest, hsent⟩

theorem step_duplicated {x y : Side} (hy : x.other = y) (hinbox : n.inbox x = [seg]) :
    ∃ n', n.step (.duplicate x 0) = some n' ∧ n'.endpoint = n.endpoint ∧
      n'.inbox x = [seg, seg] ∧ n'.inbox y = n.inbox y := by
  subst hy
  refine ⟨n.withInbox x [seg, seg], ?_, rfl, Function.update_self .., ?_⟩
  · simp only [Net.step]
    rw [hinbox]
    rfl
  · exact Function.update_of_ne x.other_ne ..

theorem step_lost {x y : Side} (hy : x.other = y) (hinbox : n.inbox x = [seg]) :
    ∃ n', n.step (.lose x 0) = some n' ∧ n'.endpoint = n.endpoint ∧ n'.inbox x = [] ∧
      n'.inbox y = n.inbox y := by
  subst hy
  refine ⟨n.withInbox x [], ?_, rfl, Function.update_self .., Function.update_of_ne x.other_ne ..⟩
  simp only [Net.step]
  rw [hinbox]
  rfl

theorem utcpOutput_one {readings : Nat → Reading} (hstate : tcb.state = .established)
    (hacknow : tcb.tfAcknow = false) (hdelack : tcb.tfDelack = false)
    (halloc : (readings 0).alloc = true) (hone : outputLength tcb = 1)
    (hdone : outputLength (advanceSndNxt tcb 1 false) = 0) :
    (utcpOutput readings tcb).tcb = advanceSndNxt tcb 1 false ∧
      segments (utcpOutput readings tcb).log =
        [buildSegment (readings 0).timeUs tcb tcb.sndNxt thAck 1] := by
  have hsame : { tcb with tfAcknow := false } = tcb := by rw [← hacknow]
  have hcancel : cancelDelack tcb = tcb := by
    rw [cancelDelack, hdelack]
    rfl
  have hsyn : sendingNewSynFin thAck tcb = false := rfl
  have hturn : outputTurn (readings 0) thAck false tcb =
      (⟨advanceSndNxt tcb 1 false,
        [.freeSpace (bufUsed tcb) tcb.oooBytes,
          .sent .output (readings 0).timeUs
            (buildSegment (readings 0).timeUs tcb tcb.sndNxt thAck 1)]⟩, true) := by
    simp only [outputTurn, utcpSendSegment]
    rw [hone, hsyn, hcancel, halloc]
    rfl
  have hruns := utcpOutput_runs readings hstate
  rw [hsame, hacknow] at hruns
  generalize utcpOutput readings tcb = out at hruns ⊢
  cases hruns with
  | stop hstop =>
      rw [hturn] at hstop
      cases hstop
  | again hagain hrest =>
      rw [hturn] at hagain
      cases hagain
      cases hrest with
      | stop hstop =>
          rw [outputTurn_stops _ hdone] at hstop
          cases hstop
          exact ⟨rfl, rfl⟩
      | again hagain =>
          rw [outputTurn_stops _ hdone] at hagain
          cases hagain

theorem utcpOutput_ack {readings : Nat → Reading} (hstate : tcb.state = .established)
    (hacknow : tcb.tfAcknow = false) (halloc : (readings 0).alloc = true)
    (hzero : outputLength tcb = 0) :
    (utcpOutput readings (setAcknow tcb)).tcb = cancelDelack tcb ∧
      segments (utcpOutput readings (setAcknow tcb)).log =
        [buildSegment (readings 0).timeUs (cancelDelack tcb) (cancelDelack tcb).sndNxt thAck 0] := by
  have hsame : { setAcknow tcb with tfAcknow := false } = tcb := by rw [← hacknow]; rfl
  have hsyn : sendingNewSynFin thAck tcb = false := rfl
  have hturn : outputTurn (readings 0) thAck true tcb =
      (⟨cancelDelack tcb,
        [.freeSpace (bufUsed (cancelDelack tcb)) (cancelDelack tcb).oooBytes,
          .sent .output (readings 0).timeUs (buildSegment (readings 0).timeUs (cancelDelack tcb)
            (cancelDelack tcb).sndNxt thAck 0)]⟩, false) := by
    simp only [outputTurn, utcpSendSegment]
    rw [hzero, hsyn, halloc]
    rfl
  have hruns := @utcpOutput_runs (setAcknow tcb) readings hstate
  rw [hsame] at hruns
  generalize utcpOutput readings (setAcknow tcb) = out at hruns ⊢
  cases hruns with
  | stop hstop =>
      have hstop' := hturn.symm.trans hstop
      cases hstop'
      exact ⟨rfl, rfl⟩
  | again hagain =>
      have hagain' := hturn.symm.trans hagain
      cases hagain'

/-- The block of a client that has `una` bytes acknowledged and lost none, with its window
grown by `grown` bytes. -/
structure Feeding (written : List U8) (una grown : Nat) (tcb : Tcb) : Prop where
  sending : Sending written una written.length written.length tcb
  rcvNxt : tcb.rcvNxt = 1
  sndScale : tcb.sndScale = 5
  scaleEnabled : tcb.scaleEnabled = true
  ccOps : tcb.ccOps = .newReno
  caState : tcb.caState = .open
  ssthresh : tcb.ssthresh = 0xFFFFFFFF
  cwnd : tcb.cwnd = BitVec.ofNat 32 (4200 + grown)
  tfAcknow : tcb.tfAcknow = false
  tfDelack : tcb.tfDelack = false
  timers : ∀ timer, timer ≠ .rexmt → tcb.tTimer timer = 0

variable {written : List U8} {una grown : Nat}

theorem Feeding.cwnd_toNat (h : Feeding written una grown tcb) (hsmall : grown < 2 ^ 31) :
    tcb.cwnd.toNat = 4200 + grown := by
  rw [h.cwnd, BitVec.toNat_ofNat, Nat.mod_eq_of_lt (by omega)]

theorem Feeding.done (h : Feeding written una grown tcb) (hsmall : written.length < 2 ^ 31 - 1) :
    outputLength tcb = 0 := by
  have hbuffered : outputBuffered tcb = 0 := by
    apply BitVec.eq_of_toNat_eq
    rw [h.sending.outputBuffered hsmall, Nat.sub_self]
    rfl
  exact (outputLength_zero_iff h.sending.state).mpr (.inr (.inl hbuffered))

theorem Feeding.advance {byte : U8} (h : Feeding written written.length grown tcb)
    (hsmall : written.length + 1 < 2 ^ 31 - 1) (hroom : 1 ≤ (sendFreeSpace tcb).toNat) :
    Feeding (written ++ [byte]) written.length grown
      (advanceSndNxt (writeChunk tcb [byte]) 1 false) := by
  have hlen : (written ++ [byte]).length = written.length + 1 := List.length_append
  have hs : Sending (written ++ [byte]) written.length written.length written.length
      (writeChunk tcb [byte]) := h.sending.write hroom
  obtain ⟨tTimer, tRtt, tRtseq, heq⟩ := advanceSndNxt_eq (writeChunk tcb [byte]) 1 false
  have hadvanced :=
    @Sending.advance _ _ _ _ _ hs (by omega) 1 (by omega) (by omega) tTimer tRtt tRtseq
  have htimers := fun timer hother =>
    (@advanceSndNxt_other (writeChunk tcb [byte]) 1 false timer hother).trans (h.timers timer hother)
  have hone : (1 : U32) + (if false = true then 1 else 0) = BitVec.ofNat 32 1 := by decide
  have hmax : max written.length (written.length + 1) = (written ++ [byte]).length := by omega
  rw [hmax, ← hlen] at hadvanced
  rw [hone] at heq
  rw [heq] at htimers ⊢
  exact ⟨hadvanced, h.rcvNxt, h.sndScale, h.scaleEnabled, h.ccOps, h.caState, h.ssthresh, h.cwnd,
    h.tfAcknow, h.tfDelack, htimers⟩

theorem Feeding.outputLength_one {byte : U8} (h : Feeding written written.length grown tcb)
    (hsmall : written.length + 1 < 2 ^ 31 - 1) (hgrown : grown < 2 ^ 31)
    (hroom : 1 ≤ (sendFreeSpace tcb).toNat) (hopen : tcb.sndWnd ≠ 0) :
    outputLength (writeChunk tcb [byte]) = 1 := by
  have hlen : (written ++ [byte]).length = written.length + 1 := List.length_append
  have hs : Sending (written ++ [byte]) written.length written.length written.length
      (writeChunk tcb [byte]) := h.sending.write hroom
  have hbuffered : (outputBuffered (writeChunk tcb [byte])).toNat = 1 := by
    rw [hs.outputBuffered (by omega)]
    omega
  have hle := @outputLength_le_buffered (writeChunk tcb [byte])
  have hflight : ((writeChunk tcb [byte]).sndNxt - (writeChunk tcb [byte]).sndUna).toNat = 0 := by
    rw [hs.sndNxt, hs.sndUna, BitVec.sub_self]
    rfl
  have hpos : outputLength (writeChunk tcb [byte]) ≠ 0 := by
    intro hzero
    rcases (outputLength_zero_iff hs.state).mp hzero with hfull | hempty | ⟨hsome, -⟩
    · have hwnd : 0 < (writeChunk tcb [byte]).sndWnd.toNat :=
        Nat.pos_of_ne_zero fun hnone => hopen (BitVec.eq_of_toNat_eq hnone)
      have hcwnd : (writeChunk tcb [byte]).cwnd.toNat = 4200 + grown := h.cwnd_toNat hgrown
      rw [WindowFull, hflight, sendWindow_toNat] at hfull
      omega
    · rw [hempty] at hbuffered
      exact absurd hbuffered (by decide)
    · omega
  apply BitVec.eq_of_toNat_eq
  have hpos' : (outputLength (writeChunk tcb [byte])).toNat ≠ 0 :=
    fun hnone => hpos (BitVec.eq_of_toNat_eq hnone)
  change _ = 1
  omega

theorem Feeding.learned (h : Feeding written una grown tcb) (timeUs : U64) (scale : U8) :
    Feeding written una grown (learn tcb timeUs thAck scale) :=
  ⟨h.sending.same ⟨rfl, rfl, rfl, rfl, rfl, rfl, rfl, rfl⟩, h.rcvNxt, h.sndScale, h.scaleEnabled,
    h.ccOps, h.caState, h.ssthresh, h.cwnd, h.tfAcknow, h.tfDelack, h.timers⟩

theorem Feeding.beforeAckEvent (h : Feeding written una grown tcb) (hlen : written.length = una + 1)
    (hsmall : una + 1 < 2 ^ 31 - 1) (hack : seg.hdr.thAck = seqOf (una + 1)) (env : Env) :
    Feeding written (una + 1) grown (beforeAckEvent env tcb seg).tcb ∧
      (beforeAckEvent env tcb seg).tcb.tTimer .rexmt = 0 ∧
      (beforeAckEvent env tcb seg).tcb.sndWnd = getScaledWin tcb seg.hdr := by
  have hsending := h.sending.acceptAck (by omega) (Nat.lt_succ_self una) (by omega) hack
  rw [hlen, max_self, ← hlen] at hsending
  have hquiet := rearmRexmt_quiet env (measureRtt env seg (acceptAck tcb seg.hdr)).1
  have hbefore := hsending.same (beforeAckEvent_sameSend env tcb seg)
  have hsame : (Input.beforeAckEvent env tcb seg).tcb.sndUna =
      (Input.beforeAckEvent env tcb seg).tcb.sndMax := by
    rw [hbefore.sndUna, hbefore.sndMax, hlen]
  have hoff : (Input.beforeAckEvent env tcb seg).tcb.tTimer .rexmt = 0 := hquiet hsame
  obtain ⟨ticks, _, _, _, _, _, _, heq⟩ := beforeAckEvent_eq env tcb seg
  refine ⟨?_, hoff, by rw [heq]; rfl⟩
  rw [heq] at hbefore ⊢
  have htimers : ∀ timer, timer ≠ .rexmt →
      (setTimer (acceptAck tcb seg.hdr) .rexmt ticks).tTimer timer = 0 := by
    intro timer hother
    simp only [setTimer]
    rw [if_neg hother]
    exact h.timers timer hother
  exact ⟨hbefore, h.rcvNxt, h.sndScale, h.scaleEnabled, h.ccOps, h.caState, h.ssthresh,
    h.cwnd, h.tfAcknow, h.tfDelack, htimers⟩

theorem Feeding.grows (h : Feeding written una grown tcb) (hsmall : grown < 2 ^ 31) (env : Env)
    (rttUs : U32) :
    ∃ out, congControl env tcb (.ack 1 rttUs) = some out ∧
      Feeding written una (grown + 1) out.tcb ∧ out.tcb.tTimer = tcb.tTimer ∧
      out.tcb.sndWnd = tcb.sndWnd ∧ out.log = [] := by
  have hslow : tcb.cwnd < tcb.ssthresh := by
    rw [BitVec.lt_def, h.cwnd_toNat hsmall, h.ssthresh]
    change 4200 + grown < 4294967295
    omega
  have hcwnd : tcb.cwnd + 1 = BitVec.ofNat 32 (4200 + (grown + 1)) := by
    rw [h.cwnd, ← Nat.add_assoc, BitVec.ofNat_add _ 1]
    rfl
  refine ⟨_, newReno_grows env rttUs h.ccOps h.caState hslow, ?_, rfl, rfl, rfl⟩
  exact ⟨h.sending.same ⟨rfl, rfl, rfl, rfl, rfl, rfl, rfl, rfl⟩, h.rcvNxt, h.sndScale,
    h.scaleEnabled, h.ccOps, rfl, h.ssthresh, hcwnd, h.tfAcknow, h.tfDelack, h.timers⟩

theorem Feeding.acked (h : Feeding written una grown tcb) (hlen : written.length = una + 1)
    (hsmall : una + 1 < 2 ^ 31 - 1) (hgrown : grown < 2 ^ 31)
    (hack : seg.hdr.thAck = seqOf (una + 1)) (env : Env) :
    ∃ out, handleAck env tcb seg = some out ∧ Feeding written (una + 1) (grown + 1) out.tcb ∧
      out.tcb.tTimer .rexmt = 0 ∧ out.tcb.sndWnd = getScaledWin tcb seg.hdr ∧
      segments out.log = [] := by
  have hvalid : validAck tcb seg.hdr.thAck = true := by
    rw [hack]
    exact validAck_next h.sending.sndUna (by rw [h.sending.sndMax, hlen])
  have hnewly : seg.hdr.thAck - tcb.sndUna = 1 := by
    rw [hack, h.sending.sndUna]
    exact seqOf_succ_sub una
  obtain ⟨hbefore, hoff, hwnd⟩ := h.beforeAckEvent hlen hsmall hack env
  obtain ⟨cc, hcc, hgrows, htimer, hkept, hlog⟩ :=
    hbefore.grows hgrown env (measureRtt env seg (acceptAck tcb seg.hdr)).2
  rw [handleAck, if_pos hvalid]
  simp only
  rw [hnewly, hcc]
  refine ⟨_, rfl, hgrows, ?_, hkept.trans hwnd, ?_⟩
  · change cc.tcb.tTimer .rexmt = 0
    rw [htimer]
    exact hoff
  · change segments ((Input.beforeAckEvent env tcb seg).log ++ cc.log) = []
    rw [hlog, List.append_nil]
    exact rearmRexmt_segments ..

theorem run_received {peer : Peer} {acked : Out} (hstate : e.tcb.state = .established)
    (hacked : handleAck env (processWindowOption env seg e.tcb) seg = some acked) :
    e.run (.input env seg peer) =
      some (e.finish ⟨(handleData env acked.tcb seg).tcb,
        acked.log ++ (handleData env acked.tcb seg).log⟩) := by
  simp only [Endpoint.run, utcpInput]
  rw [hstate]
  simp only [handleReceivedData]
  rw [hacked]
  rfl

theorem handleAck_data (env : Env) (hack : seg.hdr.thAck = tcb.sndUna) (hdata : payload seg ≠ []) :
    ∃ sndWnd, handleAck env tcb seg = some ⟨{ tcb with sndWnd }, []⟩ :=
  handleAck_of_quiet ⟨validAck_self hack, fun hdup => absurd hdup.2.2.1 hdata⟩

/-- The block of an end that has received the stream up to `pos`, of which it holds `r`
bytes nobody has read, and has written nothing. -/
structure Holding (pos r : Nat) (delack : Bool) (tcb : Tcb) : Prop where
  state : tcb.state = .established
  sndUna : tcb.sndUna = 1
  tail : tcb.sendBufTail = 0
  rcvNxt : tcb.rcvNxt = seqOf pos
  used : bufUsed tcb = BitVec.ofNat 32 r
  oooHead : tcb.oooHead = []
  oooBytes : tcb.oooBytes = 0
  rcvScale : tcb.rcvScale = 5
  scaleEnabled : tcb.scaleEnabled = true
  tDupacks : tcb.tDupacks = 0
  tfAcknow : tcb.tfAcknow = false
  tfDelack : tcb.tfDelack = delack
  timers : ∀ timer, timer ≠ .delack ∨ delack = false → tcb.tTimer timer = 0

variable {pos r : Nat} {delack : Bool}

theorem Holding.learned (h : Holding pos r delack tcb) (timeUs : U64) (scale : U8) (sndWnd : U32) :
    Holding pos r delack { learn tcb timeUs thAck scale with sndWnd } :=
  ⟨h.state, h.sndUna, h.tail, h.rcvNxt, h.used, h.oooHead, h.oooBytes, h.rcvScale, h.scaleEnabled,
    h.tDupacks, h.tfAcknow, h.tfDelack, h.timers⟩

theorem Holding.freeSpace (h : Holding pos r delack tcb) (hr : r ≤ recvBufSize.toNat) :
    (currentFreeSpace tcb).toNat = recvBufSize.toNat - r := by
  have hsize : recvBufSize.toNat = 1048576 := rfl
  have hused : (bufUsed tcb).toNat = r := by
    rw [h.used, BitVec.toNat_ofNat, Nat.mod_eq_of_lt (by omega)]
  have hzero : ∀ x : U32, x - 0 = x := fun x => BitVec.sub_zero x
  rw [currentFreeSpace, h.oooBytes, hzero, toNat_sub_of_ge (by omega), hused]

theorem Holding.silent (h : Holding pos r delack tcb) : outputLength tcb = 0 :=
  settled_unwritten h.tail h.state

theorem Holding.accepts (h : Holding pos r false tcb) (hr : r + 1 ≤ recvBufSize.toNat) {data : List U8}
    (hdata : data.length = 1) (env : Env) :
    Holding (pos + 1) (r + 1) true (placeData env tcb tcb.rcvNxt data).tcb ∧
      segments (placeData env tcb tcb.rcvNxt data).log = [] := by
  have hroom : data.length ≤ (recvBufSize - bufUsed tcb - tcb.oooBytes).toNat := by
    have hfree : (recvBufSize - bufUsed tcb - tcb.oooBytes).toNat = recvBufSize.toNat - r :=
      h.freeSpace (by omega)
    omega
  have hplaced : acceptInOrder tcb data =
      ⟨setTimer { acceptBytes tcb data with oooHead := [], tfDelack := true } .delack tcptvDelack,
        [.accepted]⟩ := by
    have hqueue : (acceptBytes tcb data).oooHead = [] := h.oooHead
    have hdup : (acceptBytes tcb data).tDupacks = 0 := h.tDupacks
    have hdelack : (acceptBytes tcb data).tfDelack = false := h.tfDelack
    simp only [acceptInOrder]
    rw [hqueue]
    simp only [drainOooQueue]
    rw [scheduleAck, if_neg]
    simp [hdup, hdelack]
  have hheld : Holding (pos + 1) (r + 1) true (acceptInOrder tcb data).tcb := by
    have hused : bufUsed (acceptBytes tcb data) = BitVec.ofNat 32 (r + 1) := by
      rw [bufUsed_acceptBytes, h.used, hdata, BitVec.ofNat_add]
    have hnxt : tcb.rcvNxt + BitVec.ofNat 32 data.length = seqOf (pos + 1) := by
      rw [h.rcvNxt, hdata, seqOf_add]
    rw [hplaced]
    refine ⟨h.state, h.sndUna, h.tail, hnxt, hused, rfl, h.oooBytes, h.rcvScale, h.scaleEnabled,
      h.tDupacks, h.tfAcknow, rfl, fun timer hother => ?_⟩
    have hother' : timer ≠ .delack := by simpa using hother
    simp only [setTimer]
    rw [if_neg hother']
    exact h.timers timer (.inr rfl)
  have hstops := utcpOutput_stops env.output hheld.state hheld.tfAcknow hheld.silent
  rw [placeData_fits env hroom, hstops, hplaced]
  rw [hplaced] at hheld
  exact ⟨hheld, rfl⟩

theorem Holding.cancelled (h : Holding pos r true tcb) : Holding pos r false (cancelDelack tcb) := by
  have hcancel : cancelDelack tcb = setTimer { tcb with tfDelack := false } .delack 0 := by
    rw [cancelDelack, h.tfDelack]
    rfl
  rw [hcancel]
  refine ⟨h.state, h.sndUna, h.tail, h.rcvNxt, h.used, h.oooHead, h.oooBytes, h.rcvScale,
    h.scaleEnabled, h.tDupacks, h.tfAcknow, rfl, fun timer _ => ?_⟩
  simp only [setTimer]
  split
  · rfl
  · rename_i hother
    exact h.timers timer (.inl hother)

/-- A segment with the byte at `pos`, from a side that has received nothing. -/
structure Carries (pos : Nat) (seg : TcpSegment) : Prop where
  sequence : seg.hdr.thSeq = seqOf pos
  acknowledged : seg.hdr.thAck = 1
  single : (payload seg).length = 1
  options : ∃ timeUs scale, ∀ env tcb, processWindowOption env seg tcb = learn tcb timeUs thAck scale

theorem Carries.data (h : Carries pos seg) : payload seg ≠ [] := by
  intro hnone
  have hsingle := h.single
  rw [hnone] at hsingle
  cases hsingle

theorem Holding.gets {peer : Peer} (h : Holding pos r delack e.tcb) {k : Nat} (hcarries : Carries k seg)
    (env : Env) :
    ∃ tcb, Holding pos r delack tcb ∧
      e.run (.input env seg peer) = some (e.finish (handleData env tcb seg)) := by
  obtain ⟨timeUs, scale, hoptions⟩ := hcarries.options
  obtain ⟨sndWnd, hacked⟩ := @handleAck_data (learn e.tcb timeUs thAck scale) seg env
    (hcarries.acknowledged.trans h.sndUna.symm) hcarries.data
  rw [← hoptions env] at hacked
  refine ⟨_, h.learned timeUs scale sndWnd, ?_⟩
  rw [run_received h.state hacked, hoptions]
  rfl

/-- The byte arrives: its ACK is held back. -/
theorem Holding.takes {peer : Peer} (h : Holding pos r false e.tcb) (hr : r + 1 ≤ recvBufSize.toNat)
    (hcarries : Carries pos seg) (env : Env) :
    ∃ e' log, e.run (.input env seg peer) = some (e', log) ∧ e'.written = e.written ∧
      e'.pending = e.pending ∧ Holding (pos + 1) (r + 1) true e'.tcb ∧ segments log = [] := by
  obtain ⟨tcb, hheld, hrun⟩ := h.gets hcarries env
  have hdata := handleData_next env (hcarries.sequence.trans hheld.rcvNxt.symm) hcarries.data
  obtain ⟨hnext, hsilent⟩ := hheld.accepts hr hcarries.single env
  rw [hdata] at hrun
  exact ⟨_, _, hrun, rfl, rfl, hnext, hsilent⟩

/-- The byte arrives a second time: it is acknowledged at once. -/
theorem Holding.repeats {peer : Peer} (h : Holding (pos + 1) r true e.tcb)
    (hcarries : Carries pos seg) (halloc : EnvAllocates env) :
    ∃ e' log timeUs, e.run (.input env seg peer) = some (e', log) ∧ e'.written = e.written ∧
      e'.pending = e.pending ∧ Holding (pos + 1) r false e'.tcb ∧
      segments log = [buildSegment timeUs e'.tcb e'.tcb.sndNxt thAck 0] := by
  obtain ⟨tcb, hheld, hrun⟩ := h.gets hcarries env
  have hone : tcb.rcvNxt - seg.hdr.thSeq = 1 := by
    rw [hheld.rcvNxt, hcarries.sequence]
    exact seqOf_succ_sub pos
  have hbelow : seqLt seg.hdr.thSeq tcb.rcvNxt = true := by
    have hback : seg.hdr.thSeq - tcb.rcvNxt = -1 := by
      rw [← hone, BitVec.neg_sub, BitVec.sub_eq_add_neg, BitVec.add_comm]
    rw [seqLt, hback]
    decide
  have hdata : handleData env tcb seg = utcpOutput env.output (setAcknow tcb) := by
    simp only [handleData]
    rw [hone, hbelow, if_neg hcarries.data, if_pos rfl, hcarries.single]
    exact if_pos (Nat.le_refl 1)
  obtain ⟨hleaves, hsends⟩ := utcpOutput_ack hheld.state hheld.tfAcknow (halloc.output 0) hheld.silent
  rw [hdata] at hrun
  refine ⟨_, _, (env.output 0).timeUs, hrun, rfl, rfl, ?_, ?_⟩
  · change Holding (pos + 1) r false (utcpOutput env.output (setAcknow tcb)).tcb
    rw [hleaves]
    exact hheld.cancelled
  · rw [hsends, ← hleaves]

/-- The ACK with which an end of `r` unread bytes answers. -/
structure Acks (pos r : Nat) (seg : TcpSegment) : Prop where
  acknowledged : seg.hdr.thAck = seqOf pos
  empty : payload seg = []
  options : ∃ timeUs scale, ∀ env tcb, processWindowOption env seg tcb = learn tcb timeUs thAck scale
  window : ∀ tcb, tcb.scaleEnabled = true → tcb.sndScale = 5 →
    (getScaledWin tcb seg.hdr).toNat = (recvBufSize.toNat - r) / 32 * 32

theorem Holding.acks (h : Holding pos r delack tcb) (hr : r ≤ recvBufSize.toNat) (timeUs : U64)
    (seq : U32) : Acks pos r (buildSegment timeUs tcb seq thAck 0) := by
  refine ⟨h.rcvNxt, List.eq_nil_of_length_eq_zero (payload_length_buildSegment _ _ _ _ 0 (by decide)),
    ⟨timeUs, tcb.rcvScale, fun env tcb' => processWindowOption_buildSegment ..⟩,
    fun tcb' henabled hscale => ?_⟩
  have hfree := h.freeSpace hr
  have hsize : recvBufSize.toNat = 1048576 := rfl
  have hsyn : hasFlag thAck thSyn = false := by decide
  have hsent : setScaledWin tcb thAck (currentFreeSpace tcb) =
      (currentFreeSpace tcb >>> 5).setWidth 16 := by
    rw [setScaledWin, h.scaleEnabled, hsyn, h.rcvScale]
    rfl
  have hread : getScaledWin tcb' (buildSegment timeUs tcb seq thAck 0).hdr =
      ((currentFreeSpace tcb >>> 5).setWidth 16).setWidth 32 <<< 5 := by
    change (if tcb'.scaleEnabled && !hasFlag thAck thSyn then
      (setScaledWin tcb thAck (currentFreeSpace tcb)).setWidth 32 <<< tcb'.sndScale.toNat
      else _) = _
    rw [henabled, hsyn, hscale, hsent]
    rfl
  rw [hread]
  simp only [BitVec.toNat_shiftLeft, BitVec.toNat_setWidth, BitVec.toNat_ushiftRight,
    Nat.shiftLeft_eq, Nat.shiftRight_eq_div_pow]
  rw [hfree]
  omega

theorem Acks.shut (h : Acks pos r seg) (henabled : tcb.scaleEnabled = true)
    (hscale : tcb.sndScale = 5) :
    getScaledWin tcb seg.hdr = 0 ↔ recvBufSize.toNat < r + 32 := by
  have hwindow := h.window tcb henabled hscale
  have hsize : recvBufSize.toNat = 1048576 := rfl
  rw [← BitVec.toNat_inj, hwindow]
  change _ = 0 ↔ _
  omega

theorem Feeding.answered {peer : Peer} (h : Feeding e.written una grown e.tcb)
    (hlen : e.written.length = una + 1) (hsmall : una + 1 < 2 ^ 31 - 1) (hgrown : grown < 2 ^ 31)
    (hacks : Acks (una + 1) (una + 1) seg) (env : Env) :
    ∃ e' log, e.run (.input env seg peer) = some (e', log) ∧ e'.written = e.written ∧
      e'.pending = e.pending ∧ Feeding e'.written (una + 1) (grown + 1) e'.tcb ∧
      e'.tcb.tTimer .rexmt = 0 ∧
      (e'.tcb.sndWnd = 0 ↔ recvBufSize.toNat < una + 1 + 32) ∧ segments log = [] := by
  obtain ⟨timeUs, scale, hoptions⟩ := hacks.options
  obtain ⟨out, hacked, hfed, hidle, hwnd, hsilent⟩ :=
    (h.learned timeUs scale).acked hlen hsmall hgrown hacks.acknowledged env
  have hlog := utcpOutput_stops env.output hfed.sending.state hfed.tfAcknow (hfed.done (by omega))
  have hbare : handleData env out.tcb seg = ⟨out.tcb, []⟩ := by
    simp only [handleData]
    rw [if_pos hacks.empty, hlog]
  rw [← hoptions env] at hacked
  have hrun := @run_received env seg e peer out h.sending.state hacked
  rw [hbare] at hrun
  refine ⟨_, _, hrun, rfl, rfl, hfed, hidle, ?_, ?_⟩
  · change out.tcb.sndWnd = 0 ↔ _
    rw [hwnd]
    exact @Acks.shut (learn e.tcb timeUs thAck scale) _ _ _ hacks h.scaleEnabled h.sndScale
  · rw [List.append_nil]
    exact hsilent

theorem Feeding.sends (h : Feeding e.written r r e.tcb) (hlen : e.written.length = r)
    (hpending : e.pending = []) (hr : r + 1 < 2 ^ 31 - 1) (hopen : e.tcb.sndWnd ≠ 0) :
    ∃ e' log seg, e.run oneByte = some (e', log) ∧ e'.written.length = r + 1 ∧ e'.pending = [] ∧
      Feeding e'.written r r e'.tcb ∧ segments log = [seg] ∧ Carries r seg := by
  have hroom : sendFreeSpace e.tcb = sendBufSize := by
    rw [sendFreeSpace, h.sending.head, h.sending.tail, hlen, BitVec.sub_self]
    rfl
  have hone : 1 ≤ (sendFreeSpace e.tcb).toNat := by
    rw [hroom]
    decide
  have hrun : e.run oneByte = some (e.sendSection (fun _ => .still 0) [0]) :=
    if_pos ⟨h.sending.state, hpending⟩
  have hsection := utcpSend_one (fun _ => .still 0) 0 hroom
  subst hlen
  have hfed := @h.advance e.tcb _ _ 0 hr hone
  have hlength := @h.outputLength_one e.tcb _ _ 0 hr (by omega) hone hopen
  obtain ⟨hleaves, hsends⟩ := @utcpOutput_one (writeChunk e.tcb [0]) (Env.still 0).output
    h.sending.state h.tfAcknow h.tfDelack rfl hlength (hfed.done (by simp; omega))
  have hcarries : Carries e.written.length
      (buildSegment 0 (writeChunk e.tcb [0]) e.tcb.sndNxt thAck 1) :=
    ⟨h.sending.sndNxt, h.rcvNxt, payload_length_buildSegment _ _ _ _ 1 (by decide),
      0, _, fun env tcb => processWindowOption_buildSegment ..⟩
  generalize hresult : e.sendSection (fun _ => .still 0) [0] = result at hrun
  obtain ⟨e', log⟩ := result
  rw [Endpoint.sendSection, hsection] at hresult
  simp only [Endpoint.finish, Prod.mk.injEq, List.append_nil] at hresult
  obtain ⟨rfl, rfl⟩ := hresult
  refine ⟨_, _, _, hrun, List.length_append, rfl, ?_, hsends, hcarries⟩
  rw [← hleaves] at hfed
  exact hfed

/-- The client wrote `r` bytes, all are acknowledged, and the server has read none. -/
structure Fills (r : Nat) (n : Net) : Prop where
  reached : Reachable network n
  written : (n.endpoint .client).written.length = r
  pending : (n.endpoint .client).pending = []
  feeding : Feeding (n.endpoint .client).written r r (n.tcb .client)
  idle : (n.tcb .client).tTimer .rexmt = 0
  window : (n.tcb .client).sndWnd = 0 ↔ recvBufSize.toNat < r + 32
  holding : Holding r r false (n.tcb .server)
  inbox : ∀ x, n.inbox x = []

theorem Fills.round (h : Fills r n) (hr : r + 32 ≤ recvBufSize.toNat) : ∃ n', Fills (r + 1) n' := by
  have hsize : recvBufSize.toNat = 1048576 := rfl
  have hopen : (n.tcb .client).sndWnd ≠ 0 := fun hshut => absurd (h.window.mp hshut) (by omega)
  obtain ⟨e₁, log₁, seg, hrun₁, hlen₁, hpending₁, hfed₁, hsent, hcarries⟩ :=
    h.feeding.sends h.written h.pending (by omega) hopen
  obtain ⟨n₁, hstep₁, hclient₁, hserver₁, hmail₁, hbytes₁⟩ := @step_ran _ _ _ n rfl .client .server rfl hrun₁
  rw [h.inbox] at hmail₁
  rw [h.inbox, hsent] at hbytes₁
  -- the network delivers the byte twice, so the server acknowledges without its timer
  obtain ⟨n₂, hstep₂, hends₂, hbytes₂, hmail₂⟩ := @step_duplicated _ n₁ .server .client rfl hbytes₁
  rw [← hends₂] at hclient₁ hserver₁
  have hholding₂ := h.holding
  rw [Net.tcb, ← hserver₁] at hholding₂
  obtain ⟨e₃, log₃, hrun₃, -, -, hholding₃, hsilent₃⟩ := hholding₂.takes (by omega) hcarries (.still 0)
  obtain ⟨n₃, hstep₃, hserver₃, hclient₃, hbytes₃, hmail₃⟩ := @step_received _ _ _ _ n₂ .server .client rfl _ hbytes₂ hrun₃
  rw [hmail₂, hmail₁, hsilent₃] at hmail₃
  rw [← hserver₃] at hholding₃
  obtain ⟨e₄, log₄, timeUs, hrun₄, -, -, hholding₄, hacked⟩ :=
    hholding₃.repeats hcarries (envAllocates_still 0)
  obtain ⟨n₄, hstep₄, hserver₄, hclient₄, hbytes₄, hmail₄⟩ := @step_received _ _ _ _ n₃ .server .client rfl _ hbytes₃ hrun₄
  rw [hmail₃, hacked] at hmail₄
  have hacks := hholding₄.acks (by omega) timeUs e₄.tcb.sndNxt
  have hclient : n₄.endpoint .client = e₁ := hclient₄.trans (hclient₃.trans hclient₁)
  rw [← hclient] at hlen₁ hpending₁ hfed₁
  obtain ⟨e₅, log₅, hrun₅, hwritten₅, hpending₅, hfed₅, hidle₅, hwindow₅, hsilent₅⟩ :=
    hfed₁.answered hlen₁ (by omega) (by omega) hacks (.still 0)
  obtain ⟨n₅, hstep₅, hclient₅, hserver₅, hmail₅, hbytes₅⟩ := @step_received _ _ _ _ n₄ .client .server rfl _ hmail₄ hrun₅
  rw [hbytes₄, hsilent₅] at hbytes₅
  rw [← hserver₄] at hholding₄
  have hreached : Reachable network n₅ :=
    .step (.step (.step (.step (.step h.reached trivial hstep₁) trivial hstep₂) trivial hstep₃)
      trivial hstep₄) trivial hstep₅
  subst hclient₅
  refine ⟨n₅, hreached, ?_, hpending₅.trans hpending₁, hfed₅, hidle₅, hwindow₅, ?_, ?_⟩
  · rw [hwritten₅]
    exact hlen₁
  · change Holding (r + 1) (r + 1) false (n₅.endpoint .server).tcb
    rw [hserver₅]
    exact hholding₄
  · intro x
    cases x with
    | client => exact hmail₅
    | server => exact hbytes₅

theorem fills_start : ∃ n, Fills 0 n := by
  obtain ⟨n, hreach, hcheck⟩ := @reachable_where connecting (fun n =>
    decide ((n.inbox .client).isEmpty ∧ (n.inbox .server).isEmpty ∧
      (n.endpoint .client).written = [] ∧ (n.endpoint .client).pending = []) &&
    decide ((n.tcb .client).state = .established ∧ (n.tcb .client).iss = 0 ∧
      (n.tcb .client).sndUna = 1 ∧ (n.tcb .client).sndNxt = 1 ∧ (n.tcb .client).sndMax = 1 ∧
      (n.tcb .client).sendBufHead = 0 ∧ (n.tcb .client).sendBufTail = 0 ∧
      (n.tcb .client).rcvNxt = 1 ∧ (n.tcb .client).sndScale = 5 ∧
      (n.tcb .client).scaleEnabled = true ∧ (n.tcb .client).ccOps = .newReno ∧
      (n.tcb .client).caState = .open ∧ (n.tcb .client).ssthresh = 0xFFFFFFFF ∧
      (n.tcb .client).cwnd = 4200 ∧ (n.tcb .client).tfAcknow = false ∧
      (n.tcb .client).tfDelack = false ∧ (n.tcb .client).sndWnd = 65535 ∧
      ∀ timer ∈ Timer.all, (n.tcb .client).tTimer timer = 0) &&
    decide ((n.tcb .server).state = .established ∧ (n.tcb .server).sndUna = 1 ∧
      (n.tcb .server).sendBufTail = 0 ∧ (n.tcb .server).rcvNxt = 1 ∧ bufUsed (n.tcb .server) = 0 ∧
      (n.tcb .server).oooHead.isEmpty ∧ (n.tcb .server).oooBytes = 0 ∧
      (n.tcb .server).rcvScale = 5 ∧ (n.tcb .server).scaleEnabled = true ∧
      (n.tcb .server).tDupacks = 0 ∧ (n.tcb .server).tfAcknow = false ∧
      (n.tcb .server).tfDelack = false ∧ ∀ timer ∈ Timer.all, (n.tcb .server).tTimer timer = 0)) (by decide +kernel)
  simp only [Bool.and_eq_true, decide_eq_true_eq, List.isEmpty_iff] at hcheck
  obtain ⟨⟨⟨hmail, hbytes, hwritten, hpending⟩, hstate, hiss, huna, hnxt, hmax, hhead, htail, hrcv,
    hscale, henabled, hops, hca, hssthresh, hcwnd, hacknow, hdelack, hwnd, htimers⟩, hstate', huna',
    htail', hrcv', hused, hqueue, hooo, hscale', henabled', hdups, hacknow', hdelack', htimers'⟩ :=
    hcheck
  refine ⟨n, hreach, ?_, hpending, ?_, htimers _ (Timer.mem_all _), ?_, ?_, ?_⟩
  · rw [hwritten]
    rfl
  · rw [hwritten]
    exact ⟨⟨hstate, hiss, huna, hnxt, hmax, hhead, htail, Nat.le_refl 0, Nat.le_refl 0, Nat.le_refl 0,
      Nat.zero_le _, fun i hi => absurd hi (Nat.not_lt_zero i)⟩, hrcv, hscale, henabled, hops, hca,
      hssthresh, hcwnd, hacknow, hdelack, fun timer _ => htimers timer (Timer.mem_all timer)⟩
  · rw [hwnd]
    decide
  · exact ⟨hstate', huna', htail', hrcv', hused, hqueue, hooo, hscale', henabled', hdups, hacknow',
      hdelack', fun timer _ => htimers' timer (Timer.mem_all timer)⟩
  · intro x
    cases x with
    | client => exact hmail
    | server => exact hbytes

theorem fills (r : Nat) (hr : r + 31 ≤ recvBufSize.toNat) : ∃ n, Fills r n := by
  induction r with
  | zero => exact fills_start
  | succ r ih =>
      obtain ⟨n, hn⟩ := ih (by omega)
      exact hn.round (by omega)

/-- A byte that the window has no room for is not sent. -/
theorem Feeding.waits (h : Feeding e.written r r e.tcb) (hlen : e.written.length = r)
    (hpending : e.pending = []) (hshut : e.tcb.sndWnd = 0) :
    ∃ e' log, e.run oneByte = some (e', log) ∧ e'.tcb = writeChunk e.tcb [0] ∧
      e.tcb.sendBufHead ≠ (writeChunk e.tcb [0]).sendBufTail ∧ segments log = [] := by
  have hroom : sendFreeSpace e.tcb = sendBufSize := by
    rw [sendFreeSpace, h.sending.head, h.sending.tail, hlen, BitVec.sub_self]
    rfl
  have hrun : e.run oneByte = some (e.sendSection (fun _ => .still 0) [0]) :=
    if_pos ⟨h.sending.state, hpending⟩
  have hsection := utcpSend_one (fun _ => .still 0) 0 hroom
  have hzero : outputLength (writeChunk e.tcb [0]) = 0 := by
    have hstate : (writeChunk e.tcb [0]).state = .established := h.sending.state
    refine (outputLength_zero_iff hstate).mpr (.inl ?_)
    have hwindow : (sendWindow (writeChunk e.tcb [0])).toNat = 0 := by
      rw [sendWindow_toNat]
      change min e.tcb.sndWnd.toNat _ = 0
      rw [hshut]
      exact Nat.zero_min _
    rw [WindowFull, hwindow]
    exact Nat.zero_le _
  have hstops := @utcpOutput_stops (writeChunk e.tcb [0]) (Env.still 0).output h.sending.state
    h.tfAcknow hzero
  generalize hresult : e.sendSection (fun _ => .still 0) [0] = result at hrun
  obtain ⟨e', log⟩ := result
  rw [Endpoint.sendSection, hsection, hstops] at hresult
  simp only [Endpoint.finish, Prod.mk.injEq, List.append_nil] at hresult
  obtain ⟨rfl, rfl⟩ := hresult
  refine ⟨_, _, hrun, rfl, ?_, rfl⟩
  have htail : (writeChunk e.tcb [0]).sendBufTail = BitVec.ofNat 32 (r + 1) := by
    change e.tcb.sendBufTail + 1 = _
    rw [h.sending.tail, hlen, BitVec.ofNat_add]
    rfl
  rw [h.sending.head, htail]
  intro hsame
  have hword := congrArg BitVec.toNat hsame
  rw [BitVec.toNat_ofNat, BitVec.toNat_ofNat] at hword
  omega

/-- The application of the server reads everything. -/
def readAll : Section := .read (.still 0) recvBufSize.toNat

theorem takeBytes_all (hused : (bufUsed tcb).toNat = r) (hooo : tcb.oooBytes = 0) :
    takeBytes tcb r = { tcb with recvBufHead := tcb.recvBufTail, rcvWnd := recvBufSize } := by
  have hhead : tcb.recvBufHead + BitVec.ofNat 32 r = tcb.recvBufTail := by
    have hback : BitVec.ofNat 32 r = tcb.recvBufTail - tcb.recvBufHead := by
      apply BitVec.eq_of_toNat_eq
      rw [BitVec.toNat_ofNat, ← hused, Nat.mod_eq_of_lt (BitVec.isLt _)]
      rfl
    rw [hback, BitVec.add_comm]
    exact BitVec.sub_add_cancel _ _
  simp only [takeBytes]
  rw [hhead, hooo, BitVec.sub_self]
  congr 1

theorem Holding.empties (h : Holding pos r false e.tcb) (hr : r ≤ recvBufSize.toNat) (hpos : 0 < r) :
    ∃ e' log seg, e.run readAll = some (e', log) ∧ e'.tcb.state = .established ∧
      e'.tcb.recvBufHead = e'.tcb.recvBufTail ∧ (∀ timer, e'.tcb.tTimer timer = 0) ∧
      segments log = [seg] := by
  have hsize : recvBufSize.toNat = 1048576 := rfl
  have hused : (bufUsed e.tcb).toNat = r := by
    rw [h.used, BitVec.toNat_ofNat, Nat.mod_eq_of_lt (by omega)]
  have hsome : e.tcb.recvBufHead ≠ e.tcb.recvBufTail := by
    intro hsame
    rw [bufUsed, hsame, BitVec.sub_self] at hused
    change 0 = r at hused
    omega
  have hrun : e.run readAll = some (e.afterRead (utcpRead (.still 0) e.tcb recvBufSize.toNat)) :=
    if_pos ⟨h.state, hsome⟩
  have htaken := takeBytes_all hused h.oooBytes
  have hwide : sendsUpdate recvBufSize (bufUsed e.tcb) := .inl (by decide)
  generalize hresult : e.afterRead (utcpRead (.still 0) e.tcb recvBufSize.toNat) = result at hrun
  obtain ⟨e', log⟩ := result
  simp only [Endpoint.afterRead, utcpRead] at hresult
  rw [hused, Nat.min_eq_right hr, htaken] at hresult
  simp only at hresult
  rw [if_pos hwide] at hresult
  generalize hleft : { e.tcb with recvBufHead := e.tcb.recvBufTail, rcvWnd := recvBufSize } = left
    at hresult
  have hheld : left.state = .established ∧ left.tfAcknow = false ∧ left.tfDelack = false ∧
      left.sendBufTail = 0 ∧ left.recvBufHead = left.recvBufTail ∧
      ∀ timer, left.tTimer timer = 0 := by
    rw [← hleft]
    exact ⟨h.state, h.tfAcknow, h.tfDelack, h.tail, rfl, fun timer => h.timers timer (.inr rfl)⟩
  obtain ⟨hstate, hacknow, hdelack, htail, hempty, htimers⟩ := hheld
  obtain ⟨hleaves, hsends⟩ := @utcpOutput_ack left (Env.still 0).output hstate hacknow rfl
    (settled_unwritten htail hstate)
  have hcancel : cancelDelack left = left := by
    rw [cancelDelack, hdelack]
    rfl
  rw [hcancel] at hleaves
  generalize utcpOutput (Env.still 0).output (setAcknow left) = out at hresult hleaves hsends
  subst hleaves
  simp only [Endpoint.finish, Prod.mk.injEq] at hresult
  obtain ⟨rfl, rfl⟩ := hresult
  exact ⟨_, _, _, hrun, hstate, hempty, htimers, hsends⟩

/-- With the window shut, its update lost and the persist timer never armed, both ends wait
for ever. -/
theorem silent_deadlock :
    ¬ ∀ n, Reachable network n → (∀ x, (n.tcb x).state = .established) →
      (∀ x, n.inbox x = []) → ∀ x, (n.tcb x.other).recvBufHead = (n.tcb x.other).recvBufTail →
      (n.tcb x).sendBufHead ≠ (n.tcb x).sendBufTail →
      ∃ y timer, Wakes (n.tcb y) timer := by
  intro hclaim
  have hsize : recvBufSize.toNat = 1048576 := rfl
  obtain ⟨r, hr⟩ : ∃ r, r + 31 = recvBufSize.toNat := ⟨1048545, rfl⟩
  obtain ⟨n, hn⟩ := fills r (by omega)
  have hshut : (n.tcb .client).sndWnd = 0 := hn.window.mpr (by omega)
  obtain ⟨e₁, log₁, hrun₁, hleaves₁, hleft, hsilent₁⟩ :=
    hn.feeding.waits hn.written hn.pending hshut
  obtain ⟨n₁, hstep₁, hclient₁, hserver₁, hmail₁, hbytes₁⟩ :=
    @step_ran _ _ _ n rfl .client .server rfl hrun₁
  rw [hn.inbox] at hmail₁
  rw [hn.inbox, hsilent₁] at hbytes₁
  have hholding := hn.holding
  rw [Net.tcb, ← hserver₁] at hholding
  obtain ⟨e₂, log₂, seg, hrun₂, hstate₂, hempty, htimers₂, hupdate⟩ :=
    hholding.empties (by omega) (by omega)
  obtain ⟨n₂, hstep₂, hserver₂, hclient₂, hbytes₂, hmail₂⟩ :=
    @step_ran _ _ _ n₁ rfl .server .client rfl hrun₂
  rw [hmail₁, hupdate] at hmail₂
  obtain ⟨n₃, hstep₃, hends₃, hmail₃, hbytes₃⟩ := @step_lost _ n₂ .client .server rfl hmail₂
  rw [hbytes₂, hbytes₁] at hbytes₃
  have hreached : Reachable network n₃ :=
    .step (.step (.step hn.reached trivial hstep₁) trivial hstep₂) trivial hstep₃
  have hclient : n₃.tcb .client = writeChunk (n.tcb .client) [0] := by
    rw [Net.tcb, hends₃, hclient₂, hclient₁, hleaves₁]
  have hserver : n₃.endpoint .server = e₂ := by
    rw [hends₃, hserver₂]
  subst hserver
  have htimers : ∀ y timer, (n₃.tcb y).tTimer timer = 0 := by
    intro y timer
    cases y with
    | client =>
        rw [hclient]
        by_cases htimer : timer = .rexmt
        · rw [htimer]
          exact hn.idle
        · exact hn.feeding.timers timer htimer
    | server => exact htimers₂ timer
  have hstates : ∀ x, (n₃.tcb x).state = .established := by
    intro x
    cases x with
    | client =>
        rw [hclient]
        exact hn.feeding.sending.state
    | server => exact hstate₂
  have hinboxes : ∀ x, n₃.inbox x = [] := by
    intro x
    cases x with
    | client => exact hmail₃
    | server => exact hbytes₃
  have hwaiting : (n₃.tcb .client).sendBufHead ≠ (n₃.tcb .client).sendBufTail := by
    rw [hclient]
    exact hleft
  obtain ⟨y, timer, hruns, -⟩ := hclaim n₃ hreached hstates hinboxes .client hempty hwaiting
  rw [htimers] at hruns
  exact absurd hruns (by decide)

end Utcp.Deadlock
