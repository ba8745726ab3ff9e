import Utcp.SectionCases
import Utcp.Timeouts

/-!
Acknowledgements: what an endpoint last told its peer, and when it owes it more.
-/

namespace Utcp.OwedAcks

open Traces
open TransitionSystems
open Utcp.Tcp
open Utcp.Utils
open Utcp.Output
open Utcp.CongestionControl
open Utcp.Timers
open Utcp.Input
open Utcp.Api
open Utcp.Steps
open Utcp.Sections
open Utcp.SectionCases
open Utcp.SendLoop
open Utcp.Opening
open Utcp.Timeouts

/-- What somebody knows who sees the events of an endpoint: the ACK number of the
last segment it emitted, and how many in-order segments it accepted since. -/
structure Ledger where
  lastAck : Option U32
  accepted : Nat
deriving DecidableEq

variable {env : Env} {tcb tcb' : Tcb} {seg : TcpSegment} {peer : Peer} {out : Out}
  {log : List Event} {l : Ledger}

def Ledger.note (l : Ledger) : Event → Ledger
  | .sent _ _ seg => ⟨some seg.hdr.thAck, 0⟩
  | .accepted => { l with accepted := l.accepted + 1 }
  | _ => l

/-- The ledger after some events. -/
def Ledger.read (l : Ledger) (log : List Event) : Ledger := log.foldl Ledger.note l

/-- The ledger of everything an endpoint has done. -/
def ledgerOf (history : List Event) : Ledger := Ledger.read ⟨none, 0⟩ history

@[simp] theorem read_cons (l : Ledger) (event : Event) (log : List Event) :
    l.read (event :: log) = (l.note event).read log := rfl

@[simp] theorem read_append (l : Ledger) (log log' : List Event) :
    l.read (log ++ log') = (l.read log).read log' :=
  List.foldl_append

/-- Events that are not in the ledger. -/
def Unnoted (log : List Event) : Prop := ∀ event ∈ log, ∀ l : Ledger, l.note event = l

theorem Unnoted.read (h : Unnoted log) (l : Ledger) : l.read log = l := by
  induction log with
  | nil => rfl
  | cons event log ih =>
      rw [read_cons, h event List.mem_cons_self]
      exact ih fun event hevent => h event (List.mem_cons_of_mem _ hevent)

/-- A piece of code told the peer everything that is received. -/
structure Spoken (tcb : Tcb) (out : Out) : Prop where
  ledger : ∀ l : Ledger, l.read out.log = ⟨some tcb.rcvNxt, 0⟩
  rcvNxt : out.tcb.rcvNxt = tcb.rcvNxt
  tfDelack : out.tcb.tfDelack = false

/-- A piece of code told the peer everything, or it did nothing. -/
inductive Speaks (tcb : Tcb) : Out → Prop
  | quiet : Speaks tcb ⟨tcb, []⟩
  | spoken {out : Out} (h : Spoken tcb out) : Speaks tcb out

theorem Spoken.after {rest : Out} (h : Spoken tcb out) (hrest : Speaks out.tcb rest) :
    Spoken tcb ⟨rest.tcb, out.log ++ rest.log⟩ := by
  cases hrest with
  | quiet =>
      rw [List.append_nil]
      exact h
  | spoken hrest =>
      refine ⟨?_, hrest.rcvNxt.trans h.rcvNxt, hrest.tfDelack⟩
      intro l
      rw [read_append, hrest.ledger, h.rcvNxt]

theorem cancelDelack_tfDelack (tcb : Tcb) : (cancelDelack tcb).tfDelack = false := by
  unfold cancelDelack
  split
  · rfl
  · rename_i hdelack
    exact Bool.not_eq_true _ ▸ hdelack

theorem cancelDelack_rcvNxt (tcb : Tcb) : (cancelDelack tcb).rcvNxt = tcb.rcvNxt := by
  unfold cancelDelack
  split <;> rfl

theorem advanceSndNxt_flags (tcb : Tcb) (dataLength : U32) (newSynFin : Bool) :
    (advanceSndNxt tcb dataLength newSynFin).rcvNxt = tcb.rcvNxt ∧
      (advanceSndNxt tcb dataLength newSynFin).tfDelack = tcb.tfDelack := by
  obtain ⟨_, _, _, heq⟩ := advanceSndNxt_eq tcb dataLength newSynFin
  rw [heq]
  exact ⟨rfl, rfl⟩

theorem outputTurn_spoken {reading : Reading} (halloc : reading.alloc = true) (flags : U8)
    {forceSend : Bool}
    (hsends : ¬ (outputLength tcb = 0 ∧ !sendingNewSynFin flags tcb ∧ !forceSend)) :
    Spoken tcb (outputTurn reading flags forceSend tcb).1 := by
  have hrcvNxt := cancelDelack_rcvNxt tcb
  have hdelack := cancelDelack_tfDelack tcb
  simp only [outputTurn, utcpSendSegment]
  rw [if_neg hsends, if_pos halloc]
  refine ⟨?_, ?_, ?_⟩
  · intro l
    exact congrArg (fun ack => Ledger.mk (some ack) 0) hrcvNxt
  · dsimp only
    split
    · exact (advanceSndNxt_flags ..).1.trans hrcvNxt
    · exact hrcvNxt
  · dsimp only
    split
    · exact (advanceSndNxt_flags ..).2.trans hdelack
    · exact hdelack

theorem outputTurn_speaks {reading : Reading} (halloc : reading.alloc = true) (flags : U8)
    (forceSend : Bool) (tcb : Tcb) : Speaks tcb (outputTurn reading flags forceSend tcb).1 := by
  by_cases hnothing : outputLength tcb = 0 ∧ !sendingNewSynFin flags tcb ∧ !forceSend
  · simp only [outputTurn]
    rw [if_pos hnothing]
    exact .quiet
  · exact .spoken (outputTurn_spoken halloc flags hnothing)

theorem outputLoop_speaks {readings : Nat → Reading} (halloc : ∀ i, (readings i).alloc = true)
    (flags : U8) (fuel : Nat) :
    ∀ (turn : Nat) (forceSend : Bool) (tcb : Tcb),
      Speaks tcb (outputLoop readings flags fuel turn forceSend tcb) := by
  induction fuel with
  | zero => exact fun _ _ _ => .quiet
  | succ fuel ih =>
      intro turn forceSend tcb
      have hturn := outputTurn_speaks (halloc turn) flags forceSend tcb
      simp only [outputLoop]
      split
      · generalize (outputTurn (readings turn) flags forceSend tcb).1 = out at hturn ⊢
        cases hturn with
        | quiet => exact ih _ _ _
        | spoken hturn => exact .spoken (hturn.after (ih _ _ _))
      · exact hturn

theorem outputLoop_spoken {readings : Nat → Reading} (halloc : ∀ i, (readings i).alloc = true)
    (flags : U8) (fuel turn : Nat) {forceSend : Bool}
    (hsends : sendingNewSynFin flags tcb = true ∨ forceSend = true) :
    Spoken tcb (outputLoop readings flags (fuel + 1) turn forceSend tcb) := by
  have hturn : Spoken tcb (outputTurn (readings turn) flags forceSend tcb).1 := by
    apply outputTurn_spoken (halloc turn)
    rintro ⟨-, hsyn, hforce⟩
    rcases hsends with hsends | hsends
    · simp [hsends] at hsyn
    · simp [hsends] at hforce
  have hrest : Spoken tcb _ := hturn.after (outputLoop_speaks halloc flags fuel (turn + 1) false _)
  rw [outputLoop.eq_def]
  dsimp only
  split
  · exact hrest
  · exact hturn

theorem utcpOutput_speaks {readings : Nat → Reading} (halloc : ∀ i, (readings i).alloc = true)
    (tcb : Tcb) : Speaks { tcb with tfAcknow := false } (utcpOutput readings tcb) :=
  outputLoop_speaks halloc ..

theorem utcpOutput_spoken {readings : Nat → Reading} (halloc : ∀ i, (readings i).alloc = true)
    (hsends : sendingNewSynFin (tcpOutflags tcb.state) tcb = true ∨ tcb.tfAcknow = true) :
    Spoken tcb (utcpOutput readings tcb) := by
  have hspoken : Spoken { tcb with tfAcknow := false } (utcpOutput readings tcb) :=
    outputLoop_spoken halloc _ _ 0 hsends
  exact ⟨hspoken.ledger, hspoken.rcvNxt, hspoken.tfDelack⟩

theorem acknow_spoken {readings : Nat → Reading} (halloc : ∀ i, (readings i).alloc = true)
    (tcb : Tcb) : Spoken (setAcknow tcb) (utcpOutput readings (setAcknow tcb)) :=
  utcpOutput_spoken halloc (.inr rfl)

/-- The block after the next `n` turns of the loop of `utcp_output`. -/
def afterTurns (readings : Nat → Reading) (flags : U8) : Nat → Bool → Tcb → Nat → Tcb
  | _, _, tcb, 0 => tcb
  | turn, forceSend, tcb, n + 1 =>
      afterTurns readings flags (turn + 1) false
        (outputTurn (readings turn) flags forceSend tcb).1.tcb n

/-- The next `n` turns send data, and the turn behind them fails to send. -/
def FailsAfter (readings : Nat → Reading) (flags : U8) : Nat → Bool → Tcb → Nat → Prop
  | turn, forceSend, tcb, 0 =>
      ¬ (outputLength tcb = 0 ∧ !sendingNewSynFin flags tcb ∧ !forceSend) ∧
        (readings turn).alloc = false
  | turn, forceSend, tcb, n + 1 =>
      (outputTurn (readings turn) flags forceSend tcb).2 = true ∧
        FailsAfter readings flags (turn + 1) false
          (outputTurn (readings turn) flags forceSend tcb).1.tcb n

/-- `utcp_send_segment` returns -1 in a call of `utcp_output` behind `n` segments. -/
def SendFails (readings : Nat → Reading) (tcb : Tcb) (n : Nat) : Prop :=
  FailsAfter readings (tcpOutflags tcb.state) 0 tcb.tfAcknow { tcb with tfAcknow := false } n

/-- The block after the first `n` segments of a call of `utcp_output`. -/
def afterSegments (readings : Nat → Reading) (tcb : Tcb) (n : Nat) : Tcb :=
  if n = 0 then tcb
  else
    afterTurns readings (tcpOutflags tcb.state) 0 tcb.tfAcknow { tcb with tfAcknow := false } n

theorem outputTurn_fails {reading : Reading} {flags : U8} {forceSend : Bool}
    (hsends : ¬ (outputLength tcb = 0 ∧ !sendingNewSynFin flags tcb ∧ !forceSend))
    (hfailed : reading.alloc = false) :
    outputTurn reading flags forceSend tcb = (⟨cancelDelack tcb, []⟩, false) := by
  have hnot : ¬ reading.alloc = true := Bool.not_eq_true _ ▸ hfailed
  simp only [outputTurn, utcpSendSegment]
  rw [if_neg hsends, if_neg hnot]

theorem outputTurn_goesOn {reading : Reading} {flags : U8} {forceSend : Bool}
    (hmore : (outputTurn reading flags forceSend tcb).2 = true) :
    (outputTurn reading flags forceSend tcb).1.tcb.tfDelack = false := by
  have hsends : ¬ (outputLength tcb = 0 ∧ !sendingNewSynFin flags tcb ∧ !forceSend) := by
    intro hquiet
    simp only [outputTurn] at hmore
    rw [if_pos hquiet] at hmore
    cases hmore
  cases halloc : reading.alloc with
  | true => exact (outputTurn_spoken halloc flags hsends).tfDelack
  | false =>
      rw [outputTurn_fails hsends halloc]
      exact cancelDelack_tfDelack tcb

theorem loopRuns_fails {readings : Nat → Reading} {flags : U8} {turn : Nat} {forceSend : Bool}
    (h : LoopRuns readings flags turn forceSend tcb out) :
    ∀ n, FailsAfter readings flags turn forceSend tcb n →
      out.tcb = cancelDelack (afterTurns readings flags turn forceSend tcb n) := by
  induction h with
  | stop hturn =>
      intro n hfails
      cases n with
      | zero =>
          rw [outputTurn_fails hfails.1 hfails.2] at hturn
          exact congrArg (fun result => result.1.tcb) hturn.symm
      | succ n =>
          have hmore := hfails.1
          rw [hturn] at hmore
          cases hmore
  | again hturn _ ih =>
      intro n hfails
      cases n with
      | zero =>
          rw [outputTurn_fails hfails.1 hfails.2] at hturn
          cases (Prod.mk.inj hturn).2
      | succ n =>
          have hrest := hfails.2
          rw [hturn] at hrest
          rw [afterTurns, hturn]
          exact ih n hrest

theorem utcpOutput_loopRuns (readings : Nat → Reading) (tcb : Tcb) :
    LoopRuns readings (tcpOutflags tcb.state) 0 tcb.tfAcknow { tcb with tfAcknow := false }
      (utcpOutput readings tcb) := by
  by_cases hstate : tcb.state = .established
  · have hflags : tcpOutflags tcb.state = thAck := congrArg tcpOutflags hstate
    rw [hflags]
    exact utcpOutput_runs readings hstate
  · have hmore := @outputTurn_opening { tcb with tfAcknow := false } (readings 0)
      (tcpOutflags tcb.state) tcb.tfAcknow hstate
    rw [utcpOutput_opening readings hstate]
    exact .stop (Prod.ext rfl hmore)

theorem cancelDelack_of_clear (h : tcb.tfDelack = false) : cancelDelack tcb = tcb := by
  rw [cancelDelack, h]
  rfl

theorem afterTurns_tfDelack {readings : Nat → Reading} {flags : U8} (n : Nat) :
    ∀ {turn : Nat} {forceSend : Bool} {tcb : Tcb},
      FailsAfter readings flags turn forceSend tcb (n + 1) →
      (afterTurns readings flags turn forceSend tcb (n + 1)).tfDelack = false := by
  induction n with
  | zero =>
      intro turn forceSend tcb h
      exact outputTurn_goesOn h.1
  | succ n ih =>
      intro turn forceSend tcb h
      rw [afterTurns]
      exact ih h.2

/-- A failed send leaves the block as it was before it, unless it is the first of
the call and an ACK is owed. -/
theorem failed_send_iff {readings : Nat → Reading} {n : Nat} (hfails : SendFails readings tcb n) :
    (utcpOutput readings tcb).tcb = afterSegments readings tcb n ↔
      (n = 0 → tcb.tfAcknow = false ∧ tcb.tfDelack = false) := by
  have hafter := loopRuns_fails (utcpOutput_loopRuns readings tcb) n hfails
  rw [hafter, afterSegments]
  cases n with
  | zero =>
      rw [if_pos rfl, afterTurns]
      constructor
      · intro hsame _
        rw [← hsame]
        exact ⟨cancelDelack_tfAcknow _, cancelDelack_tfDelack _⟩
      · intro hclear
        obtain ⟨hacknow, hdelack⟩ := hclear rfl
        have hentry : { tcb with tfAcknow := false } = tcb := by
          rw [← hacknow]
        rw [hentry, cancelDelack_of_clear hdelack]
  | succ n =>
      rw [if_neg (Nat.succ_ne_zero n), cancelDelack_of_clear (afterTurns_tfDelack n hfails)]
      exact iff_of_true rfl fun hzero => absurd hzero (Nat.succ_ne_zero n)

/-- An established connection with two full segments to send. -/
def sending : Tcb :=
  { utcpSocket with
    state := .established, sndNxt := 1, sndUna := 1, sndWnd := 9000, cwnd := 9000
    sendBufTail := 2800 }

/-- The second segment fails. -/
theorem failed_send_second :
    let readings : Nat → Reading := fun turn => ⟨0, decide (turn = 0)⟩
    (utcpOutput readings sending).tcb = afterSegments readings sending 1 := by
  intro readings
  have hfails : SendFails readings sending 1 :=
    ⟨by decide +kernel, by decide +kernel, rfl⟩
  exact (failed_send_iff hfails).mpr (by decide)

/-- The first segment fails, and with it the ACK that was asked for. -/
theorem failed_send_loses :
    ∃ (readings : Nat → Reading) (tcb : Tcb), SendFails readings tcb 0 ∧ tcb.tfAcknow = true ∧
      (utcpOutput readings tcb).tcb.tfAcknow = false ∧
      (utcpOutput readings tcb).tcb ≠ afterSegments readings tcb 0 := by
  have hcleared := utcpOutput_tfAcknow (fun _ => ⟨0, false⟩) (setAcknow sending)
  refine ⟨fun _ => ⟨0, false⟩, setAcknow sending, ⟨by decide, rfl⟩, rfl, hcleared, ?_⟩
  intro hsame
  rw [hsame] at hcleared
  cases hcleared

/-- The peer has heard of everything that is received, except perhaps of one
segment for which the delayed ACK is scheduled. -/
structure Owed (l : Ledger) (tcb : Tcb) : Prop where
  timer : tcb.tfDelack = true →
    1 ≤ (tcb.tTimer .delack).toNat ∧ (tcb.tTimer .delack).toNat ≤ tcptvDelack.toNat
  acked : l = ⟨some tcb.rcvNxt, 0⟩ ∨
    tcb.tfDelack = true ∧ l.accepted = 1 ∧ l.lastAck.isSome = true

/-- A piece of code forgets no owed acknowledgement. -/
def Owes (tcb : Tcb) (log : List Event) (tcb' : Tcb) : Prop :=
  ∀ l : Ledger, Owed l tcb → Owed (l.read log) tcb'

theorem owes_composes : Composes Owes where
  nil := fun _ _ h => h
  append := by
    intro a b c log log' hab hbc l h
    rw [read_append]
    exact hbc _ (hab l h)

theorem Spoken.owed (h : Spoken tcb out) (l : Ledger) : Owed (l.read out.log) out.tcb := by
  constructor
  · intro hdelack
    rw [h.tfDelack] at hdelack
    cases hdelack
  · left
    rw [h.ledger, h.rcvNxt]

theorem Speaks.owes (h : Speaks tcb out) : Owes tcb out.log out.tcb := by
  intro l hl
  cases h with
  | quiet => exact hl
  | spoken h => exact h.owed l

theorem owes_of_eq (hlog : Unnoted log) (hrcvNxt : tcb'.rcvNxt = tcb.rcvNxt)
    (hdelack : tcb'.tfDelack = tcb.tfDelack)
    (htimer : tcb'.tTimer .delack = tcb.tTimer .delack) : Owes tcb log tcb' := by
  intro l h
  rw [hlog.read]
  constructor
  · rw [hdelack, htimer]
    exact h.timer
  · rw [hrcvNxt, hdelack]
    exact h.acked

theorem utcpOutput_owes {readings : Nat → Reading} (halloc : ∀ i, (readings i).alloc = true)
    (tcb : Tcb) : Owes tcb (utcpOutput readings tcb).log (utcpOutput readings tcb).tcb := by
  intro l h
  exact (utcpOutput_speaks halloc tcb).owes l ⟨h.timer, h.acked⟩

theorem retransmit_owes {reading : Reading} (halloc : reading.alloc = true) (seq : U32) :
    Owes tcb (utcpRetransmitSegment reading tcb seq) tcb := by
  intro l h
  rw [utcpRetransmitSegment]
  split
  · exact h
  · simp only [utcpSendSegment]
    rw [if_pos halloc]
    exact ⟨h.timer, .inl rfl⟩

theorem reaction_owes (halloc : EnvAllocates env) (h : Reaction env tcb out) :
    Owes tcb out.log out.tcb := by
  cases h with
  | change => exact fun l h => ⟨h.timer, h.acked⟩
  | retransmit =>
      intro l h
      have hafter := retransmit_owes halloc.retransmit tcb.sndUna l h
      exact ⟨hafter.timer, hafter.acked⟩
  | burst cwnd =>
      intro l h
      exact utcpOutput_owes halloc.burst _ l ⟨h.timer, h.acked⟩

theorem beforeAckEvent_unnoted (env : Env) (tcb : Tcb) (seg : TcpSegment) :
    Unnoted (beforeAckEvent env tcb seg).log := by
  unfold beforeAckEvent rearmRexmt
  split
  · rintro event ⟨⟩
  · dsimp only
    split
    · rintro event hevent l
      rw [List.mem_singleton.mp hevent]
      rfl
    · rintro event ⟨⟩

theorem handleAck_owes (halloc : EnvAllocates env) (h : handleAck env tcb seg = some out) :
    Owes tcb out.log out.tcb := by
  cases handleAck_cases h with
  | acked cc hack hcc =>
      obtain ⟨_, _, _, _, _, _, _, hbefore⟩ := beforeAckEvent_eq env tcb seg
      have hreaction := congControl_reaction (by simp) hcc
      apply owes_composes.append (b := (beforeAckEvent env tcb seg).tcb)
      · apply owes_of_eq (beforeAckEvent_unnoted env tcb seg)
        · rw [hbefore]
          rfl
        · rw [hbefore]
          rfl
        · rw [hbefore]
          rfl
      · exact reaction_owes halloc hreaction
  | window => exact fun l h => ⟨h.timer, h.acked⟩
  | duplicate _ dupacks hack hsame hsmaller hbare hflight hdupacks hcc =>
      intro l h
      exact reaction_owes halloc (congControl_reaction (by simp) hcc) l ⟨h.timer, h.acked⟩
  | ignored => exact owes_composes.nil tcb

theorem drainOooQueue_unnoted (tcb : Tcb) (queue : List TcpqEntry) :
    Unnoted (drainOooQueue tcb queue).log := by
  have htrace : Trace (ReceiveStep fun _ => False) { tcb with oooHead := queue }
      (drainOooQueue tcb queue).log (drainOooQueue tcb queue).tcb := drainOooQueue_trace queue tcb
  refine (htrace.events (I := fun _ => True) ?_ trivial).2
  rintro t log t' hstep -
  refine ⟨trivial, ?_⟩
  intro event hevent l
  cases hstep with
  | accept seg data hseg => exact hseg.elim
  | drainFull =>
      rcases List.mem_pair.mp hevent with rfl | rfl
      · rfl
      · rfl
  | space =>
      rw [List.mem_singleton.mp hevent]
      rfl
  | trim =>
      rw [List.mem_singleton.mp hevent]
      rfl
  | drain =>
      rw [List.mem_singleton.mp hevent]
      rfl
  | insert => cases hevent
  | absorb => cases hevent

theorem drainOooQueue_tfDelack (tcb : Tcb) (queue : List TcpqEntry) :
    (drainOooQueue tcb queue).tcb.tfDelack = tcb.tfDelack := by
  have htrace : Trace (ReceiveStep fun _ => True) { tcb with oooHead := queue }
      (drainOooQueue tcb queue).log (drainOooQueue tcb queue).tcb := drainOooQueue_trace queue tcb
  obtain ⟨_, _, _, _, _, heq⟩ := receiveTrace_eq htrace
  rw [heq]

/-- In-order data is acknowledged at once, unless no other ACK is delayed. -/
theorem scheduleAck_cases (tcb : Tcb) (gapFilled : Bool) :
    (scheduleAck tcb gapFilled).tfAcknow = true ∨
      tcb.tfDelack = false ∧ ∀ l : Ledger, l.accepted = 1 → l.lastAck.isSome = true →
        Owed l (scheduleAck tcb gapFilled) := by
  unfold scheduleAck
  split
  · left
    rfl
  · rename_i hlater
    right
    have hnone : tcb.tfDelack = false := Bool.not_eq_true _ ▸ fun h => hlater (.inr (.inr h))
    refine ⟨hnone, ?_⟩
    intro l hone hsome
    have hticks : 1 ≤ tcptvDelack.toNat := by decide
    exact ⟨fun _ => ⟨hticks, Nat.le_refl _⟩, .inr ⟨rfl, hone, hsome⟩⟩

theorem acceptInOrder_cases (tcb : Tcb) (data : List U8) :
    (acceptInOrder tcb data).tcb.tfAcknow = true ∨
      tcb.tfDelack = false ∧ Owes tcb (acceptInOrder tcb data).log (acceptInOrder tcb data).tcb := by
  let accepted := acceptBytes tcb data
  have hunnoted : Unnoted (drainOooQueue accepted accepted.oooHead).log :=
    drainOooQueue_unnoted accepted accepted.oooHead
  have hdelack : (drainOooQueue accepted accepted.oooHead).tcb.tfDelack = tcb.tfDelack :=
    drainOooQueue_tfDelack accepted accepted.oooHead
  have hschedule := scheduleAck_cases (drainOooQueue accepted accepted.oooHead).tcb
    ((drainOooQueue accepted accepted.oooHead).tcb.rcvNxt ≠ accepted.rcvNxt)
  rcases hschedule with hnow | ⟨hnone, howed⟩
  · exact .inl hnow
  · right
    rw [hdelack] at hnone
    refine ⟨hnone, ?_⟩
    intro l hl
    have hacked : l = ⟨some tcb.rcvNxt, 0⟩ := by
      rcases hl.acked with hacked | ⟨hset, -⟩
      · exact hacked
      · rw [hnone] at hset
        cases hset
    have hread : l.read (acceptInOrder tcb data).log = ⟨some tcb.rcvNxt, 1⟩ := by
      rw [acceptInOrder, read_cons, hunnoted.read, hacked]
      rfl
    rw [hread]
    exact howed _ rfl rfl

theorem Spoken.owed_after (h : Spoken tcb out) (l : Ledger) (log : List Event) :
    Owed (l.read (log ++ out.log)) out.tcb := by
  rw [read_append]
  exact h.owed _

theorem Spoken.owes_after {before : Tcb} (h : Spoken tcb out) (log : List Event) :
    Owes before (Out.mk out.tcb (log ++ out.log)).log (Out.mk out.tcb (log ++ out.log)).tcb :=
  fun l _ => h.owed_after l log

theorem accepted_owes {placed : Out} {used oooBytes : U32}
    (hplaced : placed.tcb.tfAcknow = true ∨
      tcb.tfDelack = false ∧ Owes tcb placed.log placed.tcb)
    (hspoken : placed.tcb.tfAcknow = true → Spoken placed.tcb out)
    (houtput : Owes placed.tcb out.log out.tcb) :
    Owes tcb (.freeSpace used oooBytes :: (placed.log ++ out.log)) out.tcb := by
  intro l hl
  have hspace : l.note (.freeSpace used oooBytes) = l := rfl
  rw [read_cons, hspace]
  rcases hplaced with hnow | ⟨-, howes⟩
  · exact (hspoken hnow).owed_after l placed.log
  · rw [read_append]
    exact houtput _ (howes l hl)

theorem handleData_owes (halloc : EnvAllocates env) (tcb : Tcb) (seg : TcpSegment) :
    Owes tcb (handleData env tcb seg).log (handleData env tcb seg).tcb := by
  have hcases : DataCases env tcb seg (handleData env tcb seg) := handleData_cases
  generalize handleData env tcb seg = out at hcases ⊢
  cases hcases with
  | bare => exact utcpOutput_owes halloc.output tcb
  | repeated =>
      intro l _
      exact (acknow_spoken halloc.output tcb).owed l
  | accepted data hdata hroom =>
      have hspoken := fun hnow => @utcpOutput_spoken (acceptInOrder tcb data).tcb _ halloc.output
        (.inr hnow)
      exact accepted_owes (acceptInOrder_cases tcb data) hspoken (utcpOutput_owes halloc.output _)
  | full => exact fun l h => h
  | early seqNum data hdata hseq =>
      exact (acknow_spoken halloc.output (insertOooSegment env tcb seqNum data).tcb).owes_after _

theorem handleReceivedData_owes (halloc : EnvAllocates env)
    (h : handleReceivedData env tcb seg = some out) : Owes tcb out.log out.tcb := by
  obtain ⟨acked, hacked, hout⟩ := Option.bind_eq_some_iff.mp h
  cases hout
  apply owes_composes.append (b := acked.tcb)
  · obtain ⟨_, _, _, _, hwindow⟩ := processWindowOption_eq env seg tcb
    rw [hwindow] at hacked
    intro l hl
    exact handleAck_owes halloc hacked l ⟨hl.timer, hl.acked⟩
  · exact handleData_owes halloc acked.tcb seg

theorem expireRexmt_owes (env : Env) (tcb : Tcb) (recover : U32) :
    Owes tcb [.expired .rexmt, .backoff (tcb.tRxtshift + 1).toNat]
      (expireRexmt env tcb recover) := by
  apply owes_of_eq
  · intro event hevent l
    rcases List.mem_pair.mp hevent with rfl | rfl
    · rfl
    · rfl
  · rfl
  · rfl
  · rfl

theorem owes_setTimer {timer : Timer} {ticks : U16}
    (hticks : timer = .delack → 1 ≤ ticks.toNat ∧ ticks.toNat ≤ (tcb.tTimer .delack).toNat) :
    Owes tcb [] (setTimer tcb timer ticks) := by
  intro l hl
  refine ⟨fun hset => ?_, hl.acked⟩
  have htimer := hl.timer hset
  simp only [setTimer]
  split
  · rename_i hdelack
    have hbounds := hticks hdelack.symm
    omega
  · exact htimer

theorem counted_toNat {ticks : U16} (h : 1 < ticks.toInt) :
    1 ≤ (ticks - 1).toNat ∧ (ticks - 1).toNat ≤ ticks.toNat := by
  have hlarge : 1 < ticks.toNat := by
    rw [BitVec.toInt_eq_toNat_cond] at h
    split at h
    · omega
    · have hlt := ticks.isLt
      omega
  have hone : (1 : U16).toNat = 1 := rfl
  have hsub : (ticks - 1).toNat = ticks.toNat - 1 := BitVec.toNat_sub_of_le (by
    rw [BitVec.le_def, hone]
    omega)
  omega

theorem tickTimer_owes {timer : Timer} (halloc : EnvAllocates env)
    (h : TickCases env tcb timer out) : Owes tcb out.log out.tcb := by
  cases h with
  | idle => exact owes_composes.nil tcb
  | countDown _ hticks =>
      have hcounted := counted_toNat hticks
      refine owes_setTimer fun hdelack => ?_
      subst hdelack
      omega
  | rexmt recover hticks hcc =>
      apply owes_composes.append (expireRexmt_owes env tcb recover)
      exact utcpOutput_owes halloc.output _
  | delack =>
      intro l _
      rw [read_cons]
      exact (utcpOutput_spoken halloc.output (.inr rfl)).owed _
  | other _ hticks hrexmt hdelack =>
      have hclock : Owes tcb [] (setTimer tcb timer 0) :=
        owes_setTimer fun hsame => absurd hsame hdelack
      exact hclock

theorem writeChunk_owes {readings : Nat → Reading} (halloc : ∀ i, (readings i).alloc = true)
    (tcb : Tcb) (chunk : List U8) :
    Owes tcb (utcpOutput readings (writeChunk tcb chunk)).log
      (utcpOutput readings (writeChunk tcb chunk)).tcb := by
  intro l hl
  have hwritten : Owed l (writeChunk tcb chunk) := ⟨hl.timer, hl.acked⟩
  exact utcpOutput_owes halloc _ l hwritten

theorem takeBytes_owed (h : Owed l tcb) (n : Nat) : Owed l (takeBytes tcb n) := by
  obtain ⟨_, _, heq⟩ := takeBytes_eq tcb n
  rw [heq]
  exact ⟨h.timer, h.acked⟩

theorem utcpRead_owes (halloc : EnvAllocates env) (h : ReadCases env tcb out) :
    Owes tcb out.log out.tcb := by
  intro l hl
  cases h with
  | update n =>
      rw [read_cons]
      exact (acknow_spoken halloc.output (takeBytes tcb n)).owed _
  | quiet n => exact takeBytes_owed hl n

/-- A listening socket has not sent anything yet. -/
def Unused (tcb : Tcb) : Prop := tcb.state = .listen → tcb.sndMax = 0

theorem tcbStep_unused {In : TcpSegment → Prop} {Ex : U8 → Prop} (hunused : Unused tcb)
    (h : TcbStep In Ex tcb log tcb') : Unused tcb' := by
  have hreceiving : ∀ t t' : Tcb, Receiving t → t'.state = t.state → Unused t' := by
    rintro t t' hstate hsame hlisten
    rw [hsame] at hlisten
    simp [Receiving, hlisten] at hstate
  cases h with
  | output h =>
      intro hlisten
      have hbefore : tcb.state = .listen := (outputStep_state h).symm.trans hlisten
      have hmax := hunused hbefore
      cases h with
      | flags => exact hmax
      | delack => exact hmax
      | bare => exact hmax
      | advance timeUs newSynFin hsyn hadvance =>
          rw [outputLength, hbefore] at hadvance
          rw [hbefore] at hsyn
          subst hsyn
          simp [sendingNewSynFin, tcpOutflags, hasFlag] at hadvance
  | receive hstate h =>
      obtain ⟨_, _, _, _, _, heq⟩ := receiveTrace_eq (.single h)
      exact hreceiving tcb tcb' hstate (by rw [heq])
  | ack hstate h => exact hreceiving tcb tcb' hstate (ackStep_state h)
  | timer h =>
      cases h with
      | clock => exact hunused
      | countDown => exact hunused
      | rexmt => exact hunused
      | other => exact hunused
  | opening h =>
      cases h with
      | connect => rintro ⟨⟩
      | syn => rintro ⟨⟩
      | synAck env seg =>
          intro hlisten
          simp [acceptSynAck] at hlisten
      | finalAck => rintro ⟨⟩

theorem run_unused {e e' : Endpoint} {s : Section} (hunused : Unused e.tcb)
    (h : e.run s = some (e', log)) : Unused e'.tcb := by
  have htrace : Trace (EndpointStep (fun _ => True) fun _ => True) e log e' :=
    run_trace (fun _ _ _ _ => trivial) (fun _ _ _ => trivial) h
  refine htrace.invariant (I := fun e => Unused e.tcb) ?_ hunused
  rintro e log e' hstep hunused
  have hopen : ∀ tcb : Tcb, tcb.state = .established → Unused tcb := by
    intro tcb hstate hlisten
    rw [hstate] at hlisten
    cases hlisten
  cases hstep with
  | tcb h => exact tcbStep_unused hunused h
  | call bytes hstate => exact hopen _ hstate
  | write n hstate => exact hopen _ ((writeChunk_state ..).trans hstate)
  | read n hstate => exact hopen _ ((takeBytes_state ..).trans hstate)

/-- A socket that receives data owes no more than a delayed ACK. -/
def Honest (e : Endpoint) : Prop := Receiving e.tcb → Owed (ledgerOf e.history) e.tcb

theorem acceptSyn_sends (env : Env) (hmax : tcb.sndMax = 0) :
    sendingNewSynFin (tcpOutflags (acceptSyn env tcb seg peer).state)
      (acceptSyn env tcb seg peer) = true := by
  obtain ⟨_, _, _, _, hwindow⟩ := processWindowOption_eq env seg tcb
  have hmax' : (acceptSyn env tcb seg peer).sndMax = 0 := by
    rw [acceptSyn, hwindow]
    exact hmax
  have hnxt : (acceptSyn env tcb seg peer).sndNxt = 0 := rfl
  have hstate : (acceptSyn env tcb seg peer).state = .synRecv := rfl
  rw [sendingNewSynFin, hmax', hnxt, hstate]
  rfl

theorem utcpInput_owed (halloc : EnvAllocates env) (hunused : Unused tcb)
    (howed : Receiving tcb → Owed l tcb) (h : InputCases env tcb seg peer out)
    (hstate : Receiving out.tcb) : Owed (l.read out.log) out.tcb := by
  cases h with
  | syn hlisten hflag =>
      exact (utcpOutput_spoken halloc.output (.inl (acceptSyn_sends env (hunused hlisten)))).owed l
  | synAck cc hsent hawaited hcc => exact (acknow_spoken halloc.output cc.tcb).owed_after l _
  | finalAck cc rest hrecv hcompletes hcc hrest =>
      obtain ⟨recover, hinit⟩ := congControl_init env (acceptFinalAck tcb seg)
      obtain rfl : _ = cc := Option.some.inj (hinit.symm.trans hcc)
      have hbefore := howed (.inl hrecv)
      have hopened : Owed l { ccInit (acceptFinalAck tcb seg) with recover } :=
        ⟨hbefore.timer, hbefore.acked⟩
      exact handleReceivedData_owes halloc hrest l hopened
  | received _ hreceiving hnot hrest =>
      exact handleReceivedData_owes halloc hrest l (howed hreceiving)
  | ignored hnot => exact absurd hstate hnot

theorem run_honest {e e' : Endpoint} {s : Section} (halloc : Allocates e s)
    (hunused : Unused e.tcb) (hhonest : Honest e) (h : e.run s = some (e', log)) : Honest e' := by
  obtain ⟨out, hcases, htcb, hlog, hhistory⟩ := run_cases h
  intro hstate
  rw [hhistory, htcb, hlog, ledgerOf, read_append]
  rw [htcb] at hstate
  have hopen : e.tcb.state = .established → Owed (ledgerOf e.history) e.tcb :=
    fun hstate => hhonest (.inr hstate)
  cases hcases with
  | connect env ip port hclosed =>
      have hsent : (utcpConnect env e.tcb ip port).tcb.state = .synSent := utcpOutput_state ..
      simp [Receiving, hsent] at hstate
  | input env seg peer _ hinput => exact utcpInput_owed halloc hunused hhonest hinput hstate
  | slowtimo envs _ hslow =>
      have htrace : Trace (ClockStep fun _ => True) e.tcb out.log out.tcb :=
        utcpSlowtimo_trace (fun _ => trivial) hslow
      have hsame : out.tcb.state = e.tcb.state := clockTrace_state htrace
      have hbefore : Receiving e.tcb := by
        rw [Receiving, hsame] at hstate
        exact hstate
      refine utcpSlowtimo_composes owes_composes ?_ ?_ hslow _ (hhonest hbefore)
      · exact fun timer tcb out htick => tickTimer_owes (halloc timer) htick
      · exact fun l h => ⟨h.timer, h.acked⟩
  | send envs bytes hest =>
      refine utcpSend_composes owes_composes ?_ e.tcb bytes _ (hopen hest)
      exact fun turn tcb chunk => writeChunk_owes (halloc turn).output tcb chunk
  | wake envs bytes hest =>
      refine utcpSend_composes owes_composes ?_ e.tcb bytes _ (hopen hest)
      exact fun turn tcb chunk => writeChunk_owes (halloc turn).output tcb chunk
  | read env len _ hest hread => exact utcpRead_owes halloc hread _ (hopen hest)

theorem reached_honest {e : Endpoint} (h : ReachedBy endpoints Allocates e) :
    Unused e.tcb ∧ Honest e := by
  apply h.invariant
  · rintro e ⟨ip, port, rfl | rfl⟩
    · exact ⟨fun _ => rfl, by simp [Honest, Receiving, Endpoint.start, utcpBind, utcpSocket]⟩
    · exact ⟨fun _ => rfl, by simp [Honest, Receiving, Endpoint.start, utcpListen]⟩
  · rintro e s e' - ⟨hunused, hhonest⟩ halloc ⟨log, hrun⟩
    exact ⟨run_unused hunused hrun, run_honest halloc hunused hhonest hrun⟩

/-- Owed acknowledgements are never forgotten. -/
theorem acks_owed {e : Endpoint} (h : ReachedBy endpoints Allocates e)
    (hstate : e.tcb.state = .established) :
    e.tcb.tfAcknow = false ∧
      ∃ ack, (ledgerOf e.history).lastAck = some ack ∧
        (e.tcb.rcvNxt ≠ ack →
          e.tcb.tfDelack = true ∧
          1 ≤ (e.tcb.tTimer .delack).toNat ∧
          (e.tcb.tTimer .delack).toNat ≤ tcptvDelack.toNat ∧
          (ledgerOf e.history).accepted = 1) := by
  refine ⟨reachable_tfAcknow h.reachable, ?_⟩
  have howed := (reached_honest h).2 (.inr hstate)
  rcases howed.acked with hacked | ⟨hdelack, hone, hsome⟩
  · rw [hacked]
    exact ⟨e.tcb.rcvNxt, rfl, fun hne => absurd rfl hne⟩
  · obtain ⟨ack, hack⟩ := Option.isSome_iff_exists.mp hsome
    obtain ⟨hpos, hle⟩ := howed.timer hdelack
    exact ⟨ack, hack, fun _ => ⟨hdelack, hpos, hle, hone⟩⟩

def ackSegment (seq : U32) (flags : U8) (data : List U8) : Section :=
  .input (.still 0) ⟨⟨0, 0, seq, 1, 0x50, flags, 100, 0, 0⟩, data⟩ ⟨0, 0⟩

theorem allocates_ackSegment (e : Endpoint) (seq : U32) (flags : U8) (data : List U8) :
    Allocates e (ackSegment seq flags data) := envAllocates_still 0

/-- A SYN, then the final ACK with three bytes: the SYN-ACK is the last segment
emitted, and the ACK of the bytes is delayed. -/
theorem acks_owed_delayed :
    ∃ e, ReachedBy endpoints Allocates e ∧ e.tcb.state = .established ∧
      e.tcb.rcvNxt = 11 ∧ ledgerOf e.history = ⟨some 8, 1⟩ ∧
      e.tcb.tfDelack = true ∧ (e.tcb.tTimer .delack).toNat ≤ tcptvDelack.toNat := by
  let start : Endpoint := .start (utcpListen (utcpBind utcpSocket 0 0))
  have hstart : ReachedBy endpoints Allocates start := .init ⟨0, 0, .inr rfl⟩
  have hruns : (start.run (ackSegment 7 thSyn [])).bind (fun first =>
      (first.1.run (ackSegment 8 thAck [1, 2, 3])).map fun second =>
        (second.1.tcb.state, second.1.tcb.rcvNxt, ledgerOf second.1.history)) =
        some (.established, 11, ⟨some 8, 1⟩) := by
    decide +kernel
  obtain ⟨⟨e, log⟩, hfirst, hruns⟩ := Option.bind_eq_some_iff.mp hruns
  obtain ⟨⟨e', log'⟩, hsecond, hends⟩ := Option.map_eq_some_iff.mp hruns
  have hreach : ReachedBy endpoints Allocates e :=
    .step hstart (allocates_ackSegment ..) ⟨log, hfirst⟩
  have hreach' : ReachedBy endpoints Allocates e' :=
    .step hreach (allocates_ackSegment ..) ⟨log', hsecond⟩
  obtain ⟨hstate, hends⟩ := Prod.mk.inj hends
  obtain ⟨hrcvNxt, hledger⟩ := Prod.mk.inj hends
  obtain ⟨-, ack, hack, hlate⟩ := acks_owed hreach' hstate
  have height : (8 : U32) = ack := by
    rw [hledger] at hack
    exact Option.some.inj hack
  obtain ⟨hdelack, -, hle, -⟩ := hlate (by
    rw [hrcvNxt, ← height]
    decide)
  exact ⟨e', hreach', hstate, hrcvNxt, hledger, hdelack, hle⟩

end Utcp.OwedAcks
