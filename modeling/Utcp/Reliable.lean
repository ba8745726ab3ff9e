import Utcp.Acknowledging
import Utcp.Network
import Utcp.Library.Streams

/-!
The two endpoints over the network: whatever it loses, duplicates, delays and
reorders, what the client writes arrives at the server as a reliable stream, up
to 2 GiB.
-/

namespace Utcp.Reliable

open SerialNumbers
open Slices
open Streams
open Traces
open TransitionSystems
open Utcp.Tcp
open Utcp.Utils
open Utcp.Output
open Utcp.Input
open Utcp.Api
open Utcp.Steps
open Utcp.Sections
open Utcp.Network
open Utcp.Buffers
open Utcp.Receiver
open Utcp.Sender
open Utcp.Acknowledging

variable {stream : List U8} {n n' : Net} {a : Action} {e e' : Endpoint} {s : Section}
  {log : List Event}

/-- The stream between the endpoints, as their control blocks have it. -/
def view (n : Net) : Stream U8 where
  written := n.client.written
  received := edgeOf n.server
  acked := ackedOf n.client
  delivered := n.server.delivered

/-- The endpoints and what is in flight between them, when `stream` is all the
client is going to write. -/
structure Joint (stream : List U8) (n : Net) : Prop where
  client : Client 0 (edgeOf n.server) n.client
  server : Server n.server
  receives : Receives (Agrees 0 stream) n.server
  toServer : ∀ seg ∈ n.inbox .server, PartOf stream seg
  toClient : ∀ seg ∈ n.inbox .client, Acks (edgeOf n.server) seg

theorem joint_initial (h : n.Initial) : Joint stream n := by
  obtain ⟨ip, port, ip', port', hclient, hserver, hinbox⟩ := h
  have hnothing : ∀ x, n.inbox x = [] := fun x => congrFun hinbox x
  refine ⟨?_, ?_, ?_, ?_, ?_⟩
  · rw [Net.client, hclient]
    exact .start ip port
  · rw [Net.server, hserver]
    exact .start ip' port'
  · exact receives_start ⟨ip', port', .inr hserver⟩
  · rw [hnothing]
    simp
  · rw [hnothing]
    simp

theorem endpointStep_delivered {In : TcpSegment → Prop} {Ex : U8 → Prop}
    (h : EndpointStep In Ex e log e') : e.delivered.length ≤ e'.delivered.length := by
  cases h with
  | read n hstate hn =>
      rw [List.length_append]
      exact Nat.le_add_right _ _
  | _ => exact Nat.le_refl _

theorem run_delivered (h : e.run s = some (e', log)) : e.delivered.length ≤ e'.delivered.length := by
  have htrace : Trace (EndpointStep (fun _ => True) fun _ => True) e log e' :=
    run_trace (fun _ _ _ _ => trivial) (fun _ _ _ => trivial) h
  exact htrace.invariant (I := fun e'' => e.delivered.length ≤ e''.delivered.length)
    (fun _ _ _ hstep hle => Nat.le_trans hle (endpointStep_delivered hstep)) (Nat.le_refl _)

theorem step_written (h : n.step a = some n') (x : Side) :
    (n.endpoint x).written <+: (n'.endpoint x).written := by
  cases Net.step_endpoints h (everywhere_true n a) with
  | ran y s log hinput hrun hother hflight =>
      rcases y.self_or_other x with rfl | rfl
      · exact run_written hrun
      · rw [hother]
  | still hsame hflight => rw [hsame]

theorem Joint.client_ran (h : Joint stream n) (hstream : stream.length < 2 ^ 31 - 1)
    (hinput : ∀ env seg peer, s = .input env seg peer → seg ∈ n.inbox .client)
    (hrun : n.client.run s = some (n'.client, log)) (hother : n'.server = n.server)
    (hflight : ∀ y, ∀ seg ∈ n'.inbox y, seg ∈ n.inbox y ∨ y = .server ∧ seg ∈ segments log)
    (hle : n'.client.written <+: stream) :
    Joint stream n' ∧ ackedOf n.client ≤ ackedOf n'.client := by
  have hedge := edgeOf_le h.receives
  have hlimit : edgeOf n.server < 2 ^ 31 - 1 := Nat.lt_of_le_of_lt hedge hstream
  have hsmall' : n'.client.written.length < 2 ^ 31 - 1 := Nat.lt_of_le_of_lt hle.length_le hstream
  have hsmall : n.client.written.length < 2 ^ 31 - 1 :=
    Nat.lt_of_le_of_lt (run_written hrun).length_le hsmall'
  have hin : ∀ env seg peer, s = .input env seg peer → Acks (edgeOf n.server) seg :=
    fun env seg peer heq => h.toClient seg (hinput env seg peer heq)
  obtain ⟨hclient', hlog⟩ := run_client hstream hlimit h.client hin hle hrun
  obtain ⟨hexact, -⟩ := run_client hstream hlimit (h.client.exact hsmall) hin hle hrun
  refine ⟨⟨?_, ?_, ?_, ?_, ?_⟩, (hexact.bounds hsmall').1⟩
  · rw [hother]
    exact hclient'
  · rw [hother]
    exact h.server
  · rw [hother]
    exact h.receives
  · intro seg hseg
    rcases hflight .server seg hseg with hold | ⟨-, hnew⟩
    · exact h.toServer seg hold
    · obtain ⟨origin, timeUs, hsent⟩ := mem_segments.mp hnew
      exact hlog _ hsent origin timeUs seg rfl
  · intro seg hseg
    rw [hother]
    rcases hflight .client seg hseg with hold | ⟨hother, -⟩
    · exact h.toClient seg hold
    · cases hother

theorem Joint.server_ran (h : Joint stream n) (hstream : stream.length < 2 ^ 31 - 1)
    (hinput : ∀ env seg peer, s = .input env seg peer → seg ∈ n.inbox .server)
    (hrun : n.server.run s = some (n'.server, log)) (hother : n'.client = n.client)
    (hflight : ∀ y, ∀ seg ∈ n'.inbox y, seg ∈ n.inbox y ∨ y = .client ∧ seg ∈ segments log) :
    Joint stream n' ∧ edgeOf n.server ≤ edgeOf n'.server := by
  obtain ⟨hserver', hreceives', hgrown, hlog⟩ := run_server hstream h.server h.receives
    (fun env seg peer heq => h.toServer seg (hinput env seg peer heq)) hrun
  refine ⟨⟨?_, hserver', hreceives', ?_, ?_⟩, hgrown⟩
  · rw [hother]
    exact h.client.mono hgrown
  · intro seg hseg
    rcases hflight .server seg hseg with hold | ⟨hother, -⟩
    · exact h.toServer seg hold
    · cases hother
  · intro seg hseg
    rcases hflight .client seg hseg with hold | ⟨-, hnew⟩
    · exact (h.toClient seg hold).mono hgrown
    · exact hlog seg hnew

theorem Joint.step (h : Joint stream n) (hstream : stream.length < 2 ^ 31 - 1)
    (hstep : n.step a = some n') (hle : n'.client.written <+: stream) :
    Joint stream n' ∧ Grown (view n) (view n') := by
  have hwritten := step_written hstep .client
  cases Net.step_endpoints hstep (everywhere_true n a) with
  | ran x s log hinput hrun hother hflight =>
      cases x with
      | client =>
          have hserver : n'.server = n.server := hother
          obtain ⟨h', hacked⟩ := h.client_ran hstream hinput hrun hserver hflight hle
          refine ⟨h', hwritten, ?_, hacked, ?_⟩
          · exact Nat.le_of_eq (congrArg edgeOf hserver.symm)
          · exact Nat.le_of_eq (congrArg (fun e => e.delivered.length) hserver.symm)
      | server =>
          have hclient : n'.client = n.client := hother
          obtain ⟨h', hgrown⟩ := h.server_ran hstream hinput hrun hclient hflight
          refine ⟨h', hwritten, hgrown, ?_, run_delivered hrun⟩
          exact Nat.le_of_eq (congrArg ackedOf hclient.symm)
  | still hsame hflight =>
      have hclient : n'.client = n.client := congrFun hsame .client
      have hserver : n'.server = n.server := congrFun hsame .server
      refine ⟨⟨?_, ?_, ?_, ?_, ?_⟩, hwritten, ?_, ?_, ?_⟩
      · rw [hclient, hserver]
        exact h.client
      · rw [hserver]
        exact h.server
      · rw [hserver]
        exact h.receives
      · exact fun seg hseg => h.toServer seg (hflight .server seg hseg)
      · rw [hserver]
        exact fun seg hseg => h.toClient seg (hflight .client seg hseg)
      · exact Nat.le_of_eq (congrArg edgeOf hserver.symm)
      · exact Nat.le_of_eq (congrArg ackedOf hclient.symm)
      · exact Nat.le_of_eq (congrArg (fun e => e.delivered.length) hserver.symm)

theorem joint {ok : Net → Action → Prop} (hstream : stream.length < 2 ^ 31 - 1)
    (h : ReachedBy network ok n) : n.client.written <+: stream → Joint stream n := by
  refine @ReachedBy.invariant_under _ _ _ _ (Joint stream) (fun n => n.client.written <+: stream)
    (fun n hinit => joint_initial hinit) ?_ ?_ _ h
  · exact fun n a n' hstep hle => (step_written hstep .client).trans hle
  · exact fun n a n' _ h _ hle hstep => (h.step hstream hstep hle).1

theorem joint_self (h : Reachable network n) (hsmall : n.client.written.length < 2 ^ 31 - 1) :
    Joint n.client.written n :=
  joint hsmall h List.prefix_rfl

theorem received_stream (h : Receives (Agrees 0 stream) e) :
    e.delivered ++ ringContents e.tcb <+: stream := by
  by_cases hstate : Receiving e.tcb
  · exact (h.reassembled hstate).inOrder
  · obtain ⟨huntouched, hempty⟩ := h.closed hstate
    have hused : bufUsed e.tcb = 0 := by
      rw [bufUsed, huntouched.recvBufTail, huntouched.recvBufHead]
      rfl
    have hring : ringContents e.tcb = [] := by
      apply List.eq_nil_of_length_eq_zero
      rw [ringContents, hused]
      exact ringBufRead_length (Nat.zero_le _)
    rw [hempty, hring]
    exact List.nil_prefix

theorem length_received (h : Receives (Agrees 0 stream) e) :
    (e.delivered ++ ringContents e.tcb).length = edgeOf e := by
  have hused : (bufUsed e.tcb).toNat ≤ recvBufSize.toNat := by
    by_cases hstate : Receiving e.tcb
    · obtain ⟨bytes, hassembled, -⟩ := h.opened hstate
      rw [hassembled.buffered.used]
      exact hassembled.buffered.size
    · obtain ⟨huntouched, -⟩ := h.closed hstate
      rw [bufUsed, huntouched.recvBufTail, huntouched.recvBufHead]
      exact Nat.zero_le _
  rw [List.length_append, ringContents, ringBufRead_length hused, edgeOf]

theorem recvBufTail_eq (h : Receives (Agrees 0 stream) e) (hstream : stream.length < 2 ^ 31 - 1) :
    e.tcb.recvBufTail.toNat = edgeOf e := by
  have hedge := edgeOf_le h
  by_cases hstate : Receiving e.tcb
  · obtain ⟨bytes, hassembled, -⟩ := h.opened hstate
    have htail := hassembled.buffered.tail
    rw [← hassembled.buffered.used, ← edgeOf] at htail
    rw [htail, BitVec.toNat_ofNat, Nat.mod_eq_of_lt (by omega)]
  · obtain ⟨huntouched, -⟩ := h.closed hstate
    rw [edgeOf_of_closed h hstate, huntouched.recvBufTail]
    rfl

theorem Joint.sound (h : Joint n.client.written n) (hsmall : n.client.written.length < 2 ^ 31 - 1) :
    Sound (view n) :=
  ⟨(h.client.bounds hsmall).2.1, edgeOf_le h.receives,
    (List.prefix_append _ _).trans (received_stream h.receives), Nat.le_add_right _ _⟩

theorem step_simulated (h : Reachable network n) (hstep : n.step a = some n')
    (hsmall : n'.client.written.length < 2 ^ 31 - 1) : Steps (streams U8) (view n) (view n') := by
  have hjoint := joint hsmall h (step_written hstep .client)
  obtain ⟨hjoint', hgrown⟩ := hjoint.step hsmall hstep List.prefix_rfl
  exact steps_of_grown hgrown (hjoint'.sound hsmall)

theorem view_reachable (h : Reachable network n) :
    n.client.written.length < 2 ^ 31 - 1 → Reachable (streams U8) (view n) := by
  refine @ReachedBy.refines _ _ _ _ _ _ (streams U8) view
    (fun n => n.client.written.length < 2 ^ 31 - 1) ?_ ?_ ?_ _ h
  · rintro n ⟨ip, port, ip', port', hclient, hserver, -⟩
    have hreceives : Receives (Agrees 0 []) (.start (utcpListen (utcpBind utcpSocket ip' port'))) :=
      receives_start ⟨ip', port', .inr rfl⟩
    have hedge := edgeOf_of_closed hreceives
      (by simp [Receiving, Endpoint.start, utcpListen, utcpBind, utcpSocket])
    change view n = _
    rw [view, Net.client, Net.server, hclient, hserver, hedge]
    rfl
  · exact fun n a n' hstep hsmall => Nat.lt_of_le_of_lt (step_written hstep .client).length_le hsmall
  · exact fun n a n' hreach _ hsmall hstep => step_simulated hreach hstep hsmall

/-- Every step of the network is a few operations of a reliable stream. -/
theorem network_refines_stream (h : Reachable network n) (hstep : network.step n a n')
    (hsmall : n'.client.written.length < 2 ^ 31 - 1) :
    Reachable (streams U8) (view n) ∧ Steps (streams U8) (view n) (view n') := by
  have hbefore := Nat.lt_of_le_of_lt (step_written hstep .client).length_le hsmall
  exact ⟨view_reachable h hbefore, step_simulated h hstep hsmall⟩

/-- Three bytes are lost and sent again when the retransmission timer expires. They
arrive, and a copy of them is on its way. -/
def resent : List Action :=
  [.run .client (.connect (.still 5) 2 20), .deliver .server (.still 6) 0,
    .deliver .client (.still 7) 0, .deliver .server (.still 8) 0,
    .run .client (.send (fun _ => .still 9) [65, 66, 67]), .lose .server 0] ++
    List.replicate 100 (.run .client (.slowtimo fun _ => .still 9)) ++
    [.duplicate .server 0, .deliver .server (.still 10) 0]

/-- The server reads two of the bytes, and they arrive again. -/
def transfer : List Action :=
  resent ++ [.run .server (.read (.still 11) 2), .deliver .server (.still 11) 0]

theorem reachable_where {actions : List Action} {check : Net → Bool}
    (h : (runAll Net.step Net.start actions).map check = some true) :
    ∃ n, Reachable network n ∧ check n = true := by
  obtain ⟨n, hn, hcheck⟩ := Option.map_eq_some_iff.mp h
  exact ⟨n, reachable_runAll hn, hcheck⟩

/-- The acknowledgment of the three bytes arrives. -/
theorem network_refines_stream_transfer :
    ∃ n n', view n = ⟨[65, 66, 67], 3, 0, [65, 66]⟩ ∧ view n' = ⟨[65, 66, 67], 3, 3, [65, 66]⟩ ∧
      Reachable (streams U8) (view n) ∧ Steps (streams U8) (view n) (view n') := by
  obtain ⟨n, hreach, hcheck⟩ := @reachable_where transfer
    (fun n => decide (view n = ⟨[65, 66, 67], 3, 0, [65, 66]⟩) &&
      (n.step (.deliver .client (.still 12) 0)).map view == some ⟨[65, 66, 67], 3, 3, [65, 66]⟩)
    (by decide +kernel)
  rw [Bool.and_eq_true, decide_eq_true_eq, beq_iff_eq] at hcheck
  obtain ⟨hbefore, hafter⟩ := hcheck
  obtain ⟨n', hstep, hafter⟩ := Option.map_eq_some_iff.mp hafter
  have hwritten : n'.client.written = [65, 66, 67] := congrArg Stream.written hafter
  refine ⟨n, n', hbefore, hafter, network_refines_stream hreach hstep ?_⟩
  rw [hwritten]
  decide

theorem written_small (hsmall : e.handed.length < 2 ^ 31 - 1) : e.written.length < 2 ^ 31 - 1 := by
  rw [Endpoint.handed, List.length_append] at hsmall
  omega

/-- A reliable byte stream: the server's application reads the beginning of what the
client's has handed over. -/
theorem reliable_stream (h : Reachable network n) (hsmall : n.client.handed.length < 2 ^ 31 - 1) :
    n.server.delivered <+: n.client.handed := by
  have hreceived : n.server.delivered ++ ringContents n.server.tcb <+: n.client.written :=
    received_stream (joint_self h (written_small hsmall)).receives
  exact (List.prefix_append _ _).trans (hreceived.trans (List.prefix_append _ _))

theorem reliable_stream_transfer :
    ∃ n : Net, n.server.delivered = [65, 66] ∧ n.client.handed = [65, 66, 67] ∧
      n.server.delivered <+: n.client.handed := by
  obtain ⟨n, hreach, hcheck⟩ := @reachable_where transfer
    (fun n => decide (n.server.delivered = [65, 66] ∧ n.client.handed = [65, 66, 67]))
    (by decide +kernel)
  obtain ⟨hdelivered, hhanded⟩ := of_decide_eq_true hcheck
  refine ⟨n, hdelivered, hhanded, reliable_stream hreach ?_⟩
  rw [hhanded]
  decide

/-- What the server has, read or not, is the beginning of what the client wrote. -/
theorem delivered_in_order (h : Reachable network n)
    (hsmall : n.client.written.length < 2 ^ 31 - 1) :
    n.server.delivered ++ ringContents n.server.tcb <+: n.client.written :=
  received_stream (joint_self h hsmall).receives

theorem delivered_in_order_transfer :
    ∃ n : Net, n.server.delivered = [65, 66] ∧ ringContents n.server.tcb = [67] ∧
      n.server.delivered ++ ringContents n.server.tcb <+: n.client.written := by
  obtain ⟨n, hreach, hcheck⟩ := @reachable_where transfer
    (fun n => decide (n.server.delivered = [65, 66] ∧ ringContents n.server.tcb = [67] ∧
      n.client.written.length < 2 ^ 31 - 1)) (by decide +kernel)
  obtain ⟨hdelivered, hring, hsmall⟩ := of_decide_eq_true hcheck
  exact ⟨n, hdelivered, hring, delivered_in_order hreach hsmall⟩

theorem Joint.sending (h : Joint stream n) (hstate : n.client.tcb.state = .established) :
    ∃ una nxt top, Sending n.client.written una nxt top n.client.tcb := by
  cases h.client with
  | idle hidle => exact absurd (hidle.state.symm.trans hstate) (by decide)
  | opening hopening => exact absurd (hopening.state.symm.trans hstate) (by decide)
  | sends hsends =>
      obtain ⟨una, nxt, top, -, hs⟩ := hsends
      exact ⟨una, nxt, top, hs⟩

/-- The offset of a sequence number in the stream. -/
def offsetOf (tcb : Tcb) (seq : U32) : Nat := (seq - tcb.iss - 1).toNat

theorem offsetOf_seqOf {tcb : Tcb} {pos : Nat} (hiss : tcb.iss = 0) (hpos : pos < 2 ^ 31) :
    offsetOf tcb (seqOf pos) = pos := by
  rw [offsetOf, hiss, seqOf_sub, BitVec.toNat_ofNat, Nat.mod_eq_of_lt (by omega)]

theorem unacked_arrived (h : Reachable network n) (hsmall : n.client.written.length < 2 ^ 31 - 1)
    (hstate : n.client.tcb.state = .established) :
    offsetOf n.client.tcb n.client.tcb.sndUna ≤ n.server.tcb.recvBufTail.toNat := by
  have hjoint := joint_self h hsmall
  have hsound := sound (view_reachable h hsmall)
  obtain ⟨una, nxt, top, hs⟩ := hjoint.sending hstate
  have huna := hs.una_le
  have hnxt := hs.nxt_le
  have htop := hs.top_le
  rw [hs.sndUna, offsetOf_seqOf hs.iss (by omega), recvBufTail_eq hjoint.receives hsmall,
    ← hs.ackedOf (Nat.lt_of_le_of_lt htop hsmall)]
  exact hsound.acked

theorem drained_arrived (h : Reachable network n) (hsmall : n.client.written.length < 2 ^ 31 - 1)
    (hstate : n.client.tcb.state = .established) (hdrained : utcpDrainReturns n.client.tcb) :
    n.server.delivered ++ ringContents n.server.tcb = n.client.written := by
  have hjoint := joint_self h hsmall
  have hsound := sound (view_reachable h hsmall)
  obtain ⟨una, nxt, top, hs⟩ := hjoint.sending hstate
  have hall : ackedOf n.client = n.client.written.length := by
    rw [ackedOf, hdrained, hs.tail, BitVec.toNat_ofNat, Nat.mod_eq_of_lt (by omega)]
  have hreceived : edgeOf n.server = n.client.written.length := hsound.drained hall
  exact (received_stream hjoint.receives).eq_of_length
    ((length_received hjoint.receives).trans hreceived)

/-- What the client may forget has arrived, and when `utcp_drain` returns all has. -/
theorem acknowledged_arrived (h : Reachable network n)
    (hsmall : n.client.written.length < 2 ^ 31 - 1) (hstate : n.client.tcb.state = .established) :
    offsetOf n.client.tcb n.client.tcb.sndUna ≤ n.server.tcb.recvBufTail.toNat ∧
      (utcpDrainReturns n.client.tcb →
        n.server.delivered ++ ringContents n.server.tcb = n.client.written) :=
  ⟨unacked_arrived h hsmall hstate, drained_arrived h hsmall hstate⟩

/-- The acknowledgment of the bytes reaches the client. -/
def drained : List Action := transfer ++ [.deliver .client (.still 12) 0]

theorem acknowledged_arrived_drained :
    ∃ n : Net, offsetOf n.client.tcb n.client.tcb.sndUna = 3 ∧ utcpDrainReturns n.client.tcb ∧
      n.client.written = [65, 66, 67] ∧
      offsetOf n.client.tcb n.client.tcb.sndUna ≤ n.server.tcb.recvBufTail.toNat ∧
      n.server.delivered ++ ringContents n.server.tcb = n.client.written := by
  obtain ⟨n, hreach, hcheck⟩ := @reachable_where drained
    (fun n => decide (offsetOf n.client.tcb n.client.tcb.sndUna = 3 ∧
      n.client.tcb.sendBufHead = n.client.tcb.sendBufTail ∧ n.client.written = [65, 66, 67] ∧
      n.client.tcb.state = .established)) (by decide +kernel)
  obtain ⟨hunacked, hreturns, hwritten, hstate⟩ := of_decide_eq_true hcheck
  have hsmall : n.client.written.length < 2 ^ 31 - 1 := by
    rw [hwritten]
    decide
  obtain ⟨harrived, hall⟩ := acknowledged_arrived hreach hsmall hstate
  exact ⟨n, hunacked, hreturns, hwritten, harrived, hall hreturns⟩

/-- Acknowledged means delivered: where `utcp_drain` returns, the server has what was
written, and that is all that was handed over unless a call of `utcp_send` still waits
for room. -/
theorem acked_delivered (h : Reachable network n) (hsmall : n.client.handed.length < 2 ^ 31 - 1)
    (hstate : n.client.tcb.state = .established) :
    (n.client.tcb.sndUna - n.client.tcb.iss - 1).toNat ≤ n.server.tcb.recvBufTail.toNat ∧
      (utcpDrainReturns n.client.tcb →
        n.server.delivered ++ ringContents n.server.tcb = n.client.written ∧
          (n.client.pending = [] → n.client.written = n.client.handed)) := by
  refine ⟨unacked_arrived h (written_small hsmall) hstate, fun hdrained => ?_⟩
  refine ⟨drained_arrived h (written_small hsmall) hstate hdrained, fun hpending => ?_⟩
  rw [Endpoint.handed, hpending, List.append_nil]

theorem acked_delivered_drained :
    ∃ n : Net, n.client.tcb.sndUna - n.client.tcb.iss - 1 = 3 ∧ n.client.pending = [] ∧
      n.client.handed = [65, 66, 67] ∧
      (n.client.tcb.sndUna - n.client.tcb.iss - 1).toNat ≤ n.server.tcb.recvBufTail.toNat ∧
      n.server.delivered ++ ringContents n.server.tcb = n.client.handed := by
  obtain ⟨n, hreach, hcheck⟩ := @reachable_where drained
    (fun n => decide (n.client.tcb.sndUna - n.client.tcb.iss - 1 = 3 ∧ n.client.pending = [] ∧
      n.client.handed = [65, 66, 67] ∧ n.client.tcb.sendBufHead = n.client.tcb.sendBufTail ∧
      n.client.tcb.state = .established)) (by decide +kernel)
  obtain ⟨hunacked, hpending, hhanded, hreturns, hstate⟩ := of_decide_eq_true hcheck
  have hsmall : n.client.handed.length < 2 ^ 31 - 1 := by
    rw [hhanded]
    decide
  obtain ⟨harrived, hdrained⟩ := acked_delivered hreach hsmall hstate
  obtain ⟨hall, hwritten⟩ := hdrained hreturns
  exact ⟨n, hunacked, hpending, hhanded, harrived, hall.trans (hwritten hpending)⟩

/-- The positions of the client in its stream, as the two functions that send count them. -/
structure Aligned (e : Endpoint) : Prop where
  head : e.tcb.sendBufHead.toNat = offsetOf e.tcb e.tcb.sndUna
  tail : e.tcb.sendBufTail.toNat = e.written.length
  una_le : offsetOf e.tcb e.tcb.sndUna ≤ offsetOf e.tcb e.tcb.sndNxt
  nxt_le : offsetOf e.tcb e.tcb.sndNxt ≤ offsetOf e.tcb e.tcb.sndMax
  max_le : offsetOf e.tcb e.tcb.sndMax ≤ e.written.length
  room : e.written.length - offsetOf e.tcb e.tcb.sndUna ≤ sendBufSize.toNat
  output : (outputBuffered e.tcb).toNat = e.written.length - offsetOf e.tcb e.tcb.sndNxt
  retransmit :
    (retransmitBuffered e.tcb e.tcb.sndUna).toNat = e.written.length - offsetOf e.tcb e.tcb.sndUna
  unacked : ringBufRead e.tcb.sendBuf sendBufSize e.tcb.sendBufHead
    (e.tcb.sendBufTail - e.tcb.sendBufHead).toNat = e.written.drop (offsetOf e.tcb e.tcb.sndUna)

theorem aligned_of_sending {una nxt top : Nat} (h : Sending e.written una nxt top e.tcb)
    (hsmall : top < 2 ^ 31 - 1) : Aligned e := by
  have hlen := h.written_lt hsmall
  have huna := h.una_le
  have hnxt := h.nxt_le
  have htop := h.top_le
  have hroom := h.room
  have hunaPos := @offsetOf_seqOf e.tcb una h.iss (by omega)
  have hnxtPos := @offsetOf_seqOf e.tcb nxt h.iss (by omega)
  have htopPos := @offsetOf_seqOf e.tcb top h.iss (by omega)
  have hheld : (e.tcb.sendBufTail - e.tcb.sendBufHead).toNat = e.written.length - una := by
    rw [h.tail, h.head]
    have hdistance := @toNat_ofNat_sub_ofNat 32 0#32 e.written.length una (by omega) (by omega)
    rwa [BitVec.zero_add, BitVec.zero_add] at hdistance
  have hread := @ringBufRead_holds e.tcb.sendBuf sendBufSize (e.written.length - una) una 0
    (e.written.drop una) divides_sendBufSize h.holds (by rw [List.length_drop]; omega) (by omega)
  rw [Nat.add_zero, List.drop_zero, ← h.head] at hread
  refine ⟨?_, ?_, ?_, ?_, ?_, ?_, ?_, ?_, ?_⟩
  · rw [h.sndUna, hunaPos]
    exact h.ackedOf hsmall
  · rw [h.tail, BitVec.toNat_ofNat, Nat.mod_eq_of_lt (by omega)]
  · rw [h.sndUna, h.sndNxt, hunaPos, hnxtPos]
    exact huna
  · rw [h.sndNxt, h.sndMax, hnxtPos, htopPos]
    exact hnxt
  · rw [h.sndMax, htopPos]
    exact htop
  · rw [h.sndUna, hunaPos]
    exact hroom
  · rw [h.outputBuffered hsmall, h.sndNxt, hnxtPos]
  · rw [h.retransmitBuffered hsmall, h.sndUna, hunaPos]
  · rw [hheld, hread, h.sndUna, hunaPos]
    exact List.take_of_length_le (Nat.le_of_eq List.length_drop)

/-- The SYN takes one sequence number, and from then on the client's sequence
variables and its ring are in step. -/
theorem client_aligned (h : Reachable network n) (hsmall : n.client.written.length < 2 ^ 31 - 1) :
    (n.client.tcb.state = .synSent →
      n.client.tcb.sendBufHead = 0 ∧ (n.client.tcb.sndMax - n.client.tcb.iss).toNat ≤ 1) ∧
    (n.client.tcb.state = .established → Aligned n.client) := by
  have hjoint := joint_self h hsmall
  refine ⟨fun hstate => ?_, fun hstate => ?_⟩
  · cases hjoint.client with
    | idle hidle => exact absurd (hidle.state.symm.trans hstate) (by decide)
    | opening hopening =>
        refine ⟨hopening.head, ?_⟩
        rw [hopening.iss]
        rcases hopening.syn with ⟨-, hmax, -⟩ | ⟨hmax, -⟩
        · rw [hmax]
          decide
        · rw [hmax]
          decide
    | sends hsends =>
        obtain ⟨una, nxt, top, -, hs⟩ := hsends
        exact absurd (hs.state.symm.trans hstate) (by decide)
  · obtain ⟨una, nxt, top, hs⟩ := hjoint.sending hstate
    exact aligned_of_sending hs (Nat.lt_of_le_of_lt hs.top_le hsmall)

theorem client_aligned_transfer :
    ∃ n : Net, n.client.tcb.state = .established ∧ n.client.written.length = 3 ∧ Aligned n.client := by
  obtain ⟨n, hreach, hcheck⟩ := @reachable_where transfer
    (fun n => decide (n.client.tcb.state = .established ∧ n.client.written.length = 3))
    (by decide +kernel)
  obtain ⟨hstate, hlen⟩ := of_decide_eq_true hcheck
  exact ⟨n, hstate, hlen, (client_aligned hreach (by omega)).2 hstate⟩

/-- Whatever is in flight is a part of the stream or an acknowledgment of what
has arrived. -/
theorem in_flight (h : Reachable network n) (hsmall : n.client.written.length < 2 ^ 31 - 1) :
    (∀ seg ∈ n.inbox .server, PartOf n.client.written seg) ∧
      ∀ seg ∈ n.inbox .client, Acks (edgeOf n.server) seg :=
  ⟨(joint_self h hsmall).toServer, (joint_self h hsmall).toClient⟩

/-- A copy of the bytes and an acknowledgment of them are in flight at once. -/
def crossing : List Action := resent ++ [.duplicate .server 0, .deliver .server (.still 11) 0]

theorem in_flight_crossing :
    ∃ n : Net, (n.inbox .server).map payload = [[65, 66, 67]] ∧
      (n.inbox .client).map (·.hdr.thAck) = [4] ∧
      (∀ seg ∈ n.inbox .server, PartOf n.client.written seg) ∧
      ∀ seg ∈ n.inbox .client, Acks (edgeOf n.server) seg := by
  obtain ⟨n, hreach, hcheck⟩ := @reachable_where crossing
    (fun n => decide ((n.inbox .server).map payload = [[65, 66, 67]] ∧
      (n.inbox .client).map (·.hdr.thAck) = [4] ∧ n.client.written.length = 3))
    (by decide +kernel)
  obtain ⟨hserver, hclient, hlen⟩ := of_decide_eq_true hcheck
  exact ⟨n, hserver, hclient, in_flight hreach (by omega)⟩

end Utcp.Reliable
