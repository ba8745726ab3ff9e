import Utcp.Reliable

/-!
`client.c` and `server.c`: a file goes from one main program to the other.
-/

namespace Utcp.FileTransfer

open Slices
open Streams
open TransitionSystems
open Utcp.Tcp
open Utcp.Input
open Utcp.Api
open Utcp.Steps
open Utcp.Network
open Utcp.Receiver
open Utcp.Sender
open Utcp.Acknowledging
open Utcp.Reliable

/-- `CHUNK_SIZE` of `client.c`. -/
def chunkSize : ℕ := 64000

/-- `TARGET_SIZE` of `server.c`. -/
def targetSize : ℕ := 1000000000

/-- The size of `recv_buff` in `server.c`. -/
def recvBuffSize : ℕ := 65536

/-- The two programs over the network. -/
structure Transfer where
  net : Net
  /-- where the client goes on in the file -/
  position : ℕ
  /-- the client has come out of `utcp_drain` -/
  drained : Bool
  /-- what the server has written to its file -/
  outFile : List U8

/-- `fread` of the next chunk. -/
def fread (file : List U8) (position : ℕ) : List U8 := (file.drop position).take chunkSize

/-- A call of `utcp_send` or `utcp_read`, which the programs make. -/
def isCall : Action → Bool
  | .run _ (.send ..) => true
  | .run _ (.read ..) => true
  | _ => false

instance (tcb : Tcb) : Decidable (utcpDrainReturns tcb) := inferInstanceAs (Decidable (_ = _))

inductive Act
  /-- the stack, the network, and the calls before the loops -/
  | stack (a : Action)
  /-- a turn of the loop of `client.c` -/
  | send (envs : Nat → Env)
  /-- `utcp_drain` returns behind that loop -/
  | drain
  /-- a turn of the loop of `server.c` -/
  | read (env : Env)

def Transfer.next (file : List U8) (t : Transfer) : Act → Option Transfer
  | .stack a => if isCall a then none else (t.net.step a).map fun net => { t with net }
  | .send envs =>
      let buffer := fread file t.position
      if buffer = [] then none
      else
        (t.net.step (.run .client (.send envs buffer))).map fun net =>
          { t with net, position := t.position + buffer.length }
  | .drain =>
      if t.net.client.tcb.state = .established ∧ t.net.client.pending = [] ∧
          fread file t.position = [] ∧ utcpDrainReturns t.net.client.tcb then
        -- the program ends here, and a client that goes on only adds runs
        some { t with drained := true }
      else none
  | .read env =>
      if t.outFile.length < targetSize then
        (t.net.step (.run .server (.read env recvBuffSize))).map fun net =>
          { t with
            net
            outFile := t.outFile ++ (utcpRead env (t.net.tcb .server) recvBuffSize).2 }
      else none

/-- The transfer of a file as a transition system. -/
def transfers (file : List U8) : TransitionSystem Transfer Act where
  init t := t.net.Initial ∧ t.position = 0 ∧ t.drained = false ∧ t.outFile = []
  step t a t' := t.next file a = some t'

variable {file : List U8} {t t' : Transfer} {a : Act} {e e' : Endpoint} {s : Section}
  {log : List Event}

theorem sendLoop_left (envs : Nat → Env) (fuel : ℕ) :
    ∀ (turn : ℕ) (tcb : Tcb) (remaining : List U8),
      (sendLoop envs fuel turn tcb remaining).2 <:+ remaining := by
  induction fuel with
  | zero => exact fun _ _ remaining => List.suffix_rfl
  | succ fuel ih =>
      intro turn tcb remaining
      simp only [sendLoop]
      split
      · exact List.suffix_rfl
      · exact (ih _ _ _).trans (List.drop_suffix _ _)

theorem sendSection_handed (e : Endpoint) (envs : Nat → Env) (remaining : List U8) :
    (e.sendSection envs remaining).1.handed = e.written ++ remaining := by
  obtain ⟨front, hfront⟩ := sendLoop_left envs remaining.length 0 e.tcb remaining
  have hlen : remaining.length - (utcpSend envs e.tcb remaining).2.length = front.length := by
    have hlen := congrArg List.length hfront
    rw [List.length_append] at hlen
    rw [utcpSend]
    omega
  have htake : remaining.take front.length = front := by
    rw [← hfront]
    exact List.take_left
  change (e.written ++ remaining.take (remaining.length - (utcpSend envs e.tcb remaining).2.length)) ++
    (utcpSend envs e.tcb remaining).2 = _
  rw [hlen, htake, List.append_assoc]
  exact congrArg (e.written ++ ·) hfront

/-- The bytes a section is called with. -/
def passed : Section → List U8
  | .send _ bytes => bytes
  | _ => []

/-- The bytes a section returns. -/
def Returns (tcb : Tcb) (bytes : List U8) : Section → Prop
  | .read env len => bytes = (utcpRead env tcb len).2
  | _ => bytes = []

/-- What a section does for the application. -/
structure Serves (e : Endpoint) (s : Section) (e' : Endpoint) : Prop where
  handed : e'.handed = e.handed ++ passed s
  delivered : ∃ bytes, Returns e.tcb bytes s ∧ e'.delivered = e.delivered ++ bytes

theorem serves_finish (e : Endpoint) (out : Out) (hpassed : passed s = [])
    (hreturned : Returns e.tcb [] s) : Serves e s (e.finish out).1 := by
  refine ⟨?_, [], hreturned, (List.append_nil _).symm⟩
  rw [hpassed, List.append_nil]
  rfl

theorem run_serves (hrun : e.run s = some (e', log)) : Serves e s e' := by
  have hsend : ∀ envs remaining, (e.sendSection envs remaining).1.delivered = e.delivered :=
    fun _ _ => rfl
  have hread : ∀ result, (e.afterRead result).1.handed = e.handed ∧
      (e.afterRead result).1.delivered = e.delivered ++ result.2 := fun _ => ⟨rfl, rfl⟩
  cases s with
  | connect env ip port =>
      simp only [Endpoint.run] at hrun
      split at hrun
      · cases hrun
        exact serves_finish e _ rfl rfl
      · cases hrun
  | input env seg peer =>
      obtain ⟨out, -, hrun⟩ := Option.map_eq_some_iff.mp hrun
      cases hrun
      exact serves_finish e _ rfl rfl
  | slowtimo envs =>
      obtain ⟨out, -, hrun⟩ := Option.map_eq_some_iff.mp hrun
      cases hrun
      exact serves_finish e _ rfl rfl
  | send envs bytes =>
      simp only [Endpoint.run] at hrun
      split at hrun
      · rename_i hcall
        have hhanded := sendSection_handed e envs bytes
        have hdelivered := hsend envs bytes
        rw [Option.some.inj hrun] at hhanded hdelivered
        refine ⟨?_, [], rfl, hdelivered.trans (List.append_nil _).symm⟩
        rw [hhanded, Endpoint.handed, hcall.2, List.append_nil]
        rfl
      · cases hrun
  | wake envs =>
      simp only [Endpoint.run] at hrun
      split at hrun
      · have hhanded := sendSection_handed e envs e.pending
        have hdelivered := hsend envs e.pending
        rw [Option.some.inj hrun] at hhanded hdelivered
        exact ⟨hhanded.trans (List.append_nil _).symm, [], rfl,
          hdelivered.trans (List.append_nil _).symm⟩
      · cases hrun
  | read env len =>
      simp only [Endpoint.run] at hrun
      split at hrun
      · obtain ⟨hhanded, hdelivered⟩ := hread (utcpRead env e.tcb len)
        rw [Option.some.inj hrun] at hhanded hdelivered
        exact ⟨hhanded.trans (List.append_nil _).symm, _, rfl, hdelivered⟩
      · cases hrun

/-- What a step of the network passes to an endpoint, and what it returns. -/
def passedBy (x : Side) : Action → List U8
  | .run y s => if y = x then passed s else []
  | _ => []

def ReturnsTo (x : Side) (tcb : Tcb) (bytes : List U8) : Action → Prop
  | .run y s => if y = x then Returns tcb bytes s else bytes = []
  | _ => bytes = []

theorem step_serves {n n' : Net} {a : Action} (h : n.step a = some n') (x : Side) :
    (n'.endpoint x).handed = (n.endpoint x).handed ++ passedBy x a ∧
      ∃ bytes, ReturnsTo x (n.tcb x) bytes a ∧
        (n'.endpoint x).delivered = (n.endpoint x).delivered ++ bytes := by
  have hsame : ∀ e : Endpoint, e.handed = e.handed ++ [] ∧ e.delivered = e.delivered ++ [] :=
    fun e => ⟨(List.append_nil _).symm, (List.append_nil _).symm⟩
  have hother : ∀ (n : Net) (y : Side) (result : Endpoint × List Event), y ≠ x →
      (n.finish y result).endpoint x = n.endpoint x := by
    intro n y result hne
    have heq : x = y.other := by
      cases x <;> cases y <;> simp_all [Side.other]
    rw [heq]
    exact finish_endpoint_other n y result
  cases Net.step_cases h with
  | run y s result hlocal hrun =>
      by_cases hy : y = x
      · subst hy
        obtain ⟨hhanded, bytes, hbytes, hdelivered⟩ := run_serves hrun
        rw [finish_endpoint_self, passedBy, if_pos rfl]
        refine ⟨hhanded, bytes, ?_, hdelivered⟩
        rw [ReturnsTo, if_pos rfl]
        exact hbytes
      · rw [hother n y result hy, passedBy, if_neg hy]
        refine ⟨(hsame _).1, [], ?_, (hsame _).2⟩
        rw [ReturnsTo, if_neg hy]
  | deliver y env index seg result hseg hrun =>
      by_cases hy : y = x
      · subst hy
        obtain ⟨hhanded, bytes, hbytes, hdelivered⟩ := run_serves hrun
        rw [finish_endpoint_self]
        exact ⟨hhanded, bytes, hbytes, hdelivered⟩
      · rw [hother _ y result hy]
        exact ⟨(hsame _).1, [], rfl, (hsame _).2⟩
  | duplicate => exact ⟨(hsame _).1, [], rfl, (hsame _).2⟩
  | lose => exact ⟨(hsame _).1, [], rfl, (hsame _).2⟩

theorem uncalled {a : Action} (h : ¬ isCall a = true) (x : Side) (tcb : Tcb) {bytes : List U8}
    (hreturns : ReturnsTo x tcb bytes a) : passedBy x a = [] ∧ bytes = [] := by
  cases a with
  | run y s =>
      rw [passedBy]
      rw [ReturnsTo] at hreturns
      cases s with
      | send => exact absurd rfl h
      | read => exact absurd rfl h
      | _ => exact ⟨ite_self _, (ite_self _).mp hreturns⟩
  | _ => exact ⟨rfl, hreturns⟩

theorem fread_eq (file : List U8) (position : ℕ) :
    file.take position ++ fread file position = file.take (position + (fread file position).length) := by
  have hchunk : fread file position = (file.drop position).take (fread file position).length :=
    List.prefix_iff_eq_take.mp (List.take_prefix _ _)
  rw [List.take_add, ← hchunk]

theorem take_of_fread (h : fread file t.position = []) : file.take t.position = file := by
  rw [fread, List.take_eq_nil_iff] at h
  have hend := h.resolve_left (by decide)
  exact List.take_of_length_le (List.drop_eq_nil_iff.mp hend)

/-- The programs know what their stacks did. -/
structure Linked (file : List U8) (t : Transfer) : Prop where
  reached : Reachable network t.net
  handed : t.net.client.handed = file.take t.position
  outFile : t.outFile = t.net.server.delivered
  complete : t.drained = true → edgeOf t.net.server = file.length

theorem linked_init (h : (transfers file).init t) : Linked file t := by
  obtain ⟨hinitial, hposition, hdrained, hout⟩ := h
  have hreached : Reachable network t.net := .init hinitial
  obtain ⟨ip, port, ip', port', hclient, hserver, -⟩ := hinitial
  refine ⟨hreached, ?_, ?_, ?_⟩
  · rw [Net.client, hclient, hposition]
    rfl
  · rw [Net.server, hserver, hout]
    rfl
  · rw [hdrained]
    rintro ⟨⟩

theorem written_le_handed (n : Net) : n.client.written <+: n.client.handed := List.prefix_append _ _

theorem edge_complete {n n' : Net} {a : Action} (hfile : file.length < 2 ^ 31 - 1)
    (hreach : Reachable network n) (hstep : n.step a = some n') (hle : n'.client.written <+: file)
    (h : edgeOf n.server = file.length) : edgeOf n'.server = file.length := by
  have hjoint := joint hfile hreach ((step_written hstep .client).trans hle)
  obtain ⟨hjoint', hgrown⟩ := hjoint.step hfile hstep hle
  have hmore : edgeOf n.server ≤ edgeOf n'.server := hgrown.received
  exact Nat.le_antisymm (edgeOf_le hjoint'.receives) (h ▸ hmore)

/-- A step of the stack, while the programs go on as `position` and `outFile` say. -/
theorem Linked.stack (h : Linked file t) (hfile : file.length < 2 ^ 31 - 1) {net : Net} {a : Action}
    {position : ℕ} {outFile : List U8} (hstep : t.net.step a = some net)
    (hhanded : net.client.handed = file.take position) (hout : outFile = net.server.delivered) :
    Linked file { t with net, position, outFile } := by
  refine ⟨.step h.reached trivial hstep, hhanded, hout, fun hdrained => ?_⟩
  refine edge_complete hfile h.reached hstep ?_ (h.complete hdrained)
  exact (written_le_handed net).trans (hhanded ▸ List.take_prefix _ _)

theorem linked_step (hfile : file.length < 2 ^ 31 - 1) (h : Linked file t)
    (hstep : t.next file a = some t') : Linked file t' := by
  cases a with
  | stack a =>
      simp only [Transfer.next] at hstep
      split at hstep
      · cases hstep
      · rename_i hcall
        obtain ⟨net, hnet, rfl⟩ := Option.map_eq_some_iff.mp hstep
        obtain ⟨hclient, sent, hsent, -⟩ := step_serves hnet .client
        obtain ⟨-, bytes, hbytes, hserver⟩ := step_serves hnet .server
        rw [(uncalled hcall _ _ hsent).1, List.append_nil] at hclient
        rw [(uncalled hcall _ _ hbytes).2, List.append_nil] at hserver
        exact h.stack hfile hnet (hclient.trans h.handed) (h.outFile.trans hserver.symm)
  | send envs =>
      simp only [Transfer.next] at hstep
      split at hstep
      · cases hstep
      · obtain ⟨net, hnet, rfl⟩ := Option.map_eq_some_iff.mp hstep
        have hclient : net.client.handed = t.net.client.handed ++ fread file t.position :=
          (step_serves hnet .client).1
        obtain ⟨-, bytes, hbytes, hserver⟩ := step_serves hnet .server
        have hnone : bytes = [] := hbytes
        rw [hnone, List.append_nil] at hserver
        refine h.stack hfile hnet ?_ (h.outFile.trans hserver.symm)
        rw [hclient, h.handed, fread_eq]
  | drain =>
      simp only [Transfer.next] at hstep
      split at hstep
      · rename_i hends
        cases hstep
        obtain ⟨hstate, hpending, hend, hdrained⟩ := hends
        refine ⟨h.reached, h.handed, h.outFile, fun _ => ?_⟩
        have hall : t.net.client.written = file := by
          have hhanded := h.handed.trans (take_of_fread hend)
          rwa [Endpoint.handed, hpending, List.append_nil] at hhanded
        have hsmall : t.net.client.written.length < 2 ^ 31 - 1 := by
          rw [hall]
          exact hfile
        have hjoint := joint_self h.reached hsmall
        rw [← length_received hjoint.receives, drained_arrived h.reached hsmall hstate hdrained, hall]
      · cases hstep
  | read env =>
      simp only [Transfer.next] at hstep
      split at hstep
      · obtain ⟨net, hnet, rfl⟩ := Option.map_eq_some_iff.mp hstep
        have hclient : net.client.handed = t.net.client.handed ++ [] := (step_serves hnet .client).1
        obtain ⟨-, bytes, hbytes, hserver⟩ := step_serves hnet .server
        rw [ReturnsTo, if_pos rfl, Returns] at hbytes
        refine h.stack hfile hnet (hclient.trans ((List.append_nil _).trans h.handed)) ?_
        rw [h.outFile, ← hbytes]
        exact hserver.symm
      · cases hstep

/-- Whatever the network does, the server's file is the beginning of the client's;
once the client reports that all is acknowledged the server has the whole of it, and
once the server has its last byte the two are the same. -/
theorem file_transferred (hfile : file.length < 2 ^ 31 - 1) (h : Reachable (transfers file) t) :
    t.outFile <+: file ∧
      (t.drained = true → t.outFile ++ ringContents t.net.server.tcb = file) ∧
        (file.length ≤ t.outFile.length → t.outFile = file) := by
  have hlinked : Linked file t := by
    refine h.invariant (fun t hinit => linked_init hinit) ?_
    exact fun t a t' _ hlinked _ hstep => linked_step hfile hlinked hstep
  have hwritten : t.net.client.written <+: file :=
    (written_le_handed t.net).trans (hlinked.handed ▸ List.take_prefix _ _)
  have hjoint := joint hfile hlinked.reached hwritten
  have hreceived := received_stream hjoint.receives
  rw [← hlinked.outFile] at hreceived
  have hout : t.outFile <+: file := (List.prefix_append _ _).trans hreceived
  refine ⟨hout, fun hdrained => ?_, fun hlen => ?_⟩
  · have hlen := length_received hjoint.receives
    rw [hlinked.complete hdrained, ← hlinked.outFile] at hlen
    exact hreceived.eq_of_length hlen
  · exact hout.eq_of_length (Nat.le_antisymm hout.length_le hlen)

theorem reachable_stack (actions : List Action) (h : Reachable (transfers file) t)
    (hcalls : actions.any isCall = false) {net : Net} (hrun : runAll Net.step t.net actions = some net) :
    Reachable (transfers file) { t with net } := by
  induction actions generalizing t with
  | nil =>
      cases hrun
      exact h
  | cons a actions ih =>
      obtain ⟨mid, hnext, hrest⟩ := Option.bind_eq_some_iff.mp hrun
      rw [List.any_cons, Bool.or_eq_false_iff] at hcalls
      have hstep : (transfers file).step t (.stack a) { t with net := mid } := by
        simp only [transfers, Transfer.next, hcalls.1, hnext]
        rfl
      have hmid : Reachable (transfers file) { t with net := mid } := .step h trivial hstep
      have hends := ih hmid hcalls.2 hrest
      exact hends

/-- The handshake. -/
def opened : List Action :=
  [.run .client (.connect (.still 5) 2 20), .deliver .server (.still 6) 0,
    .deliver .client (.still 7) 0, .deliver .server (.still 8) 0]

/-- The data arrive twice, an acknowledgment once. -/
def acknowledged : List Action :=
  [.duplicate .server 0, .deliver .server (.still 10) 0, .deliver .server (.still 11) 0,
    .deliver .client (.still 12) 0]

/-- A file of three bytes, read when the client is done. -/
theorem file_transferred_three :
    ∃ t : Transfer, t.drained = true ∧ t.outFile = [65, 66, 67] ∧ t.outFile <+: [65, 66, 67] ∧
      (t.drained = true → t.outFile ++ ringContents t.net.server.tcb = [65, 66, 67]) ∧
        ([65, 66, 67].length ≤ t.outFile.length → t.outFile = [65, 66, 67]) := by
  have hrun : ((runAll Net.step Net.start opened).bind fun n =>
      (n.step (.run .client (.send (fun _ => .still 9) [65, 66, 67]))).bind fun n =>
        (runAll Net.step n acknowledged).bind fun n =>
          if n.client.tcb.state = .established ∧ n.client.pending = [] ∧
              utcpDrainReturns n.client.tcb then
            (n.step (.run .server (.read (.still 13) recvBuffSize))).map fun _ =>
              (utcpRead (.still 13) (n.tcb .server) recvBuffSize).2
          else none) = some [65, 66, 67] := by
    decide +kernel
  obtain ⟨opening, hopened, hrun⟩ := Option.bind_eq_some_iff.mp hrun
  obtain ⟨sent, hsent, hrun⟩ := Option.bind_eq_some_iff.mp hrun
  obtain ⟨done, hdone, hrun⟩ := Option.bind_eq_some_iff.mp hrun
  split at hrun
  · rename_i hends
    obtain ⟨net, hnet, hout⟩ := Option.map_eq_some_iff.mp hrun
    have hstart : Reachable (transfers [65, 66, 67]) ⟨Net.start, 0, false, []⟩ :=
      .init ⟨Net.start_initial, rfl, rfl, rfl⟩
    have hsend : (transfers [65, 66, 67]).step ⟨opening, 0, false, []⟩ (.send fun _ => .still 9)
        ⟨sent, 3, false, []⟩ := by
      have hchunk : fread [65, 66, 67] 0 = [65, 66, 67] := rfl
      simp only [transfers, Transfer.next]
      rw [hchunk, if_neg (by decide), hsent]
      rfl
    have hsent' := ReachedBy.step (reachable_stack opened hstart rfl hopened) trivial hsend
    have hdrain : (transfers [65, 66, 67]).step ⟨done, 3, false, []⟩ .drain ⟨done, 3, true, []⟩ :=
      if_pos ⟨hends.1, hends.2.1, rfl, hends.2.2⟩
    have hdrained := ReachedBy.step (reachable_stack acknowledged hsent' rfl hdone) trivial hdrain
    have hread : (transfers [65, 66, 67]).step ⟨done, 3, true, []⟩ (.read (.still 13))
        ⟨net, 3, true, [65, 66, 67]⟩ := by
      simp only [transfers, Transfer.next]
      rw [if_pos (by decide), hnet, hout]
      rfl
    have hreach := ReachedBy.step hdrained trivial hread
    exact ⟨_, rfl, rfl, file_transferred (by decide) hreach⟩
  · cases hrun

end Utcp.FileTransfer
