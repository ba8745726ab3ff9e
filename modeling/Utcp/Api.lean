import Utcp.Input
import Utcp.Library.TransitionSystem

/-!
`api.c`, and an endpoint: a socket with the application thread that uses it.
-/

namespace Utcp.Api

open TransitionSystems
open Utcp.Tcp
open Utcp.Utils
open Utcp.Output
open Utcp.CongestionControl
open Utcp.Timers
open Utcp.Input

/-- The loop that picks the window scale in `utcp_socket`. -/
def windowScale : Nat → U8 → U8
  | 0, scale => scale
  | fuel + 1, scale =>
      if recvBufSize >>> scale.toNat > 65535 ∧ scale < 14 then windowScale fuel (scale + 1)
      else scale

/-- The control block `utcp_socket` allocates. -/
def utcpSocket : Tcb where
  srcIp := 0
  dstIp := 0
  srcPort := 0
  dstPort := 0
  dstUdpPort := 0
  state := .closed
  sndUna := 0
  sndMax := 0
  sndNxt := 0
  iss := 0
  irs := 0
  rcvNxt := 0
  rcvWnd := recvBufSize
  sndWnd := 0
  tfAcknow := false
  tfDelack := false
  cwnd := 0
  ssthresh := 0
  tDupacks := 0
  recover := 0
  caState := .open
  ccOps := .newReno
  tTimer := fun _ => 0
  tIdle := 0
  tRtt := 0
  tRtseq := 0
  tSrtt := 0
  tRttvar := 0
  tRxtcur := tcptvSrttdflt
  tRxtshift := 0
  tsEnabled := false
  tsRecent := 0
  sendBuf := fun _ => 0
  sendBufHead := 0
  sendBufTail := 0
  recvBuf := fun _ => 0
  recvBufHead := 0
  recvBufTail := 0
  oooHead := []
  oooBytes := 0
  sndScale := 0
  rcvScale := windowScale 14 0
  scaleEnabled := false
  minRttSeenUs := 0

def utcpBind (tcb : Tcb) (ip : U32) (port : U16) : Tcb :=
  { tcb with srcIp := ip, srcPort := port }

def utcpListen (tcb : Tcb) : Tcb := { tcb with state := .listen }

/-- `utcp_connect`, up to the wait for the handshake. -/
def utcpConnect (env : Env) (tcb : Tcb) (ip : U32) (port : U16) : Out :=
  utcpOutput env.output
    { tcb with dstIp := ip, dstPort := port, dstUdpPort := 1970, state := .synSent }

/-- The room in the send buffer. -/
def sendFreeSpace (tcb : Tcb) : U32 := sendBufSize - (tcb.sendBufTail - tcb.sendBufHead)

/-- One turn of the loop of `utcp_send` with room in the buffer: write a chunk. -/
def writeChunk (tcb : Tcb) (chunk : List U8) : Tcb :=
  { tcb with
    sendBuf := ringBufWrite tcb.sendBuf sendBufSize tcb.sendBufTail chunk
    sendBufTail := tcb.sendBufTail + BitVec.ofNat 32 chunk.length }

@[simp] theorem writeChunk_state (tcb : Tcb) (chunk : List U8) :
    (writeChunk tcb chunk).state = tcb.state := by
  rw [writeChunk]

/-- The loop of `utcp_send`, until nothing remains or the thread waits for room;
with what remains. Every turn that goes on writes, so the bytes bound the turns. -/
def sendLoop (envs : Nat → Env) : Nat → Nat → Tcb → List U8 → Out × List U8
  | 0, _, tcb, remaining => (⟨tcb, []⟩, remaining)
  | fuel + 1, turn, tcb, remaining =>
      if remaining = [] ∨ sendFreeSpace tcb = 0 then (⟨tcb, []⟩, remaining)
      else
        let toWrite := min remaining.length (sendFreeSpace tcb).toNat
        let out := utcpOutput (envs turn).output (writeChunk tcb (remaining.take toWrite))
        let (rest, remaining) := sendLoop envs fuel (turn + 1) out.tcb (remaining.drop toWrite)
        (⟨rest.tcb, out.log ++ rest.log⟩, remaining)

/-- One critical section of `utcp_send` with `remaining` bytes to write. -/
def utcpSend (envs : Nat → Env) (tcb : Tcb) (remaining : List U8) : Out × List U8 :=
  sendLoop envs remaining.length 0 tcb remaining

/-- The silly-window threshold of `utcp_read`. -/
def swsThreshold : U32 := if mss < recvBufSize / 2 then mss else recvBufSize / 2

/-- The block after `utcp_read` took some bytes. -/
def takeBytes (tcb : Tcb) (numBytesToRead : Nat) : Tcb :=
  let recvBufHead := tcb.recvBufHead + BitVec.ofNat 32 numBytesToRead
  let bytesInBuffer := tcb.recvBufTail - recvBufHead
  { tcb with recvBufHead, rcvWnd := recvBufSize - bytesInBuffer - tcb.oooBytes }

@[simp] theorem takeBytes_state (tcb : Tcb) (numBytesToRead : Nat) :
    (takeBytes tcb numBytesToRead).state = tcb.state := by
  rw [takeBytes]

/-- Whether `utcp_read` tells the peer about the window. -/
def sendsUpdate (rcvWnd available : U32) : Prop :=
  rcvWnd ≥ swsThreshold ∨ rcvWnd < swsThreshold ∧ available = recvBufSize

instance (rcvWnd available : U32) : Decidable (sendsUpdate rcvWnd available) :=
  inferInstanceAs (Decidable (_ ∨ _))

/-- `utcp_read` once there is something to read: what it leaves, and what it
returns. -/
def utcpRead (env : Env) (tcb : Tcb) (len : Nat) : Out × List U8 :=
  let available := bufUsed tcb
  let numBytesToRead := min len available.toNat
  let bytes := ringBufRead tcb.recvBuf recvBufSize tcb.recvBufHead numBytesToRead
  let tcb := takeBytes tcb numBytesToRead
  let space := .freeSpace (bufUsed tcb) tcb.oooBytes
  if sendsUpdate tcb.rcvWnd available then
    let out := utcpOutput env.output (setAcknow tcb)
    (⟨out.tcb, space :: out.log⟩, bytes)
  else (⟨tcb, [space]⟩, bytes)

/-- `utcp_drain` does not wait. -/
def utcpDrainReturns (tcb : Tcb) : Prop := tcb.sendBufHead = tcb.sendBufTail

/-- A socket and its application: the bytes it has written into the send buffer,
those of a call of `utcp_send` still waiting for room, those it has read, and
everything its critical sections have done so far. -/
structure Endpoint where
  tcb : Tcb
  written : List U8
  pending : List U8
  delivered : List U8
  history : List Event

/-- All bytes passed to `utcp_send`. -/
def Endpoint.handed (e : Endpoint) : List U8 := e.written ++ e.pending

/-- The critical sections of an endpoint, each with what it takes from outside. -/
inductive Section
  | connect (env : Env) (ip : U32) (port : U16)
  | input (env : Env) (seg : TcpSegment) (peer : Peer)
  | slowtimo (envs : Timer → Env)
  | send (envs : Nat → Env) (bytes : List U8)
  | wake (envs : Nat → Env)
  | read (env : Env) (len : Nat)

/-- The endpoint after code that leaves `out`, with the events it caused. -/
def Endpoint.finish (e : Endpoint) (out : Out) : Endpoint × List Event :=
  ({ e with tcb := out.tcb, history := e.history ++ out.log }, out.log)

/-- A critical section of `utcp_send` for the bytes `remaining`. -/
def Endpoint.sendSection (e : Endpoint) (envs : Nat → Env) (remaining : List U8) :
    Endpoint × List Event :=
  let (out, left) := utcpSend envs e.tcb remaining
  let chunk := remaining.take (remaining.length - left.length)
  { e with written := e.written ++ chunk, pending := left }.finish out

/-- A critical section of `utcp_read` that leaves a block and returns bytes. -/
def Endpoint.afterRead (e : Endpoint) (result : Out × List U8) : Endpoint × List Event :=
  { e with delivered := e.delivered ++ result.2 }.finish result.1

/-- Run a critical section. There is no result where the call is not made in
this state or blocks, and where the process is killed. -/
def Endpoint.run (e : Endpoint) : Section → Option (Endpoint × List Event)
  | .connect env ip port =>
      if e.tcb.state = .closed then some (e.finish (utcpConnect env e.tcb ip port)) else none
  | .input env seg peer => (utcpInput env e.tcb seg peer).map e.finish
  | .slowtimo envs => (utcpSlowtimo envs e.tcb).map e.finish
  | .send envs bytes =>
      if e.tcb.state = .established ∧ e.pending = [] then some (e.sendSection envs bytes)
      else none
  | .wake envs =>
      if e.tcb.state = .established ∧ e.pending ≠ [] then some (e.sendSection envs e.pending)
      else none
  | .read env len =>
      if e.tcb.state = .established ∧ e.tcb.recvBufHead ≠ e.tcb.recvBufTail then
        some (e.afterRead (utcpRead env e.tcb len))
      else none

/-- A socket before its first critical section. -/
def Endpoint.start (tcb : Tcb) : Endpoint :=
  { tcb, written := [], pending := [], delivered := [], history := [] }

/-- A new socket, bound and perhaps listening. -/
def Endpoint.Fresh (e : Endpoint) : Prop :=
  ∃ ip port,
    e = .start (utcpBind utcpSocket ip port) ∨
      e = .start (utcpListen (utcpBind utcpSocket ip port))

/-- One endpoint in any environment: the segments it gets are arbitrary. -/
def endpoints : TransitionSystem Endpoint Section where
  init := Endpoint.Fresh
  step e s e' := ∃ log, e.run s = some (e', log)

/-- Run a critical section and forget its events. -/
def Endpoint.next (e : Endpoint) (s : Section) : Option Endpoint := (e.run s).map Prod.fst

theorem endpoints_next {e e' : Endpoint} {s : Section} (h : e.next s = some e') :
    endpoints.step e s e' := by
  obtain ⟨⟨_, log⟩, hrun, rfl⟩ := Option.map_eq_some_iff.mp h
  exact ⟨log, hrun⟩

end Utcp.Api
