import Utcp.Input

/-!
`find_tcb` and the loop of `utcp_input` around it: which control block a
datagram reaches, and what becomes of one that belongs to none.
-/

namespace Utcp.Demultiplexing

open Utcp.Tcp
open Utcp.Input

/-- `utcp_fd_table`; an empty slot holds `NULL`. -/
abbrev FdTable := List (Option Tcb)

/-- The block has the ports and the address of the segment. -/
def sameTuple (hdr : TcpHdr) (srcIp : U32) (tcb : Tcb) : Bool :=
  tcb.srcPort = hdr.thDport ∧ tcb.dstPort = hdr.thSport ∧ tcb.dstIp = srcIp

def listensOn (hdr : TcpHdr) (tcb : Tcb) : Bool :=
  tcb.state = .listen ∧ tcb.srcPort = hdr.thDport

/-- The loop of `find_tcb` from slot `i` on. -/
def findFrom (hdr : TcpHdr) (srcIp : U32) : FdTable → Nat → Option Nat → Option Nat
  | [], _, listenMatch => listenMatch
  | none :: rest, i, listenMatch => findFrom hdr srcIp rest (i + 1) listenMatch
  | some tcb :: rest, i, listenMatch =>
      if sameTuple hdr srcIp tcb then some i
      else findFrom hdr srcIp rest (i + 1) (if listensOn hdr tcb then some i else listenMatch)

/-- `find_tcb`: the slot of the block it returns. -/
def findTcb (table : FdTable) (hdr : TcpHdr) (srcIp : U32) : Option Nat :=
  findFrom hdr srcIp table 0 none

/-- One turn of the loop of `utcp_input`. Without a block it takes the lock of
`NULL`, and the test behind that ends the process. -/
def listenTurn (env : Env) (table : FdTable) (seg : TcpSegment) (peer : Peer) :
    Option (FdTable × List Event) := do
  let i ← findTcb table seg.hdr peer.ip
  let tcb ← table[i]?.join
  let out ← utcpInput env tcb seg peer
  some (table.set i (some out.tcb), out.log)

def TupleAt (table : FdTable) (hdr : TcpHdr) (srcIp : U32) (i : Nat) : Prop :=
  ∃ tcb, table[i]? = some (some tcb) ∧ sameTuple hdr srcIp tcb

def ListenerAt (table : FdTable) (hdr : TcpHdr) (i : Nat) : Prop :=
  ∃ tcb, table[i]? = some (some tcb) ∧ listensOn hdr tcb

/-- The first block in table order with the tuple of the segment. -/
def FirstTuple (table : FdTable) (hdr : TcpHdr) (srcIp : U32) (i : Nat) : Prop :=
  TupleAt table hdr srcIp i ∧ ∀ j < i, ¬ TupleAt table hdr srcIp j

variable {hdr : TcpHdr} {srcIp : U32} {table : FdTable}

theorem tupleAt_cons {slot : Option Tcb} {i : Nat} :
    TupleAt (slot :: table) hdr srcIp (i + 1) ↔ TupleAt table hdr srcIp i := Iff.rfl

theorem listenerAt_cons {slot : Option Tcb} {i : Nat} :
    ListenerAt (slot :: table) hdr (i + 1) ↔ ListenerAt table hdr i := Iff.rfl

theorem tupleAt_zero {tcb : Tcb} :
    TupleAt (some tcb :: table) hdr srcIp 0 ↔ sameTuple hdr srcIp tcb := by
  simp [TupleAt]

theorem listenerAt_zero {tcb : Tcb} :
    ListenerAt (some tcb :: table) hdr 0 ↔ listensOn hdr tcb := by
  simp [ListenerAt]

theorem not_tupleAt_nil (i : Nat) : ¬ TupleAt [] hdr srcIp i := by
  simp [TupleAt]

theorem not_listenerAt_nil (i : Nat) : ¬ ListenerAt [] hdr i := by
  simp [ListenerAt]

theorem not_tupleAt_empty : ¬ TupleAt (none :: table) hdr srcIp 0 := by
  simp [TupleAt]

theorem not_listenerAt_empty : ¬ ListenerAt (none :: table) hdr 0 := by
  simp [ListenerAt]

theorem FirstTuple.tail {slot : Option Tcb} {i : Nat}
    (h : FirstTuple (slot :: table) hdr srcIp (i + 1)) : FirstTuple table hdr srcIp i := by
  refine ⟨tupleAt_cons.mp h.1, ?_⟩
  intro j hj htuple
  exact h.2 (j + 1) (Nat.succ_lt_succ hj) (tupleAt_cons.mpr htuple)

/-- A block with the tuple goes before every listener. -/
theorem findFrom_of_firstTuple {i : Nat} (h : FirstTuple table hdr srcIp i) (base : Nat)
    (listenMatch : Option Nat) :
    findFrom hdr srcIp table base listenMatch = some (base + i) := by
  induction table generalizing i base listenMatch with
  | nil => exact absurd h.1 (not_tupleAt_nil i)
  | cons slot rest ih =>
      rcases i with - | i
      · rcases slot with - | tcb
        · exact absurd h.1 not_tupleAt_empty
        · rw [findFrom, if_pos (tupleAt_zero.mp h.1), Nat.add_zero]
      · rcases slot with - | tcb
        · rw [findFrom, ih h.tail, Nat.add_assoc, Nat.add_comm 1]
        · have hearlier := h.2 0 (Nat.succ_pos i)
          rw [tupleAt_zero] at hearlier
          rw [findFrom, if_neg hearlier, ih h.tail, Nat.add_assoc, Nat.add_comm 1]

theorem findFrom_of_none (h : ∀ i, ¬ TupleAt table hdr srcIp i) (base : Nat)
    (listenMatch : Option Nat) :
    (∃ i, ListenerAt table hdr i ∧
      findFrom hdr srcIp table base listenMatch = some (base + i)) ∨
    (∀ i, ¬ ListenerAt table hdr i) ∧ findFrom hdr srcIp table base listenMatch = listenMatch := by
  induction table generalizing base listenMatch with
  | nil => exact .inr ⟨not_listenerAt_nil, rfl⟩
  | cons slot rest ih =>
      have hrest : ∀ i, ¬ TupleAt rest hdr srcIp i := fun i hi => h (i + 1) (tupleAt_cons.mpr hi)
      rcases slot with - | tcb
      · rw [findFrom]
        rcases ih hrest (base + 1) listenMatch with ⟨i, hi, hfind⟩ | ⟨hnone, hfind⟩
        · exact .inl ⟨i + 1, listenerAt_cons.mpr hi, by rw [hfind, Nat.add_assoc, Nat.add_comm 1]⟩
        · refine .inr ⟨?_, hfind⟩
          rintro (- | i)
          · exact not_listenerAt_empty
          · exact fun hi => hnone i (listenerAt_cons.mp hi)
      · have hhead := h 0
        rw [tupleAt_zero] at hhead
        rw [findFrom, if_neg hhead]
        rcases ih hrest (base + 1) (if listensOn hdr tcb then some base else listenMatch) with
          ⟨i, hi, hfind⟩ | ⟨hnone, hfind⟩
        · exact .inl ⟨i + 1, listenerAt_cons.mpr hi, by rw [hfind, Nat.add_assoc, Nat.add_comm 1]⟩
        · rcases hlistens : listensOn hdr tcb with - | -
          · rw [hlistens] at hfind
            refine .inr ⟨?_, hfind⟩
            rintro (- | i)
            · rw [listenerAt_zero, hlistens]
              exact Bool.false_ne_true
            · exact fun hi => hnone i (listenerAt_cons.mp hi)
          · rw [hlistens] at hfind
            exact .inl ⟨0, listenerAt_zero.mpr hlistens, hfind⟩

/-- The datagram is processed for the block in slot `i`, and every other slot
stays as it was. Where that ends the process, the turn does. -/
def ReachesOnly (env : Env) (table : FdTable) (seg : TcpSegment) (peer : Peer) (i : Nat) : Prop :=
  ∃ tcb, table[i]? = some (some tcb) ∧
    listenTurn env table seg peer =
      (utcpInput env tcb seg peer).map fun out => (table.set i (some out.tcb), out.log)

/-- A datagram reaches the first block with its tuple, else a listener on its
port, and else it is dropped and the loop goes on. -/
structure Isolated (env : Env) (table : FdTable) (seg : TcpSegment) (peer : Peer) : Prop where
  connection : ∀ i, FirstTuple table seg.hdr peer.ip i → ReachesOnly env table seg peer i
  listener : (∀ i, ¬ TupleAt table seg.hdr peer.ip i) → (∃ i, ListenerAt table seg.hdr i) →
    ∃ i, ListenerAt table seg.hdr i ∧ ReachesOnly env table seg peer i
  dropped : (∀ i, ¬ TupleAt table seg.hdr peer.ip i) → (∀ i, ¬ ListenerAt table seg.hdr i) →
    listenTurn env table seg peer = some (table, [])

variable {env : Env} {seg : TcpSegment} {peer : Peer}

theorem reachesOnly_of_findTcb {i : Nat} {tcb : Tcb} (htcb : table[i]? = some (some tcb))
    (hfind : findTcb table seg.hdr peer.ip = some i) : ReachesOnly env table seg peer i := by
  refine ⟨tcb, htcb, ?_⟩
  simp only [listenTurn, hfind, htcb, Option.bind_eq_bind, Option.bind_some, Option.join_some]
  rcases utcpInput env tcb seg peer with - | out <;> rfl

/-- The datagrams that belong to no block are the ones that are not isolated:
they end the process. -/
theorem isolated_iff (env : Env) (table : FdTable) (seg : TcpSegment) (peer : Peer) :
    Isolated env table seg peer ↔
      ∃ i, TupleAt table seg.hdr peer.ip i ∨ ListenerAt table seg.hdr i := by
  constructor
  · intro h
    by_contra hnone
    push Not at hnone
    have hlookup := findFrom_of_none (fun i => (hnone i).1) 0 none
    have hfind : findTcb table seg.hdr peer.ip = none := by
      rcases hlookup with ⟨i, hi, -⟩ | ⟨-, hfind⟩
      · exact absurd hi (hnone i).2
      · exact hfind
    have hdropped := h.dropped (fun i => (hnone i).1) (fun i => (hnone i).2)
    rw [listenTurn, hfind] at hdropped
    cases hdropped
  · rintro ⟨k, hk⟩
    refine ⟨?_, ?_, ?_⟩
    · intro i hi
      obtain ⟨tcb, htcb, -⟩ := hi.1
      have hfind := findFrom_of_firstTuple hi 0 none
      rw [Nat.zero_add] at hfind
      exact reachesOnly_of_findTcb htcb hfind
    · rintro hnone ⟨j, hj⟩
      rcases findFrom_of_none hnone 0 none with ⟨i, hi, hfind⟩ | ⟨hno, -⟩
      · rw [Nat.zero_add] at hfind
        have htcb := hi
        obtain ⟨tcb, htcb, -⟩ := htcb
        exact ⟨i, hi, reachesOnly_of_findTcb htcb hfind⟩
      · exact absurd hj (hno j)
    · intro hnone hno
      exact absurd hk (not_or_intro (hnone k) (hno k))

/-- A datagram for a port without a socket. -/
theorem isolated_fails :
    ¬ ∀ (env : Env) (table : FdTable) (seg : TcpSegment) (peer : Peer),
      Isolated env table seg peer := by
  intro h
  have hdropped := (h (.still 0) [] ⟨⟨1, 2, 0, 0, 0x50, thSyn, 0, 0, 0⟩, []⟩ ⟨0, 0⟩).dropped
    not_tupleAt_nil not_listenerAt_nil
  cases hdropped

end Utcp.Demultiplexing
