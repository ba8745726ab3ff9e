import Utcp.Api

/-!
Two endpoints over a network that loses, duplicates, delays and reorders the
segments they emit. A step is one critical section, or something that happens
to a segment in flight.
-/

namespace Utcp.Network

open TransitionSystems
open Utcp.Tcp
open Utcp.Input
open Utcp.Api

inductive Side
  | client
  | server
deriving DecidableEq, Repr

def Side.other : Side → Side
  | .client => .server
  | .server => .client

@[simp] theorem Side.other_ne (x : Side) : x.other ≠ x := by
  cases x <;> decide

@[simp] theorem Side.ne_other (x : Side) : x ≠ x.other := by
  cases x <;> decide

theorem Side.other_other (x : Side) : x.other.other = x := by
  cases x <;> rfl

theorem Side.self_or_other (x y : Side) : y = x ∨ y = x.other := by
  cases x <;> cases y <;> simp [Side.other]

/-- The endpoints, the segments in flight towards each, and where the datagrams
of each come from. -/
structure Net where
  endpoint : Side → Endpoint
  inbox : Side → List TcpSegment
  address : Side → Peer

abbrev Net.client (n : Net) : Endpoint := n.endpoint .client

abbrev Net.server (n : Net) : Endpoint := n.endpoint .server

abbrev Net.tcb (n : Net) (x : Side) : Tcb := (n.endpoint x).tcb

/-- The sections that need no datagram. -/
def isLocal : Section → Bool
  | .input .. => false
  | _ => true

inductive Action
  | run (x : Side) (section_ : Section)
  | deliver (x : Side) (env : Env) (index : Nat)
  | duplicate (x : Side) (index : Nat)
  | lose (x : Side) (index : Nat)

def Net.withInbox (n : Net) (x : Side) (segs : List TcpSegment) : Net :=
  { n with inbox := Function.update n.inbox x segs }

/-- A critical section of `x` ended: its segments are in flight to the other. -/
def Net.finish (n : Net) (x : Side) (result : Endpoint × List Event) : Net :=
  { n with
    endpoint := Function.update n.endpoint x result.1
    inbox := Function.update n.inbox x.other (n.inbox x.other ++ segments result.2) }

def Net.step (n : Net) : Action → Option Net
  | .run x section_ =>
      if isLocal section_ then ((n.endpoint x).run section_).map (n.finish x) else none
  | .deliver x env index => do
      let seg ← (n.inbox x)[index]?
      let result ← (n.endpoint x).run (.input env seg (n.address x.other))
      some ((n.withInbox x ((n.inbox x).eraseIdx index)).finish x result)
  | .duplicate x index => do
      let seg ← (n.inbox x)[index]?
      some (n.withInbox x (n.inbox x ++ [seg]))
  | .lose x index => some (n.withInbox x ((n.inbox x).eraseIdx index))

/-- A bound socket about to connect and a listening one, nothing in flight. -/
def Net.Initial (n : Net) : Prop :=
  ∃ ip port ip' port',
    n.endpoint .client = .start (utcpBind utcpSocket ip port) ∧
    n.endpoint .server = .start (utcpListen (utcpBind utcpSocket ip' port')) ∧
    n.inbox = fun _ => []

/-- The network as a transition system. -/
def network : TransitionSystem Net Action where
  init := Net.Initial
  step n a n' := n.step a = some n'

/-- The steps of the network, one case for each kind of action. -/
inductive NetStep (n : Net) : Action → Net → Prop
  | run (x : Side) (s : Section) (result : Endpoint × List Event) (hlocal : isLocal s = true)
      (hrun : (n.endpoint x).run s = some result) : NetStep n (.run x s) (n.finish x result)
  | deliver (x : Side) (env : Env) (index : Nat) (seg : TcpSegment)
      (result : Endpoint × List Event) (hseg : (n.inbox x)[index]? = some seg)
      (hrun : (n.endpoint x).run (.input env seg (n.address x.other)) = some result) :
      NetStep n (.deliver x env index)
        ((n.withInbox x ((n.inbox x).eraseIdx index)).finish x result)
  | duplicate (x : Side) (index : Nat) (seg : TcpSegment) (hseg : (n.inbox x)[index]? = some seg) :
      NetStep n (.duplicate x index) (n.withInbox x (n.inbox x ++ [seg]))
  | lose (x : Side) (index : Nat) :
      NetStep n (.lose x index) (n.withInbox x ((n.inbox x).eraseIdx index))

theorem Net.step_cases {n n' : Net} {a : Action} (h : n.step a = some n') : NetStep n a n' := by
  cases a with
  | run x s =>
      simp only [Net.step] at h
      split at h
      · rename_i hlocal
        obtain ⟨result, hrun, rfl⟩ := Option.map_eq_some_iff.mp h
        exact .run x s result hlocal hrun
      · cases h
  | deliver x env index =>
      obtain ⟨seg, hseg, h⟩ := Option.bind_eq_some_iff.mp h
      obtain ⟨result, hrun, h⟩ := Option.bind_eq_some_iff.mp h
      cases h
      exact .deliver x env index seg result hseg hrun
  | duplicate x index =>
      obtain ⟨seg, hseg, h⟩ := Option.bind_eq_some_iff.mp h
      cases h
      exact .duplicate x index seg hseg
  | lose x index =>
      cases h
      exact .lose x index

/-- The steps of the network whose section meets a condition on its endpoint. -/
def Everywhere (ok : Endpoint → Section → Prop) (n : Net) : Action → Prop
  | .run x s => ok (n.endpoint x) s
  | .deliver x env index =>
      ∀ seg, (n.inbox x)[index]? = some seg →
        ok (n.endpoint x) (.input env seg (n.address x.other))
  | .duplicate .. => True
  | .lose .. => True

instance (ok : Endpoint → Section → Prop) [∀ e s, Decidable (ok e s)] (n : Net) (a : Action) :
    Decidable (Everywhere ok n a) :=
  match a with
  | .run .. => inferInstanceAs (Decidable (ok _ _))
  | .deliver x _ index => inferInstanceAs (Decidable (∀ seg ∈ (n.inbox x)[index]?, ok _ _))
  | .duplicate .. | .lose .. => .isTrue trivial

theorem everywhere_true (n : Net) (a : Action) : Everywhere (fun _ _ => True) n a := by
  cases a <;> simp [Everywhere]

/-- What a step does to the endpoints: one of them runs a section, or none does.
A section on a datagram gets one that is in flight. -/
inductive EndpointsStep (ok : Endpoint → Section → Prop) (n n' : Net) : Prop
  | ran (x : Side) (s : Section) (log : List Event)
      (hinput : ∀ env seg peer, s = .input env seg peer → seg ∈ n.inbox x)
      (hrun : (n.endpoint x).run s = some (n'.endpoint x, log))
      (hother : n'.endpoint x.other = n.endpoint x.other)
      (hflight : ∀ y, ∀ seg ∈ n'.inbox y, seg ∈ n.inbox y ∨ y = x.other ∧ seg ∈ segments log)
      (hok : ok (n.endpoint x) s) : EndpointsStep ok n n'
  | still (hsame : n'.endpoint = n.endpoint)
      (hflight : ∀ y, ∀ seg ∈ n'.inbox y, seg ∈ n.inbox y) : EndpointsStep ok n n'

@[simp] theorem finish_endpoint_self (n : Net) (x : Side) (result : Endpoint × List Event) :
    (n.finish x result).endpoint x = result.1 := Function.update_self ..

@[simp] theorem finish_endpoint_other (n : Net) (x : Side) (result : Endpoint × List Event) :
    (n.finish x result).endpoint x.other = n.endpoint x.other :=
  Function.update_of_ne x.other_ne ..

theorem mem_withInbox {n : Net} {x y : Side} {segs : List TcpSegment} {seg : TcpSegment}
    (h : seg ∈ (n.withInbox x segs).inbox y) : seg ∈ n.inbox y ∨ y = x ∧ seg ∈ segs := by
  by_cases hy : y = x
  · subst hy
    simp only [Net.withInbox, Function.update_self] at h
    exact .inr ⟨rfl, h⟩
  · simp only [Net.withInbox, Function.update_of_ne hy] at h
    exact .inl h

theorem mem_finish {n : Net} {x y : Side} {result : Endpoint × List Event} {seg : TcpSegment}
    (h : seg ∈ (n.finish x result).inbox y) :
    seg ∈ n.inbox y ∨ y = x.other ∧ seg ∈ segments result.2 := by
  by_cases hy : y = x.other
  · subst hy
    simp only [Net.finish, Function.update_self, List.mem_append] at h
    exact h.imp_right fun hseg => ⟨rfl, hseg⟩
  · simp only [Net.finish, Function.update_of_ne hy] at h
    exact .inl h

theorem Net.step_endpoints {ok : Endpoint → Section → Prop} {n n' : Net} {a : Action}
    (h : n.step a = some n') (hok : Everywhere ok n a) : EndpointsStep ok n n' := by
  cases Net.step_cases h with
  | run x s result hlocal hrun =>
      refine .ran x s result.2 ?_ ?_ (finish_endpoint_other ..) (fun y seg hseg => mem_finish hseg) hok
      · rintro env seg peer rfl
        cases hlocal
      · rw [finish_endpoint_self]
        exact hrun
  | deliver x env index seg result hseg hrun =>
      refine .ran x (.input env seg (n.address x.other)) result.2 ?_ ?_
        (finish_endpoint_other ..) (fun y seg' hseg' => ?_) (hok seg hseg)
      · rintro env' seg' peer heq
        cases heq
        exact List.mem_of_getElem? hseg
      · rw [finish_endpoint_self]
        exact hrun
      · rcases mem_finish hseg' with hold | hnew
        · rcases mem_withInbox hold with hold | ⟨rfl, hold⟩
          · exact .inl hold
          · exact .inl (List.mem_of_mem_eraseIdx hold)
        · exact .inr hnew
  | duplicate x index seg hseg =>
      refine .still rfl fun y seg' hseg' => ?_
      rcases mem_withInbox hseg' with hold | ⟨rfl, hold⟩
      · exact hold
      · rcases List.mem_append.mp hold with hold | hnew
        · exact hold
        · rw [List.mem_singleton.mp hnew]
          exact List.mem_of_getElem? hseg
  | lose x index =>
      refine .still rfl fun y seg' hseg' => ?_
      rcases mem_withInbox hseg' with hold | ⟨rfl, hold⟩
      · exact hold
      · exact List.mem_of_mem_eraseIdx hold

theorem endpoint_everywhere {ok : Endpoint → Section → Prop} {n : Net}
    (h : ReachedBy network (Everywhere ok) n) (x : Side) :
    ReachedBy endpoints ok (n.endpoint x) := by
  have hboth : ∀ x, ReachedBy endpoints ok (n.endpoint x) := by
    apply h.invariant
    · rintro n ⟨ip, port, ip', port', hclient, hserver, -⟩ x
      cases x with
      | client =>
          rw [hclient]
          exact .init ⟨ip, port, .inl rfl⟩
      | server =>
          rw [hserver]
          exact .init ⟨ip', port', .inr rfl⟩
    · rintro n a n' - hreach hok hstep x
      cases Net.step_endpoints hstep hok with
      | ran y s log hinput hrun hother hflight hs =>
          rcases y.self_or_other x with rfl | rfl
          · exact .step (hreach x) hs ⟨log, hrun⟩
          · rw [hother]
            exact hreach _
      | still hsame hflight =>
          rw [hsame]
          exact hreach x
  exact hboth x

theorem endpoint_reachable {n : Net} (h : Reachable network n) (x : Side) :
    Reachable endpoints (n.endpoint x) :=
  endpoint_everywhere (h.mono fun n a _ => everywhere_true n a) x

/-- A client on port 10 and a listener on port 20. -/
def Net.start : Net where
  endpoint := fun
    | .client => .start (utcpBind utcpSocket 1 10)
    | .server => .start (utcpListen (utcpBind utcpSocket 2 20))
  inbox := fun _ => []
  address := fun _ => ⟨0, 0⟩

theorem Net.start_initial : Net.start.Initial := ⟨1, 10, 2, 20, rfl, rfl, rfl⟩

theorem reachable_runAll {n : Net} {actions : List Action}
    (h : runAll Net.step Net.start actions = some n) : Reachable network n :=
  .runAll (fun _ _ _ hstep => ⟨trivial, hstep⟩) actions (.init Net.start_initial) h

end Utcp.Network
