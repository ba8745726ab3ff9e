import Mathlib.Data.List.Induction
import Utcp.LstmServer
import Utcp.Library.TransitionSystem

/-!
`cc/lstm_client.c` and `lstm_server.py`: the server answers every row with one
byte over a socket that keeps their order; the client drains what has arrived
when it sends a row, and congestion control looks at a flag.
-/

namespace Utcp.Inference

open TransitionSystems
open Utcp.Tcp
open Utcp.LstmServer

variable {fl : Floats} {cfg : Cfg} {cooldownLen : Nat} {threshold : ℚ}

/-- A byte on its way to the client; `fired` marks the one that announces a
decision of the model. -/
structure Reply where
  byte : U8
  fired : Bool
deriving DecidableEq

/-- The loop of `recv` in `lstm_client_send_row`. -/
def drain (gFired : Bool) (batch : List Reply) : Bool :=
  batch.foldl (fun _ r => r.byte != 0) gFired

/-- Both processes and the socket between them. `fresh` are the replies drained
since the last call of congestion control; `drains` and `calls` record what each
drain and each call found. -/
structure System where
  server : Conn
  replies : List Reply
  gFired : Bool
  fresh : List Reply
  drains : List (List Reply × Bool)
  calls : List (List Reply × Bool)

inductive Action
  /-- the server handles a line, `none` where `parse_row` rejects it; `p` is what the
  model would return -/
  | row (line : Option Row) (p : ℚ)
  /-- ten seconds without a row -/
  | timeout
  /-- `lstm_client_send_row` finds `n` replies in the socket -/
  | sendRow (n : Nat)
  /-- congestion control calls `lstm_client_fired` -/
  | congControl

def System.new (cfg : Cfg) : System := ⟨.new cfg, [], false, [], [], []⟩

def System.next (fl : Floats) (cfg : Cfg) (cooldownLen : Nat) (threshold : ℚ) (s : System) :
    Action → System
  | .row none _ => s
  | .row (some vals) p =>
      let h := s.server.handleRow fl cfg cooldownLen threshold vals p
      { s with server := h.conn, replies := s.replies ++ [⟨h.byte, h.inferred = some true⟩] }
  | .timeout => { s with replies := s.replies ++ [⟨s.server.lastByte, false⟩] }
  | .sendRow n =>
      let batch := s.replies.take n
      let gFired := drain s.gFired batch
      { s with
        replies := s.replies.drop n
        gFired
        fresh := s.fresh ++ batch
        drains := s.drains ++ [(batch, gFired)] }
  | .congControl => { s with fresh := [], calls := s.calls ++ [(s.fresh, s.gFired)] }

/-- The two processes, in every order of their steps. -/
def inference (fl : Floats) (cfg : Cfg) (cooldownLen : Nat) (threshold : ℚ) :
    TransitionSystem System Action where
  init s := s = .new cfg
  step s a s' := s' = s.next fl cfg cooldownLen threshold a

/-- Every batch with a one in it leaves the flag set, and the first call of
congestion control after a decision was drained sees it. -/
structure NoSignalLost (s : System) : Prop where
  kept : ∀ d ∈ s.drains, (∃ r ∈ d.1, r.byte = 1) → d.2 = true
  observed : ∀ c ∈ s.calls, (∃ r ∈ c.1, r.fired = true) → c.2 = true

/-- The last of some replies is not a zero. -/
def EndsSet (batch : List Reply) : Prop := ∃ r, batch.getLast? = some r ∧ r.byte ≠ 0

/-- Batches with a one in them end with one, and so do the replies drained
between two calls when a decision is among them. -/
structure WellBatched (s : System) : Prop where
  drains : ∀ d ∈ s.drains, (∃ r ∈ d.1, r.byte = 1) → EndsSet d.1
  calls : ∀ c ∈ s.calls, (∃ r ∈ c.1, r.fired = true) → EndsSet c.1

theorem drain_append (gFired : Bool) (batch : List Reply) (r : Reply) :
    drain gFired (batch ++ [r]) = (r.byte != 0) := by
  rw [drain, List.foldl_append]
  rfl

theorem drain_iff {gFired : Bool} {batch : List Reply} (h : batch ≠ []) :
    drain gFired batch = true ↔ EndsSet batch := by
  obtain ⟨front, r, rfl⟩ := List.eq_nil_or_concat batch |>.resolve_left h
  rw [List.concat_eq_append, drain_append, EndsSet, List.getLast?_append]
  simp

theorem drain_drain (gFired : Bool) (batch batch' : List Reply) :
    drain (drain gFired batch) batch' = drain gFired (batch ++ batch') := by
  rw [drain, drain, drain, List.foldl_append]

/-- What the records say about the flag. -/
structure Recorded (s : System) : Prop where
  flag : ∃ before, s.gFired = drain before s.fresh
  drains : ∀ d ∈ s.drains, ∃ before, d.2 = drain before d.1
  calls : ∀ c ∈ s.calls, ∃ before, c.2 = drain before c.1

theorem recorded_next {s : System} (a : Action) (h : Recorded s) :
    Recorded (s.next fl cfg cooldownLen threshold a) := by
  cases a with
  | row line p => cases line <;> exact ⟨h.flag, h.drains, h.calls⟩
  | timeout => exact ⟨h.flag, h.drains, h.calls⟩
  | sendRow n =>
      refine ⟨?_, ?_, h.calls⟩
      · obtain ⟨before, hflag⟩ := h.flag
        refine ⟨before, ?_⟩
        change drain s.gFired (s.replies.take n) = drain before (s.fresh ++ s.replies.take n)
        rw [hflag, drain_drain]
      · intro d hd
        rcases List.mem_append.mp hd with hd | hd
        · exact h.drains d hd
        · rw [List.mem_singleton.mp hd]
          exact ⟨s.gFired, rfl⟩
  | congControl =>
      refine ⟨⟨s.gFired, rfl⟩, h.drains, ?_⟩
      intro c hc
      rcases List.mem_append.mp hc with hc | hc
      · exact h.calls c hc
      · rw [List.mem_singleton.mp hc]
        exact h.flag

theorem recorded {s : System} (h : Reachable (inference fl cfg cooldownLen threshold) s) :
    Recorded s := by
  refine h.invariant ?_ ?_
  · rintro s rfl
    exact ⟨⟨false, rfl⟩, by simp [System.new], by simp [System.new]⟩
  · rintro s a s' - hs - rfl
    exact recorded_next a hs

/-- No signal is lost in a run exactly when the replies happen to be batched so
that every one that matters comes last. -/
theorem noSignalLost_iff {s : System}
    (h : Reachable (inference fl cfg cooldownLen threshold) s) :
    NoSignalLost s ↔ WellBatched s := by
  have hrecorded := recorded h
  have hlast : ∀ (batch : List Reply) (flag : Bool), (∃ before, flag = drain before batch) →
      ∀ P : Reply → Prop, (∃ r ∈ batch, P r) → (flag = true ↔ EndsSet batch) := by
    rintro batch flag ⟨before, rfl⟩ P ⟨r, hr, -⟩
    exact drain_iff (List.ne_nil_of_mem hr)
  constructor
  · rintro ⟨hkept, hobserved⟩
    constructor
    · intro d hd hone
      exact (hlast d.1 d.2 (hrecorded.drains d hd) _ hone).mp (hkept d hd hone)
    · intro c hc hfired
      exact (hlast c.1 c.2 (hrecorded.calls c hc) _ hfired).mp (hobserved c hc hfired)
  · rintro ⟨hdrains, hcalls⟩
    constructor
    · intro d hd hone
      exact (hlast d.1 d.2 (hrecorded.drains d hd) _ hone).mpr (hdrains d hd hone)
    · intro c hc hfired
      exact (hlast c.1 c.2 (hrecorded.calls c hc) _ hfired).mpr (hcalls c hc hfired)

/-- A row of which all is zero but the time. -/
def rowAt (bin : Nat) (cfg : Cfg) : Row :=
  fun key => if key = .timestampUs then bin * cfg.widthUs else 0

/-- A connection of the client to a server in some mode, without rounding. -/
def running (mode : Mode) : List Action → System :=
  List.foldl (System.next ⟨id, id⟩ mode.cfg mode.cooldownLen 1) (.new mode.cfg)

theorem running_reachable (mode : Mode) (actions : List Action) :
    Reachable (inference ⟨id, id⟩ mode.cfg mode.cooldownLen 1) (running mode actions) := by
  induction actions using List.reverseRecOn with
  | nil => exact .init rfl
  | append_singleton actions a ih =>
      refine ih.step trivial (a := a) ?_
      rw [running, List.foldl_append]
      rfl

/-- Two rows with a gap of more than a window between them, and a prediction. -/
def firing (mode : Mode) : List Action :=
  [.row (some (rowAt 0 mode.cfg)) 0, .row (some (rowAt (mode.cfg.seqLen + 1) mode.cfg)) 1]

/-- Drained at once, the decision is seen. -/
theorem noSignalLost_drained :
    NoSignalLost (running .lstm3m (firing .lstm3m ++ [.sendRow 2, .congControl])) := by
  have hdrains : (running .lstm3m (firing .lstm3m ++ [.sendRow 2, .congControl])).drains =
      [([⟨0, false⟩, ⟨1, true⟩], true)] := by
    decide +kernel
  have hcalls : (running .lstm3m (firing .lstm3m ++ [.sendRow 2, .congControl])).calls =
      [([⟨0, false⟩, ⟨1, true⟩], true)] := by
    decide +kernel
  refine (noSignalLost_iff (running_reachable .lstm3m _)).mpr ⟨?_, ?_⟩
  · intro d hd _
    rw [hdrains, List.mem_singleton] at hd
    rw [hd]
    exact ⟨⟨1, true⟩, rfl, by decide⟩
  · intro c hc _
    rw [hcalls, List.mem_singleton] at hc
    rw [hc]
    exact ⟨⟨1, true⟩, rfl, by decide⟩

/-- A row of the next bin gets a zero for an answer; drained together with the one,
it hides it. -/
theorem running_hides (mode : Mode) :
    ¬ ∀ s : System, Reachable (inference ⟨id, id⟩ mode.cfg mode.cooldownLen 1) s →
      NoSignalLost s := by
  intro h
  let hidden : List Action :=
    firing mode ++ [.row (some (rowAt (mode.cfg.seqLen + 2) mode.cfg)) 1, .sendRow 3]
  have hkept := (h (running mode hidden) (running_reachable mode hidden)).kept
  have hdrains : (running mode hidden).drains =
      [([⟨0, false⟩, ⟨1, true⟩, ⟨0, false⟩], false)] := by
    cases mode <;> decide +kernel
  rw [hdrains] at hkept
  have hfired := hkept _ List.mem_cons_self ⟨⟨1, true⟩, by simp, rfl⟩
  exact Bool.false_ne_true hfired

theorem noSignalLost_fails :
    (¬ ∀ s : System, Reachable (inference ⟨id, id⟩ Mode.stateless.cfg Mode.stateless.cooldownLen 1) s →
      NoSignalLost s) ∧
    ¬ ∀ s : System, Reachable (inference ⟨id, id⟩ Mode.lstm3m.cfg Mode.lstm3m.cooldownLen 1) s →
      NoSignalLost s :=
  ⟨running_hides .stateless, running_hides .lstm3m⟩

end Utcp.Inference
