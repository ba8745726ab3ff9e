import Mathlib.Data.List.Infix
import Utcp.Library.TransitionSystem

/-!
A reliable stream in one direction: what a writer hands over arrives in order,
the writer learns how much of it has, and a reader takes it from the front.
-/

namespace Streams

open TransitionSystems

variable {α : Type*}

/-- What has been written and what of it read, how much has arrived, and how
much of that the writer knows of. -/
structure Stream (α : Type*) where
  written : List α
  received : ℕ
  acked : ℕ
  delivered : List α
deriving DecidableEq

inductive Op (α : Type*)
  | write (xs : List α)
  | receive (n : ℕ)
  | learn (n : ℕ)
  | read (n : ℕ)

/-- One operation: nothing arrives that was not written, nothing is learned that
did not arrive, and nothing is read before it arrived. -/
inductive StreamStep (s : Stream α) : Op α → Stream α → Prop
  | write (xs : List α) : StreamStep s (.write xs) { s with written := s.written ++ xs }
  | receive (n : ℕ) (hle : s.received ≤ n) (hn : n ≤ s.written.length) :
      StreamStep s (.receive n) { s with received := n }
  | learn (n : ℕ) (hle : s.acked ≤ n) (hn : n ≤ s.received) :
      StreamStep s (.learn n) { s with acked := n }
  | read (n : ℕ) (hle : s.delivered.length ≤ n) (hn : n ≤ s.received) :
      StreamStep s (.read n) { s with delivered := s.written.take n }

def streams (α : Type*) : TransitionSystem (Stream α) (Op α) where
  init s := s = ⟨[], 0, 0, []⟩
  step := StreamStep

/-- What a reliable stream guarantees. -/
structure Sound (s : Stream α) : Prop where
  acked : s.acked ≤ s.received
  received : s.received ≤ s.written.length
  delivered : s.delivered <+: s.written
  arrived : s.delivered.length ≤ s.received

/-- A later state of a stream. -/
structure Grown (s s' : Stream α) : Prop where
  written : s.written <+: s'.written
  received : s.received ≤ s'.received
  acked : s.acked ≤ s'.acked
  delivered : s.delivered.length ≤ s'.delivered.length

theorem streamStep_sound {s s' : Stream α} {op : Op α} (h : StreamStep s op s') (hs : Sound s) :
    Sound s' := by
  cases h with
  | write xs =>
      refine ⟨hs.acked, ?_, hs.delivered.trans (List.prefix_append _ _), hs.arrived⟩
      exact Nat.le_trans hs.received (List.prefix_append s.written xs).length_le
  | receive n hle hn =>
      exact ⟨Nat.le_trans hs.acked hle, hn, hs.delivered, Nat.le_trans hs.arrived hle⟩
  | learn n hle hn => exact ⟨hn, hs.received, hs.delivered, hs.arrived⟩
  | read n hle hn =>
      exact ⟨hs.acked, hs.received, List.take_prefix _ _, Nat.le_trans (List.length_take_le _ _) hn⟩

theorem sound {s : Stream α} (h : Reachable (streams α) s) : Sound s := by
  refine h.invariant (I := Sound) ?_ (fun s op s' _ hs _ hstep => streamStep_sound hstep hs)
  rintro s rfl
  exact ⟨Nat.le_refl _, Nat.le_refl _, List.prefix_rfl, Nat.le_refl _⟩

/-- The runs of a stream: what is sound is reached from what it has grown out of. -/
theorem steps_of_grown {s s' : Stream α} (h : Grown s s') (hs' : Sound s') :
    Steps (streams α) s s' := by
  obtain ⟨xs, hxs⟩ := h.written
  have hdelivered : s'.delivered = s'.written.take s'.delivered.length :=
    (List.prefix_iff_eq_take.mp hs'.delivered)
  have hwrite : Steps (streams α) s { s with written := s'.written } := by
    rw [← hxs]
    exact .single (.write xs)
  have hreceive : Steps (streams α) { s with written := s'.written }
      { s with written := s'.written, received := s'.received } :=
    .single (.receive s'.received h.received hs'.received)
  have hlearn : Steps (streams α) { s with written := s'.written, received := s'.received }
      { s' with delivered := s.delivered } :=
    .single (.learn s'.acked h.acked hs'.acked)
  have hread : Steps (streams α) { s' with delivered := s.delivered } s' := by
    have hstep : StreamStep { s' with delivered := s.delivered } (.read s'.delivered.length)
        { s' with delivered := s'.written.take s'.delivered.length } :=
      .read s'.delivered.length h.delivered hs'.arrived
    rw [← hdelivered] at hstep
    exact .single hstep
  exact hwrite.trans (hreceive.trans (hlearn.trans hread))

theorem Sound.drained {s : Stream α} (hs : Sound s) (h : s.acked = s.written.length) :
    s.received = s.written.length :=
  Nat.le_antisymm hs.received (h ▸ hs.acked)

end Streams
