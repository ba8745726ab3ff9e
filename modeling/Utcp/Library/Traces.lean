import Mathlib.Data.List.Basic

/-!
Traces: finite sequences of small steps, each of which leaves a list of events.
A piece of code that is too large to be looked at for every property is cut
once into a trace; a property of the steps is then one of the code.
-/

namespace Traces

variable {σ τ ε : Type*} {R R' : σ → List ε → σ → Prop}

inductive Trace (R : σ → List ε → σ → Prop) : σ → List ε → σ → Prop
  | nil (s : σ) : Trace R s [] s
  | cons {s s' s'' : σ} {log log' : List ε} (h : R s log s') (rest : Trace R s' log' s'') :
      Trace R s (log ++ log') s''

theorem Trace.single {s s' : σ} {log : List ε} (h : R s log s') : Trace R s log s' := by
  simpa using Trace.cons h (.nil s')

theorem Trace.append {s s' s'' : σ} {log log' : List ε} (h : Trace R s log s')
    (h' : Trace R s' log' s'') : Trace R s (log ++ log') s'' := by
  induction h with
  | nil s => exact h'
  | cons hstep _ ih =>
      rw [List.append_assoc]
      exact .cons hstep (ih h')

theorem Trace.silent {s s' s'' : σ} {log : List ε} (h : R s [] s') (rest : Trace R s' log s'') :
    Trace R s log s'' :=
  .cons h rest

theorem Trace.event {s s' s'' : σ} {event : ε} {log : List ε} (h : R s [event] s')
    (rest : Trace R s' log s'') : Trace R s (event :: log) s'' :=
  .cons h rest

theorem Trace.hush {s s' s'' : σ} {log : List ε} (h : Trace R s log s')
    (rest : Trace R s' [] s'') : Trace R s log s'' := by
  have happend := h.append rest
  rwa [List.append_nil] at happend

theorem Trace.mono (hR : ∀ s log s', R s log s' → R' s log s') {s s' : σ} {log : List ε}
    (h : Trace R s log s') : Trace R' s log s' := by
  induction h with
  | nil s => exact .nil s
  | cons hstep _ ih => exact .cons (hR _ _ _ hstep) ih

/-- What every step keeps, a trace keeps. -/
theorem Trace.invariant {I : σ → Prop} (hstep : ∀ s log s', R s log s' → I s → I s')
    {s s' : σ} {log : List ε} (h : Trace R s log s') (hs : I s) : I s' := by
  induction h with
  | nil s => exact hs
  | cons hR _ ih => exact ih (hstep _ _ _ hR hs)

/-- A bound that, once broken, stays broken held before the trace. -/
theorem Trace.back {small : σ → Prop} (hback : ∀ s log s', R s log s' → small s' → small s)
    {s s' : σ} {log : List ε} (h : Trace R s log s') (hsmall : small s') : small s := by
  induction h with
  | nil s => exact hsmall
  | cons hR _ ih => exact hback _ _ _ hR (ih hsmall)

theorem Trace.events {I : σ → Prop} {G : ε → Prop}
    (hstep : ∀ s log s', R s log s' → I s → I s' ∧ ∀ event ∈ log, G event)
    {s s' : σ} {log : List ε} (h : Trace R s log s') (hs : I s) :
    I s' ∧ ∀ event ∈ log, G event := by
  induction h with
  | nil s => exact ⟨hs, by simp⟩
  | cons hR _ ih =>
      obtain ⟨hs', hlog⟩ := hstep _ _ _ hR hs
      obtain ⟨hs'', hlog'⟩ := ih hs'
      refine ⟨hs'', fun event hevent => ?_⟩
      rcases List.mem_append.mp hevent with hevent | hevent
      · exact hlog event hevent
      · exact hlog' event hevent

theorem Trace.events_under {I small : σ → Prop} {G : ε → Prop}
    (hback : ∀ s log s', R s log s' → small s' → small s)
    (hstep : ∀ s log s', R s log s' → small s' → I s → I s' ∧ ∀ event ∈ log, G event)
    {s s' : σ} {log : List ε} (h : Trace R s log s') (hsmall : small s') (hs : I s) :
    I s' ∧ ∀ event ∈ log, G event := by
  induction h with
  | nil s => exact ⟨hs, by simp⟩
  | cons hR rest ih =>
      obtain ⟨hs', hlog⟩ := hstep _ _ _ hR (rest.back hback hsmall) hs
      obtain ⟨hs'', hlog'⟩ := ih hsmall hs'
      refine ⟨hs'', fun event hevent => ?_⟩
      rcases List.mem_append.mp hevent with hevent | hevent
      · exact hlog event hevent
      · exact hlog' event hevent

end Traces
