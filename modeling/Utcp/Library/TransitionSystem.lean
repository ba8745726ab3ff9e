import Mathlib.Logic.Relation

/-!
Labelled transition systems: the states reached along runs whose steps all meet
a condition, and the rules to prove invariants of them.
-/

namespace TransitionSystems

structure TransitionSystem (σ α : Type*) where
  init : σ → Prop
  step : σ → α → σ → Prop

variable {σ α : Type*} {M : TransitionSystem σ α} {ok ok' : σ → α → Prop}

/-- The states of the runs in which `ok` holds of every step: of the state
before it and its label. -/
inductive ReachedBy (M : TransitionSystem σ α) (ok : σ → α → Prop) : σ → Prop
  | init {s : σ} (h : M.init s) : ReachedBy M ok s
  | step {s s' : σ} {a : α} (h : ReachedBy M ok s) (hok : ok s a) (hs : M.step s a s') :
      ReachedBy M ok s'

/-- The reachable states: those of all runs. -/
abbrev Reachable (M : TransitionSystem σ α) : σ → Prop := ReachedBy M fun _ _ => True

theorem ReachedBy.mono (h : ∀ s a, ok s a → ok' s a) {s : σ} (hs : ReachedBy M ok s) :
    ReachedBy M ok' s := by
  induction hs with
  | init hi => exact .init hi
  | step _ hok hstep ih => exact .step ih (h _ _ hok) hstep

theorem ReachedBy.reachable {s : σ} (hs : ReachedBy M ok s) : Reachable M s :=
  hs.mono fun _ _ _ => trivial

/-- The rule of invariants. -/
theorem ReachedBy.invariant {I : σ → Prop} (hinit : ∀ s, M.init s → I s)
    (hstep : ∀ s a s', ReachedBy M ok s → I s → ok s a → M.step s a s' → I s')
    {s : σ} (hs : ReachedBy M ok s) : I s := by
  induction hs with
  | init hi => exact hinit _ hi
  | step hreach hok hs ih => exact hstep _ _ _ hreach ih hok hs

/-- Invariants under a bound that, once broken, stays broken. -/
theorem ReachedBy.invariant_under {I small : σ → Prop} (hinit : ∀ s, M.init s → I s)
    (hback : ∀ s a s', M.step s a s' → small s' → small s)
    (hstep : ∀ s a s', ReachedBy M ok s → I s → ok s a → small s' → M.step s a s' → I s')
    {s : σ} (hs : ReachedBy M ok s) : small s → I s := by
  induction hs with
  | init hi => exact fun _ => hinit _ hi
  | step hreach hok hs ih =>
      intro hsmall
      exact hstep _ _ _ hreach (ih (hback _ _ _ hs hsmall)) hok hsmall hs

/-- Some steps, or none. -/
def Steps (M : TransitionSystem σ α) : σ → σ → Prop :=
  Relation.ReflTransGen fun s s' => ∃ a, M.step s a s'

theorem Steps.single {s s' : σ} {a : α} (h : M.step s a s') : Steps M s s' :=
  Relation.ReflTransGen.single ⟨a, h⟩

theorem Steps.trans {s s' s'' : σ} (h : Steps M s s') (h' : Steps M s' s'') : Steps M s s'' :=
  Relation.ReflTransGen.trans h h'

theorem Steps.reachable {s s' : σ} (h : Steps M s s') (hs : Reachable M s) : Reachable M s' := by
  induction h with
  | refl => exact hs
  | tail _ hstep ih =>
      obtain ⟨a, hstep⟩ := hstep
      exact .step ih trivial hstep

/-- The rule of refinement: where every step of a system, seen through `view`, is
some steps of another, each state it reaches is seen as one the other reaches. -/
theorem ReachedBy.refines {τ β : Type*} {N : TransitionSystem τ β} {view : σ → τ} {small : σ → Prop}
    (hinit : ∀ s, M.init s → N.init (view s)) (hback : ∀ s a s', M.step s a s' → small s' → small s)
    (hstep : ∀ s a s', ReachedBy M ok s → ok s a → small s' → M.step s a s' →
      Steps N (view s) (view s'))
    {s : σ} (hs : ReachedBy M ok s) : small s → Reachable N (view s) := by
  refine hs.invariant_under (I := fun s => Reachable N (view s))
    (fun s hi => .init (hinit s hi)) hback ?_
  exact fun s a s' hreach hseen hok hsmall hM => (hstep s a s' hreach hok hsmall hM).reachable hseen

/-- Execute labels one after the other. -/
def runAll (next : σ → α → Option σ) : σ → List α → Option σ
  | s, [] => some s
  | s, a :: labels => (next s a).bind fun s => runAll next s labels

theorem runAll_append (next : σ → α → Option σ) (labels labels' : List α) :
    ∀ s, runAll next s (labels ++ labels') =
      (runAll next s labels).bind fun s => runAll next s labels' := by
  induction labels with
  | nil => exact fun s => rfl
  | cons a labels ih =>
      intro s
      rw [List.cons_append, runAll, runAll, Option.bind_assoc]
      exact congrArg _ (funext ih)

/-- A system whose steps a function computes reaches what the function does. -/
theorem ReachedBy.runListed {next : σ → α → Option σ} (labels : List α) :
    ∀ {s s' : σ}, (∀ a ∈ labels, ∀ s s', next s a = some s' → ok s a ∧ M.step s a s') →
      ReachedBy M ok s → runAll next s labels = some s' → ReachedBy M ok s' := by
  induction labels with
  | nil =>
      intro s s' _ hs hrun
      cases hrun
      exact hs
  | cons a labels ih =>
      intro s s' hnext hs hrun
      obtain ⟨mid, hmid, hrest⟩ := Option.bind_eq_some_iff.mp hrun
      obtain ⟨hok, hstep⟩ := hnext a List.mem_cons_self s mid hmid
      exact ih (fun b hb => hnext b (List.mem_cons_of_mem _ hb)) (.step hs hok hstep) hrest

theorem ReachedBy.runAll {next : σ → α → Option σ}
    (hnext : ∀ s a s', next s a = some s' → ok s a ∧ M.step s a s') (labels : List α) {s s' : σ}
    (hs : ReachedBy M ok s) (hrun : runAll next s labels = some s') : ReachedBy M ok s' :=
  .runListed labels (fun a _ s s' h => hnext s a s' h) hs hrun

theorem ReachedBy.runAllowed {next : σ → α → Option σ}
    (hnext : ∀ s a s', next s a = some s' → M.step s a s') (labels : List α) {s s' : σ}
    (hok : ∀ a ∈ labels, ∀ s, ok s a) (hs : ReachedBy M ok s)
    (hrun : TransitionSystems.runAll next s labels = some s') : ReachedBy M ok s' :=
  .runListed labels (fun a ha s s' h => ⟨hok a ha s, hnext s a s' h⟩) hs hrun

/-- Execute labels, each only where a condition that can be computed holds. -/
def guarded (guard : σ → α → Prop) [∀ s a, Decidable (guard s a)] (next : σ → α → Option σ)
    (s : σ) (a : α) : Option σ :=
  if guard s a then next s a else none

/-- A guarded run takes only steps that meet what the guard implies. -/
theorem ReachedBy.runGuarded {next : σ → α → Option σ} {guard : σ → α → Prop}
    [∀ s a, Decidable (guard s a)] (hguard : ∀ s a, guard s a → ok s a)
    (hnext : ∀ s a s', next s a = some s' → M.step s a s') (labels : List α) {s s' : σ}
    (hs : ReachedBy M ok s) (hrun : TransitionSystems.runAll (guarded guard next) s labels = some s') :
    ReachedBy M ok s' := by
  refine .runAll ?_ labels hs hrun
  intro s a s' h
  unfold guarded at h
  split at h
  · rename_i hholds
    exact ⟨hguard s a hholds, hnext s a s' h⟩
  · cases h

end TransitionSystems
