import Mathlib.Data.List.Pairwise
import Mathlib.Data.List.TakeWhile
import Mathlib.Data.Set.Basic

/-!
Queues of ranges of natural numbers, whatever else their entries carry. An
entry `e` stands for the numbers from `start e` up to but not including
`stop e`; `cut c e` is what is left of it from `c` on.
-/

namespace Ranges

variable {ι : Type*} {start stop : ι → ℕ} {cut : ℕ → ι → ι} {queue : List ι} {new e : ι} {c x : ℕ}

/-- Sorted and disjoint. -/
def Ascending (start stop : ι → ℕ) (queue : List ι) : Prop :=
  queue.Pairwise fun e e' => stop e ≤ start e'

/-- The numbers in the ranges of a queue. -/
def Covered (start stop : ι → ℕ) (queue : List ι) : Set ℕ :=
  {x | ∃ e ∈ queue, start e ≤ x ∧ x < stop e}

/-- The entry begins before `c` and ends behind it. -/
def Straddles (start stop : ι → ℕ) (c : ℕ) (e : ι) : Prop := start e < c ∧ c < stop e

/-- Forget what lies below `c`, up to the first entry that does not. -/
def absorb (start stop : ι → ℕ) (cut : ℕ → ι → ι) (c : ℕ) : List ι → List ι
  | [] => []
  | e :: queue =>
      if start e < c then
        if stop e ≤ c then absorb start stop cut c queue else cut c e :: queue
      else e :: queue

/-- The entries that end at or before a new one. -/
def before (start stop : ι → ℕ) (new : ι) (queue : List ι) : List ι :=
  queue.takeWhile fun e => stop e ≤ start new

/-- The others. -/
def behind (start stop : ι → ℕ) (new : ι) (queue : List ι) : List ι :=
  queue.dropWhile fun e => stop e ≤ start new

/-- Put a new entry where it belongs, at the cost of those it overlaps. -/
def insert (start stop : ι → ℕ) (cut : ℕ → ι → ι) (new : ι) (queue : List ι) : List ι :=
  before start stop new queue ++
    new :: absorb start stop cut (stop new) (behind start stop new queue)

theorem before_append_behind (start stop : ι → ℕ) (new : ι) (queue : List ι) :
    before start stop new queue ++ behind start stop new queue = queue :=
  List.takeWhile_append_dropWhile

theorem stop_le_of_mem_before (h : e ∈ before start stop new queue) : stop e ≤ start new := by
  have hmem := List.mem_takeWhile_imp h
  simpa using hmem

theorem Ascending.tail (h : Ascending start stop (e :: queue)) : Ascending start stop queue :=
  List.Pairwise.of_cons h

theorem Ascending.behind (h : Ascending start stop queue) (new : ι) :
    Ascending start stop (behind start stop new queue) :=
  List.Pairwise.sublist (List.dropWhile_sublist _) h

theorem Ascending.before (h : Ascending start stop queue) (new : ι) :
    Ascending start stop (before start stop new queue) :=
  List.Pairwise.sublist (List.takeWhile_sublist _) h

theorem start_lt_stop_of_mem_behind (hle : ∀ e ∈ queue, start e ≤ stop e)
    (h : Ascending start stop queue) (hmem : e ∈ behind start stop new queue) :
    start new < stop e := by
  have hsub : (Ranges.behind start stop new queue).Sublist queue := List.dropWhile_sublist _
  have hasc := h.behind new
  rcases hqueue : Ranges.behind start stop new queue with _ | ⟨first, rest⟩
  · rw [hqueue] at hmem
    cases hmem
  · have hfirst : ¬ stop first ≤ start new := by
      have hne : Ranges.behind start stop new queue ≠ [] := by simp [hqueue]
      have hhead := List.head_dropWhile_not (fun e => decide (stop e ≤ start new)) hne
      have heq : (Ranges.behind start stop new queue).head hne = first := by simp [hqueue]
      unfold Ranges.behind at heq
      rw [heq] at hhead
      simpa using hhead
    have hle' := hle e (hsub.subset hmem)
    rw [hqueue] at hmem hasc
    rcases List.mem_cons.mp hmem with rfl | hrest
    · omega
    · have hnext := List.rel_of_pairwise_cons hasc hrest
      omega

/-- What `cut` has to do to an entry that ends behind `c`. -/
structure Cuts (start stop : ι → ℕ) (cut : ℕ → ι → ι) (queue : List ι) : Prop where
  start_cut : ∀ c, ∀ e ∈ queue, Straddles start stop c e → start (cut c e) = c
  stop_cut : ∀ c, ∀ e ∈ queue, Straddles start stop c e → stop (cut c e) = stop e

theorem Cuts.subset {queue' : List ι} (h : Cuts start stop cut queue) (hsub : queue' ⊆ queue) :
    Cuts start stop cut queue' :=
  ⟨fun c e hmem => h.start_cut c e (hsub hmem), fun c e hmem => h.stop_cut c e (hsub hmem)⟩

theorem mem_absorb (h : e ∈ absorb start stop cut c queue) :
    e ∈ queue ∨ ∃ e' ∈ queue, Straddles start stop c e' ∧ e = cut c e' := by
  induction queue with
  | nil => exact .inl h
  | cons first rest ih =>
      unfold absorb at h
      split at h
      · rename_i hstart
        split at h
        · rcases ih h with hmem | ⟨e', hmem, hcut⟩
          · exact .inl (List.mem_cons_of_mem _ hmem)
          · exact .inr ⟨e', List.mem_cons_of_mem _ hmem, hcut⟩
        · rename_i hstop
          rcases List.mem_cons.mp h with heq | hmem
          · exact .inr ⟨first, List.mem_cons_self, ⟨hstart, Nat.lt_of_not_le hstop⟩, heq⟩
          · exact .inl (List.mem_cons_of_mem _ hmem)
      · exact .inl h

theorem le_start_of_mem_absorb (hcut : Cuts start stop cut queue) (hle : ∀ e ∈ queue, start e ≤ stop e)
    (h : Ascending start stop queue) (hmem : e ∈ absorb start stop cut c queue) : c ≤ start e := by
  induction queue with
  | nil => cases hmem
  | cons first rest ih =>
      have hfirst := hle first List.mem_cons_self
      have hbehind : ∀ e' ∈ rest, stop first ≤ start e' :=
        fun e' hmem' => List.rel_of_pairwise_cons h hmem'
      unfold absorb at hmem
      split at hmem
      · rename_i hstart
        split at hmem
        · exact ih (hcut.subset (List.subset_cons_self _ _))
            (fun e' hmem' => hle e' (List.mem_cons_of_mem _ hmem')) h.tail hmem
        · rename_i hstop
          rcases List.mem_cons.mp hmem with rfl | hmem
          · rw [hcut.start_cut c first List.mem_cons_self ⟨hstart, Nat.lt_of_not_le hstop⟩]
          · have hnext := hbehind e hmem
            omega
      · rename_i hstart
        rcases List.mem_cons.mp hmem with rfl | hmem
        · omega
        · have hnext := hbehind e hmem
          omega

theorem Ascending.absorb (hcut : Cuts start stop cut queue) (h : Ascending start stop queue) (c : ℕ) :
    Ascending start stop (absorb start stop cut c queue) := by
  induction queue with
  | nil => exact h
  | cons first rest ih =>
      unfold Ranges.absorb
      split
      · rename_i hstart
        split
        · exact ih (hcut.subset (List.subset_cons_self _ _)) h.tail
        · rename_i hstop
          refine List.Pairwise.cons ?_ h.tail
          intro e hmem
          rw [hcut.stop_cut c first List.mem_cons_self ⟨hstart, Nat.lt_of_not_le hstop⟩]
          exact List.rel_of_pairwise_cons h hmem
      · exact h

theorem covered_absorb (hcut : Cuts start stop cut queue) (hle : ∀ e ∈ queue, start e ≤ stop e)
    (h : Ascending start stop queue) :
    x ∈ Covered start stop (absorb start stop cut c queue) ↔
      x ∈ Covered start stop queue ∧ c ≤ x := by
  constructor
  · rintro ⟨e, hmem, hstart, hstop⟩
    have hc := le_start_of_mem_absorb hcut hle h hmem
    refine ⟨?_, by omega⟩
    rcases mem_absorb hmem with hold | ⟨e', hold, hstraddles, rfl⟩
    · exact ⟨e, hold, hstart, hstop⟩
    · rw [hcut.start_cut c e' hold hstraddles] at hstart
      rw [hcut.stop_cut c e' hold hstraddles] at hstop
      exact ⟨e', hold, by have := hstraddles.1; omega, hstop⟩
  · rintro ⟨⟨e, hmem, hstart, hstop⟩, hc⟩
    induction queue with
    | nil => cases hmem
    | cons first rest ih =>
        unfold Ranges.absorb
        split
        · rename_i hfirst
          split
          · rename_i hend
            rcases List.mem_cons.mp hmem with rfl | hmem
            · omega
            · exact ih (hcut.subset (List.subset_cons_self _ _))
                (fun e' hmem' => hle e' (List.mem_cons_of_mem _ hmem')) h.tail hmem
          · rename_i hend
            rcases List.mem_cons.mp hmem with rfl | hmem
            · have hstraddles : Straddles start stop c e := ⟨hfirst, Nat.lt_of_not_le hend⟩
              refine ⟨cut c e, List.mem_cons_self, ?_, ?_⟩
              · rw [hcut.start_cut c e List.mem_cons_self hstraddles]
                exact hc
              · rw [hcut.stop_cut c e List.mem_cons_self hstraddles]
                exact hstop
            · exact ⟨e, List.mem_cons_of_mem _ hmem, hstart, hstop⟩
        · exact ⟨e, hmem, hstart, hstop⟩

theorem Ascending.insert (hcut : Cuts start stop cut queue) (hle : ∀ e ∈ queue, start e ≤ stop e)
    (hnew : start new ≤ stop new) (h : Ascending start stop queue) :
    Ascending start stop (insert start stop cut new queue) := by
  have hsub : Ranges.behind start stop new queue ⊆ queue := (List.dropWhile_sublist _).subset
  have hcut' := hcut.subset hsub
  have hle' : ∀ e ∈ Ranges.behind start stop new queue, start e ≤ stop e :=
    fun e hmem => hle e (hsub hmem)
  refine List.pairwise_append.mpr ⟨h.before new, ?_, ?_⟩
  · refine List.Pairwise.cons ?_ ((h.behind new).absorb hcut' _)
    intro e hmem
    exact le_start_of_mem_absorb hcut' hle' (h.behind new) hmem
  · intro e hmem e' hmem'
    have hbefore := stop_le_of_mem_before hmem
    rcases List.mem_cons.mp hmem' with rfl | hmem'
    · exact hbefore
    · have hbehind := le_start_of_mem_absorb hcut' hle' (h.behind new) hmem'
      omega

theorem mem_insert (h : e ∈ insert start stop cut new queue) :
    e ∈ queue ∨ e = new ∨ ∃ e' ∈ queue, Straddles start stop (stop new) e' ∧ e = cut (stop new) e' := by
  rcases List.mem_append.mp h with hmem | hmem
  · exact .inl ((List.takeWhile_sublist _).subset hmem)
  · rcases List.mem_cons.mp hmem with heq | hmem
    · exact .inr (.inl heq)
    · have hsub : behind start stop new queue ⊆ queue := (List.dropWhile_sublist _).subset
      rcases mem_absorb hmem with hold | ⟨e', hold, hcut⟩
      · exact .inl (hsub hold)
      · exact .inr (.inr ⟨e', hsub hold, hcut⟩)

/-- A number outside the new range survives unless it is in the part of an
entry before the start of the new one. -/
theorem covered_insert (hcut : Cuts start stop cut queue) (hle : ∀ e ∈ queue, start e ≤ stop e)
    (h : Ascending start stop queue) :
    x ∈ Covered start stop (insert start stop cut new queue) ↔
      (start new ≤ x ∧ x < stop new) ∨
        (∃ e ∈ queue, start e ≤ x ∧ x < stop e ∧ (stop e ≤ start new ∨ stop new ≤ x)) := by
  have hsplit := before_append_behind start stop new queue
  have hsub : Ranges.behind start stop new queue ⊆ queue := (List.dropWhile_sublist _).subset
  have hcut' := hcut.subset hsub
  have hle' : ∀ e ∈ Ranges.behind start stop new queue, start e ≤ stop e :=
    fun e hmem => hle e (hsub hmem)
  constructor
  · rintro ⟨e, hmem, hstart, hstop⟩
    rcases List.mem_append.mp hmem with hmem | hmem
    · have hbefore := stop_le_of_mem_before hmem
      exact .inr ⟨e, (List.takeWhile_sublist _).subset hmem, hstart, hstop, .inl hbefore⟩
    · rcases List.mem_cons.mp hmem with rfl | hmem
      · exact .inl ⟨hstart, hstop⟩
      · obtain ⟨⟨e', hmem', hstart', hstop'⟩, hc⟩ :=
          (covered_absorb hcut' hle' (h.behind new)).mp ⟨e, hmem, hstart, hstop⟩
        exact .inr ⟨e', (List.dropWhile_sublist _).subset hmem', hstart', hstop', .inr hc⟩
  · rintro (⟨hstart, hstop⟩ | ⟨e, hmem, hstart, hstop, hside⟩)
    · exact ⟨new, by simp [Ranges.insert], hstart, hstop⟩
    · rw [← hsplit] at hmem
      rcases List.mem_append.mp hmem with hmem | hmem
      · exact ⟨e, List.mem_append_left _ hmem, hstart, hstop⟩
      · rcases hside with hside | hside
        · have hbehind := start_lt_stop_of_mem_behind hle h hmem
          omega
        · obtain ⟨e', hmem', hstart', hstop'⟩ :=
            (covered_absorb hcut' hle' (h.behind new)).mpr ⟨⟨e, hmem, hstart, hstop⟩, hside⟩
          exact ⟨e', List.mem_append_right _ (List.mem_cons_of_mem _ hmem'), hstart', hstop'⟩

theorem Ascending.unique (h : Ascending start stop queue) {e' : ι} (hmem : e ∈ queue)
    (hmem' : e' ∈ queue) (hx : start e ≤ x ∧ x < stop e) (hx' : start e' ≤ x ∧ x < stop e') :
    e = e' := by
  by_contra hne
  have hpair : queue.Pairwise fun a b => stop a ≤ start b ∨ stop b ≤ start a :=
    h.imp fun hab => .inl hab
  have : Std.Symm fun a b => stop a ≤ start b ∨ stop b ≤ start a := ⟨fun _ _ => Or.symm⟩
  rcases hpair.forall hmem hmem' hne with hab | hba
  · omega
  · omega

/-- Nothing is lost exactly when no entry crosses the start of the new one. -/
theorem covered_insert_iff (hcut : Cuts start stop cut queue) (hle : ∀ e ∈ queue, start e ≤ stop e)
    (h : Ascending start stop queue) (hnew : start new ≤ stop new) :
    (∀ x, x ∈ Covered start stop (insert start stop cut new queue) ↔
      x ∈ Covered start stop queue ∨ (start new ≤ x ∧ x < stop new)) ↔
        ∀ e ∈ queue, ¬ Straddles start stop (start new) e := by
  constructor
  · rintro hall e hmem ⟨hstart, hstop⟩
    have hx : start e ∈ Covered start stop queue := ⟨e, hmem, Nat.le_refl _, by omega⟩
    rcases (covered_insert hcut hle h).mp ((hall (start e)).mpr (.inl hx)) with
      hin | ⟨e', hmem', hstart', hstop', hside⟩
    · omega
    · obtain rfl : e = e' :=
        h.unique hmem hmem' ⟨Nat.le_refl _, by omega⟩ ⟨hstart', hstop'⟩
      omega
  · intro hnone x
    rw [covered_insert hcut hle h]
    constructor
    · rintro (hin | ⟨e, hmem, hstart, hstop, -⟩)
      · exact .inr hin
      · exact .inl ⟨e, hmem, hstart, hstop⟩
    · rintro (⟨e, hmem, hstart, hstop⟩ | hin)
      · by_cases hin : start new ≤ x ∧ x < stop new
        · exact .inl hin
        · refine .inr ⟨e, hmem, hstart, hstop, ?_⟩
          by_contra hside
          exact hnone e hmem ⟨by omega, by omega⟩
      · exact .inl hin

end Ranges
