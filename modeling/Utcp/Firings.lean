import Utcp.Windows

/-!
When `serve` fires: over any rows and any outputs of the model, with the
completed bins read off the log of all bins.
-/

namespace Utcp.LstmServer

variable {fl : Floats} {cfg : Cfg} {cooldownLen : Nat} {threshold : ℚ}

/-- The loop of `serve` over the rows of a connection, each with the output of
the model for it. -/
def serve (fl : Floats) (cfg : Cfg) (cooldownLen : Nat) (threshold : ℚ)
    (rows : List (Row × ℚ)) : Conn × List Handled :=
  rows.foldl (fun (s, handled) (vals, p) =>
    let h := s.handleRow fl cfg cooldownLen threshold vals p
    (h.conn, handled ++ [h])) (.new cfg, [])

theorem serve_snoc (rows : List (Row × ℚ)) (r : Row × ℚ) :
    serve fl cfg cooldownLen threshold (rows ++ [r]) =
      let (s, handled) := serve fl cfg cooldownLen threshold rows
      let h := s.handleRow fl cfg cooldownLen threshold r.1 r.2
      (h.conn, handled ++ [h]) := by
  rw [serve, serve, List.foldl_append, List.foldl_cons, List.foldl_nil]

/-- The bins completed by some rows. -/
def completed (fl : Floats) (cfg : Cfg) (rows : List (Row × ℚ)) : List Bin :=
  (binLog fl cfg (rows.map Prod.fst)).closed

def Handled.fired (h : Handled) : Bool := h.inferred = some true

/-- The rows at which the model fired. -/
def firings (handled : List Handled) : List Handled := handled.filter Handled.fired

/-- The outcome of the last inference. -/
def lastInference (handled : List Handled) : Option Bool :=
  (handled.filterMap Handled.inferred).getLast?

/-- What a row can do besides pushing its values. -/
inductive Outcome (cfg : Cfg) (cooldownLen : Nat) (s : Conn) (added : Nat) (h : Handled) : Prop
  /-- no bin completed, or too few so far -/
  | skipped (inferred : h.inferred = none) (cooldown : h.conn.cooldown = s.cooldown)
      (lastByte : h.conn.lastByte = s.lastByte)
  | silent (inferred : h.inferred = some false)
      (cooldown : h.conn.cooldown = s.cooldown - added) (lastByte : h.conn.lastByte = 0)
  | fired (inferred : h.inferred = some true) (added : 0 < added)
      (ready : h.conn.agg.ready cfg) (calm : h.conn.agg.windowHasCongestion cfg = false)
      (cooled : s.cooldown = 0) (cooldown : h.conn.cooldown = cooldownLen)
      (lastByte : h.conn.lastByte = 1)

structure Handles (fl : Floats) (cfg : Cfg) (cooldownLen : Nat) (s : Conn) (vals : Row)
    (h : Handled) : Prop where
  agg : h.conn.agg = (s.agg.push fl cfg vals).1
  binsTotal : h.conn.binsTotal = s.binsTotal + (s.agg.push fl cfg vals).2
  byte : h.byte = h.conn.lastByte
  outcome : Outcome cfg cooldownLen s (s.agg.push fl cfg vals).2 h

theorem handleRow_handles (s : Conn) (vals : Row) (p : ℚ) :
    Handles fl cfg cooldownLen s vals (s.handleRow fl cfg cooldownLen threshold vals p) := by
  simp only [Conn.handleRow]
  split_ifs with hasked hcooling hcong hp
  · exact ⟨rfl, rfl, rfl, .silent rfl rfl rfl⟩
  · exact ⟨rfl, rfl, rfl, .silent rfl (by simp only; omega) rfl⟩
  · exact ⟨rfl, rfl, rfl,
      .fired rfl hasked.1 hasked.2 (Bool.eq_false_iff.mpr hcong) (by omega) rfl rfl⟩
  · exact ⟨rfl, rfl, rfl, .silent rfl (by simp only; omega) rfl⟩
  · exact ⟨rfl, rfl, rfl, .skipped rfl rfl rfl⟩

/-- What holds of a row that `serve` handled as the last of some rows. -/
structure Proper (fl : Floats) (cfg : Cfg) (rows : List (Row × ℚ)) (handled : List Handled)
    (h : Handled) : Prop where
  counted : h.conn.binsTotal = (completed fl cfg rows).length
  filled : h.fired → cfg.seqLen ≤ (completed fl cfg rows).length
  calm : h.fired → ∀ b ∈ (completed fl cfg rows).drop ((completed fl cfg rows).length - cfg.seqLen),
    ∀ r ∈ b.rows, r .caState < 3 ∧ r .isTimeout < 1
  byte : h.byte = 1 ↔ lastInference handled = some true

/-- Firings are more than a cooldown apart, and every row is proper. -/
structure Disciplined (fl : Floats) (cfg : Cfg) (cooldownLen : Nat) (rows : List (Row × ℚ))
    (handled : List Handled) : Prop where
  length : handled.length = rows.length
  apart : (firings handled).Pairwise fun f g => f.conn.binsTotal + cooldownLen < g.conn.binsTotal
  proper : ∀ i h, handled[i]? = some h →
    Proper fl cfg (rows.take (i + 1)) (handled.take (i + 1)) h

/-- What `serve` remembers of the rows behind it. -/
structure Remembers (fl : Floats) (cfg : Cfg) (cooldownLen : Nat) (rows : List (Row × ℚ))
    (s : Conn) (handled : List Handled) : Prop where
  refines : Refines cfg s.agg (binLog fl cfg (rows.map Prod.fst))
  binsTotal : s.binsTotal = (completed fl cfg rows).length
  cooldown : ∀ f ∈ firings handled, f.conn.binsTotal + cooldownLen ≤ s.binsTotal + s.cooldown
  lastByte : s.lastByte = 1 ↔ lastInference handled = some true

theorem firings_snoc (handled : List Handled) (h : Handled) :
    firings (handled ++ [h]) = firings handled ++ if h.fired then [h] else [] := by
  rw [firings, List.filter_append, List.filter_singleton, firings]
  rcases h.fired with - | - <;> rfl

theorem lastInference_snoc (handled : List Handled) (h : Handled) :
    lastInference (handled ++ [h]) = h.inferred.or (lastInference handled) := by
  rw [lastInference, List.filterMap_append, List.getLast?_append, lastInference]
  rcases hinferred : h.inferred with - | b <;> simp [hinferred]

section step

variable {rows : List (Row × ℚ)} {s : Conn} {handled : List Handled} {vals : Row} {p : ℚ}
  {out : Handled}

theorem completed_snoc (rows : List (Row × ℚ)) (vals : Row) (p : ℚ) :
    completed fl cfg (rows ++ [(vals, p)]) =
      ((binLog fl cfg (rows.map Prod.fst)).push fl cfg vals).closed := by
  rw [completed, List.map_append, List.map_singleton, binLog_snoc]

theorem Remembers.step_binsTotal (h : Remembers fl cfg cooldownLen rows s handled)
    (hout : Handles fl cfg cooldownLen s vals out) :
    out.conn.binsTotal = (completed fl cfg (rows ++ [(vals, p)])).length := by
  rw [completed_snoc, length_closed_push h.refines, hout.binsTotal, h.binsTotal, completed]

theorem Remembers.step (h : Remembers fl cfg cooldownLen rows s handled) (hseq : 0 < cfg.seqLen)
    (hout : Handles fl cfg cooldownLen s vals out) :
    Remembers fl cfg cooldownLen (rows ++ [(vals, p)]) out.conn (handled ++ [out]) := by
  have htotal := hout.binsTotal
  refine ⟨?_, h.step_binsTotal hout, ?_, ?_⟩
  · rw [hout.agg, List.map_append, List.map_singleton, binLog_snoc]
    exact refines_push h.refines hseq vals
  · rw [firings_snoc]
    intro f hf
    rcases hout.outcome with ⟨hinf, hcool, -⟩ | ⟨hinf, hcool, -⟩ | ⟨hinf, -, -, -, hcooled, hcool, -⟩
    · rw [Handled.fired, hinf] at hf
      have := h.cooldown f (by simpa using hf)
      omega
    · rw [Handled.fired, hinf] at hf
      have := h.cooldown f (by simpa using hf)
      omega
    · rcases List.mem_append.mp hf with hf | hf
      · have := h.cooldown f hf
        omega
      · rw [Handled.fired, hinf] at hf
        obtain rfl : f = out := by simpa using hf
        omega
  · rw [lastInference_snoc]
    rcases hout.outcome with ⟨hinf, -, hbyte⟩ | ⟨hinf, -, hbyte⟩ | ⟨hinf, -, -, -, -, -, hbyte⟩
    · rw [hinf, hbyte, Option.none_or]
      exact h.lastByte
    · rw [hinf, hbyte, Option.some_or]
      decide
    · rw [hinf, hbyte, Option.some_or]
      decide

theorem Remembers.apart (h : Remembers fl cfg cooldownLen rows s handled)
    (hout : Handles fl cfg cooldownLen s vals out) (hfired : out.fired) {f : Handled}
    (hf : f ∈ firings handled) : f.conn.binsTotal + cooldownLen < out.conn.binsTotal := by
  have htotal := hout.binsTotal
  have hcooling := h.cooldown f hf
  rw [Handled.fired, decide_eq_true_eq] at hfired
  rcases hout.outcome with ⟨hinf, -, -⟩ | ⟨hinf, -, -⟩ | ⟨-, hadded, -, -, hcooled, -, -⟩
  · rw [hinf] at hfired
    cases hfired
  · rw [hinf] at hfired
    cases hfired
  · omega

theorem Remembers.proper (h : Remembers fl cfg cooldownLen rows s handled)
    (hseq : 0 < cfg.seqLen) (hout : Handles fl cfg cooldownLen s vals out) :
    Proper fl cfg (rows ++ [(vals, p)]) (handled ++ [out]) out := by
  have hnext : Remembers fl cfg cooldownLen (rows ++ [(vals, p)]) out.conn (handled ++ [out]) :=
    h.step hseq hout
  have hstored := hnext.refines.stored
  have hreadiness : out.fired → out.conn.agg.ready cfg ∧
      out.conn.agg.windowHasCongestion cfg = false := by
    intro hfired
    rw [Handled.fired, decide_eq_true_eq] at hfired
    rcases hout.outcome with ⟨hinf, -, -⟩ | ⟨hinf, -, -⟩ | ⟨-, -, hready, hcalm, -, -, -⟩
    · rw [hinf] at hfired
      cases hfired
    · rw [hinf] at hfired
      cases hfired
    · exact ⟨hready, hcalm⟩
  have hfilled : out.fired → cfg.seqLen ≤ (completed fl cfg (rows ++ [(vals, p)])).length := by
    intro hfired
    rw [completed, ← hstored.count]
    exact of_decide_eq_true (hreadiness hfired).1
  refine ⟨hnext.binsTotal, hfilled, ?_, hout.byte ▸ hnext.lastByte⟩
  intro hfired b hb r hr
  have hcong := (hstored.windowHasCongestion_iff (hfilled hfired)).not
  rw [(hreadiness hfired).2] at hcong
  have hcalm : ¬ congested r := by
    intro hevent
    exact hcong.mp Bool.false_ne_true ⟨b, hb, List.any_eq_true.mpr ⟨r, hr, hevent⟩⟩
  simpa [congested] using hcalm

theorem Disciplined.step (h : Disciplined fl cfg cooldownLen rows handled)
    (hs : Remembers fl cfg cooldownLen rows s handled) (hseq : 0 < cfg.seqLen)
    (hout : Handles fl cfg cooldownLen s vals out) :
    Disciplined fl cfg cooldownLen (rows ++ [(vals, p)]) (handled ++ [out]) := by
  have hlength := h.length
  refine ⟨?_, ?_, ?_⟩
  · rw [List.length_append, List.length_append, hlength]
    rfl
  · rw [firings_snoc, List.pairwise_append]
    refine ⟨h.apart, ?_, ?_⟩
    · split
      · exact List.pairwise_singleton _ _
      · exact List.Pairwise.nil
    · intro f hf g hg
      split at hg
      · rename_i hfired
        rw [List.mem_singleton.mp hg]
        exact hs.apart hout hfired hf
      · cases hg
  · intro i g hi
    rcases Nat.lt_trichotomy i handled.length with hlt | rfl | hgt
    · rw [List.getElem?_append_left hlt] at hi
      rw [List.take_append_of_le_length (by omega), List.take_append_of_le_length (by omega)]
      exact h.proper i g hi
    · rw [List.getElem?_concat_length, Option.some.injEq] at hi
      rw [List.take_of_length_le (by simp; omega), List.take_of_length_le (by simp), ← hi]
      exact hs.proper hseq hout
    · rw [List.getElem?_eq_none (by simp; omega)] at hi
      cases hi

end step

theorem serve_remembers (hseq : 0 < cfg.seqLen) (rows : List (Row × ℚ)) :
    Remembers fl cfg cooldownLen rows (serve fl cfg cooldownLen threshold rows).1
      (serve fl cfg cooldownLen threshold rows).2 := by
  induction rows using List.reverseRecOn with
  | nil =>
      refine ⟨refines_new, rfl, ?_, ?_⟩
      · intro f hf
        cases hf
      · refine iff_of_false (by decide : (0 : Tcp.U8) ≠ 1) ?_
        rintro ⟨⟩
  | append_singleton rows r ih =>
      rw [serve_snoc]
      exact ih.step hseq (handleRow_handles _ r.1 r.2)

/-- The firing discipline, over every sequence of rows and outputs. -/
theorem serve_disciplined (hseq : 0 < cfg.seqLen) (rows : List (Row × ℚ)) :
    Disciplined fl cfg cooldownLen rows (serve fl cfg cooldownLen threshold rows).2 := by
  induction rows using List.reverseRecOn with
  | nil =>
      refine ⟨rfl, List.Pairwise.nil, ?_⟩
      intro i h hi
      cases hi
  | append_singleton rows r ih =>
      rw [serve_snoc]
      exact ih.step (serve_remembers hseq rows) hseq (handleRow_handles _ r.1 r.2)

/-- A row every bin, and a model that always predicts congestion. -/
def steadyRows : List (Row × ℚ) :=
  (List.range 9).map fun i : Nat => (fun key => if key = .timestampUs then 1000 * i else 0, 1)

/-- With a cooldown of three bins the fourth completed bin fires again. -/
theorem serve_disciplined_steady :
    (firings (serve ⟨id, id⟩ ⟨1, 2, 7⟩ 3 1 steadyRows).2).map (·.conn.binsTotal) = [2, 6] ∧
      Disciplined ⟨id, id⟩ ⟨1, 2, 7⟩ 3 steadyRows
        (serve ⟨id, id⟩ ⟨1, 2, 7⟩ 3 1 steadyRows).2 :=
  ⟨by decide +kernel, serve_disciplined (by decide) steadyRows⟩

end Utcp.LstmServer
