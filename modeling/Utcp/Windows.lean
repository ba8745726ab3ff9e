import Mathlib.Algebra.Order.Floor.Ring
import Mathlib.Data.List.Induction
import Utcp.Library.RingMemory
import Utcp.LstmServer

/-!
The window of `BinAggregator` against the list of all the bins it has completed:
the ring holds the end of that list, and for rows in the order of time the end
of the list are the bins just before the current one.
-/

namespace Utcp.LstmServer

open RingMemory

variable {fl : Floats} {cfg : Cfg}

/-- A completed bin, and the vector kept for it. -/
structure Bin where
  rows : List Row
  vec : List ℚ

def Bin.empty (cfg : Cfg) : Bin := ⟨[], zeros cfg⟩

def Bin.congested (b : Bin) : Bool := b.rows.any LstmServer.congested

/-- The samples of the round-trip time after some rows. -/
def samples (rows : List Row) : List ℚ :=
  rows.foldl (fun vals r => if r .minRttUs > 0 then appendMinRtt vals (r .minRttUs) else vals) []

/-- The norm of a bin that is completed after some rows. -/
def normAt (fl : Floats) (rows : List Row) : ℚ :=
  let normRtt := if samples rows = [] then 1 else median fl (samples rows)
  if normRtt > 0 then normRtt else 1

/-- All rows, all completed bins and the current one. -/
structure BinLog where
  seen : List Row
  closed : List Bin
  curBinId : Option ℤ
  curRows : List Row

def BinLog.push (fl : Floats) (cfg : Cfg) (log : BinLog) (vals : Row) : BinLog :=
  let seen := log.seen ++ [vals]
  let bid := binId fl cfg vals
  let curBinId := log.curBinId.getD bid
  if bid = curBinId then
    ⟨seen, log.closed, some curBinId, log.curRows ++ [vals]⟩
  else
    let bin := ⟨log.curRows, featureVector fl cfg (normAt fl seen) log.curRows⟩
    let gap := (bid - curBinId - 1).toNat
    let cappedGap := min gap cfg.seqLen
    ⟨seen, log.closed ++ [bin] ++ List.replicate cappedGap (.empty cfg), some bid, [vals]⟩

/-- The log of a sequence of rows. -/
def binLog (fl : Floats) (cfg : Cfg) (rows : List Row) : BinLog :=
  rows.foldl (BinLog.push fl cfg) ⟨[], [], none, []⟩

/-- The aggregator after a sequence of rows. -/
def pushAll (fl : Floats) (cfg : Cfg) (rows : List Row) : BinAggregator :=
  rows.foldl (fun agg vals => (agg.push fl cfg vals).1) (.new cfg)

theorem binLog_snoc (rows : List Row) (r : Row) :
    binLog fl cfg (rows ++ [r]) = (binLog fl cfg rows).push fl cfg r := by
  rw [binLog, binLog, List.foldl_append, List.foldl_cons, List.foldl_nil]

theorem pushAll_snoc (rows : List Row) (r : Row) :
    pushAll fl cfg (rows ++ [r]) = ((pushAll fl cfg rows).push fl cfg r).1 := by
  rw [pushAll, pushAll, List.foldl_append, List.foldl_cons, List.foldl_nil]

theorem samples_snoc (rows : List Row) (r : Row) :
    samples (rows ++ [r]) =
      if r .minRttUs > 0 then appendMinRtt (samples rows) (r .minRttUs) else samples rows := by
  rw [samples, samples, List.foldl_append, List.foldl_cons, List.foldl_nil]

theorem appendMinRtt_ne_nil (vals : List ℚ) (minRtt : ℚ) : appendMinRtt vals minRtt ≠ [] := by
  intro h
  have hlen := congrArg List.length h
  rw [appendMinRtt, List.length_drop, List.length_append, List.length_singleton,
    List.length_nil] at hlen
  omega

/-- The ring holds the last of some completed bins. -/
structure Stored (cfg : Cfg) (agg : BinAggregator) (closed : List Bin) : Prop where
  count : agg.count = closed.length
  head : agg.head = closed.length % cfg.seqLen
  bins : HoldsLast agg.bins cfg.seqLen (closed.map Bin.vec)
  hasCong : HoldsLast agg.hasCong cfg.seqLen (closed.map Bin.congested)

theorem stored_new : Stored cfg (.new cfg) [] := by
  refine ⟨rfl, ?_, holdsLast_nil, holdsLast_nil⟩
  exact (Nat.zero_mod _).symm

theorem Stored.store {agg : BinAggregator} {closed : List Bin} (h : Stored cfg agg closed)
    (hseq : 0 < cfg.seqLen) (b : Bin) :
    Stored cfg (agg.store cfg b.vec b.congested) (closed ++ [b]) := by
  have hbins := h.bins.push hseq b.vec
  have hcong := h.hasCong.push hseq b.congested
  rw [List.length_map, ← h.head] at hbins hcong
  constructor
  · rw [List.length_append, ← h.count]
    rfl
  · rw [List.length_append, List.length_singleton, Nat.add_mod, ← h.head, Nat.add_mod_mod]
    rfl
  · rw [List.map_append]
    exact hbins
  · rw [List.map_append]
    exact hcong

theorem Stored.gap {agg : BinAggregator} {closed : List Bin} (h : Stored cfg agg closed)
    (hseq : 0 < cfg.seqLen) (n : Nat) :
    Stored cfg (Nat.repeat (fun agg => agg.store cfg (zeros cfg) false) n agg)
      (closed ++ List.replicate n (.empty cfg)) := by
  induction n with
  | zero =>
      rw [List.replicate_zero, List.append_nil]
      exact h
  | succ n ih =>
      rw [List.replicate_succ', ← List.append_assoc]
      exact ih.store hseq (.empty cfg)

theorem Stored.getSequence {agg : BinAggregator} {closed : List Bin} (h : Stored cfg agg closed)
    (hfull : cfg.seqLen ≤ closed.length) :
    agg.getSequence cfg = (closed.drop (closed.length - cfg.seqLen)).map Bin.vec := by
  have hwindow := h.bins.window (by rw [List.length_map]; exact hfull)
  rw [List.length_map, ← List.map_drop] at hwindow
  rw [BinAggregator.getSequence, ← hwindow, h.head]
  apply List.map_congr_left
  intro i _
  rw [Nat.mod_add_mod]

theorem Stored.windowHasCongestion_iff {agg : BinAggregator} {closed : List Bin}
    (h : Stored cfg agg closed) (hfull : cfg.seqLen ≤ closed.length) :
    agg.windowHasCongestion cfg ↔
      ∃ b ∈ closed.drop (closed.length - cfg.seqLen), b.congested := by
  have hcells := h.hasCong.exists_cell_iff (by rw [List.length_map]; exact hfull) (· = true)
  rw [List.length_map, ← List.map_drop] at hcells
  simp only [List.mem_map, exists_exists_and_eq_and] at hcells
  rw [BinAggregator.windowHasCongestion, List.any_eq_true, ← hcells]
  simp only [List.mem_range]

/-- The aggregator and the log have seen the same rows. -/
structure Refines (cfg : Cfg) (agg : BinAggregator) (log : BinLog) : Prop where
  stored : Stored cfg agg log.closed
  curBinId : agg.curBinId = log.curBinId
  curRows : agg.curRows = log.curRows
  nonempty : log.curBinId ≠ none → log.curRows ≠ []
  minRttVals : agg.minRttVals = samples log.seen
  normRtt : samples log.seen = [] → agg.normRtt = 1

theorem refines_new : Refines cfg (.new cfg) ⟨[], [], none, []⟩ := by
  refine ⟨stored_new, rfl, rfl, ?_, rfl, fun _ => rfl⟩
  intro h
  exact absurd rfl h

theorem Stored.finalise {agg : BinAggregator} {closed : List Bin} {seen : List Row}
    (h : Stored cfg agg closed) (hseq : 0 < cfg.seqLen) (hrows : agg.curRows ≠ [])
    (hvals : agg.minRttVals = samples seen) (hnorm : samples seen = [] → agg.normRtt = 1) :
    Stored cfg (agg.finalise fl cfg)
      (closed ++ [⟨agg.curRows, featureVector fl cfg (normAt fl seen) agg.curRows⟩]) := by
  rw [BinAggregator.finalise, if_neg hrows]
  have hstored : Stored cfg { agg with normRtt :=
      if agg.minRttVals = [] then agg.normRtt else median fl agg.minRttVals } closed :=
    ⟨h.count, h.head, h.bins, h.hasCong⟩
  have hnormAt : normAt fl seen =
      let normRtt := if agg.minRttVals = [] then agg.normRtt else median fl agg.minRttVals
      if normRtt > 0 then normRtt else 1 := by
    rw [normAt, hvals]
    rcases eq_or_ne (samples seen) [] with hnil | hnil
    · rw [if_pos hnil, if_pos hnil, hnorm hnil]
    · rw [if_neg hnil, if_neg hnil]
  rw [hnormAt]
  exact hstored.store hseq ⟨agg.curRows, _⟩

theorem gap_minRttVals (agg : BinAggregator) (n : Nat) :
    (Nat.repeat (fun agg => agg.store cfg (zeros cfg) false) n agg).minRttVals =
      agg.minRttVals := by
  induction n with
  | zero => rfl
  | succ n ih => exact ih

theorem gap_normRtt (agg : BinAggregator) (n : Nat) :
    (Nat.repeat (fun agg => agg.store cfg (zeros cfg) false) n agg).normRtt = agg.normRtt := by
  induction n with
  | zero => rfl
  | succ n ih => exact ih

theorem finalise_minRttVals (agg : BinAggregator) :
    (agg.finalise fl cfg).minRttVals = agg.minRttVals := by
  rw [BinAggregator.finalise]
  split <;> rfl

theorem finalise_normRtt {agg : BinAggregator} (h : agg.minRttVals = []) :
    (agg.finalise fl cfg).normRtt = agg.normRtt := by
  rw [BinAggregator.finalise]
  split
  · rfl
  · rfl

theorem refines_push {agg : BinAggregator} {log : BinLog} (h : Refines cfg agg log)
    (hseq : 0 < cfg.seqLen) (vals : Row) :
    Refines cfg (agg.push fl cfg vals).1 (log.push fl cfg vals) := by
  rw [BinAggregator.push, BinLog.push, h.curBinId, h.minRttVals, h.curRows, ← samples_snoc]
  have hnorm : samples (log.seen ++ [vals]) = [] → agg.normRtt = 1 := by
    intro hnil
    apply h.normRtt
    rw [samples_snoc] at hnil
    split at hnil
    · exact absurd hnil (appendMinRtt_ne_nil _ _)
    · exact hnil
  have hstored := h.stored
  rcases eq_or_ne (binId fl cfg vals) (log.curBinId.getD (binId fl cfg vals)) with hsame | hnext
  · rw [if_pos hsame, if_pos hsame]
    refine ⟨⟨hstored.count, hstored.head, hstored.bins, hstored.hasCong⟩, rfl, rfl, ?_, rfl, hnorm⟩
    intro _
    exact List.append_ne_nil_of_right_ne_nil _ (by simp)
  · rw [if_neg hnext, if_neg hnext]
    have hcur : log.curBinId ≠ none := by
      intro hnone
      rw [hnone] at hnext
      exact hnext rfl
    let agg' : BinAggregator := { agg with
      curBinId := some (log.curBinId.getD (binId fl cfg vals))
      curRows := log.curRows
      minRttVals := samples (log.seen ++ [vals]) }
    have hstored' : Stored cfg agg' log.closed :=
      ⟨hstored.count, hstored.head, hstored.bins, hstored.hasCong⟩
    have hfinal : Stored cfg (agg'.finalise fl cfg) _ :=
      hstored'.finalise hseq (h.nonempty hcur) rfl hnorm
    have hclosed := hfinal.gap hseq
      (min (binId fl cfg vals - log.curBinId.getD (binId fl cfg vals) - 1).toNat cfg.seqLen)
    refine ⟨⟨hclosed.count, hclosed.head, hclosed.bins, hclosed.hasCong⟩, rfl, rfl, ?_, ?_, ?_⟩
    · intro _
      exact List.cons_ne_nil _ _
    · exact (gap_minRttVals _ _).trans (finalise_minRttVals _)
    · intro hnil
      refine (gap_normRtt _ _).trans ((finalise_normRtt hnil).trans ?_)
      exact hnorm hnil

theorem length_closed_push {agg : BinAggregator} {log : BinLog} (h : Refines cfg agg log)
    (vals : Row) :
    (log.push fl cfg vals).closed.length = log.closed.length + (agg.push fl cfg vals).2 := by
  rw [BinAggregator.push, BinLog.push, h.curBinId]
  rcases eq_or_ne (binId fl cfg vals) (log.curBinId.getD (binId fl cfg vals)) with hsame | hnext
  · rw [if_pos hsame, if_pos hsame]
    rfl
  · rw [if_neg hnext, if_neg hnext]
    simp only [List.length_append, List.length_singleton, List.length_replicate]
    omega

theorem refines_pushAll (hseq : 0 < cfg.seqLen) (rows : List Row) :
    Refines cfg (pushAll fl cfg rows) (binLog fl cfg rows) := by
  induction rows using List.reverseRecOn with
  | nil => exact refines_new
  | append_singleton rows r ih =>
      rw [pushAll_snoc, binLog_snoc]
      exact refines_push ih hseq r

/-- The bin of a row by its time. -/
def binOf (cfg : Cfg) (r : Row) : ℤ := ⌊r .timestampUs / cfg.widthUs⌋

def rowsOf (cfg : Cfg) (rows : List Row) (b : ℤ) : List Row := rows.filter fun r => binOf cfg r = b

/-- The rows up to the one that closes a bin. -/
def closing (cfg : Cfg) (rows : List Row) (b : ℤ) : List Row :=
  rows.takeWhile (fun r => binOf cfg r ≤ b) ++ (rows.dropWhile fun r => binOf cfg r ≤ b).take 1

/-- What a bin should be in the end. -/
def binAt (fl : Floats) (cfg : Cfg) (rows : List Row) (b : ℤ) : Bin :=
  let own := rowsOf cfg rows b
  ⟨own, if own = [] then zeros cfg else featureVector fl cfg (normAt fl (closing cfg rows b)) own⟩

theorem rowsOf_snoc_of_ne {rows : List Row} {r : Row} {b : ℤ} (h : binOf cfg r ≠ b) :
    rowsOf cfg (rows ++ [r]) b = rowsOf cfg rows b := by
  rw [rowsOf, List.filter_append, List.filter_singleton]
  simp [rowsOf, h]

theorem rowsOf_snoc {rows : List Row} {r : Row} {b : ℤ} (h : binOf cfg r = b) :
    rowsOf cfg (rows ++ [r]) b = rowsOf cfg rows b ++ [r] := by
  rw [rowsOf, List.filter_append, List.filter_singleton]
  simp [rowsOf, h]

theorem closing_snoc_of_past {rows : List Row} {b : ℤ} (hpast : ∃ x ∈ rows, b < binOf cfg x)
    (r : Row) : closing cfg (rows ++ [r]) b = closing cfg rows b := by
  induction rows with
  | nil => simp at hpast
  | cons y rows ih =>
      rcases lt_or_ge b (binOf cfg y) with hy | hy
      · simp [closing, not_le.mpr hy]
      · have hrest : ∃ x ∈ rows, b < binOf cfg x := by
          obtain ⟨x, hx, hlt⟩ := hpast
          rcases List.mem_cons.mp hx with rfl | hx
          · exact absurd hlt (not_lt.mpr hy)
          · exact ⟨x, hx, hlt⟩
        have hih := ih hrest
        simp only [closing] at hih
        simp [closing, hy, hih]

theorem closing_snoc_of_current {rows : List Row} {b : ℤ} (hle : ∀ x ∈ rows, binOf cfg x ≤ b)
    {r : Row} (hr : b < binOf cfg r) : closing cfg (rows ++ [r]) b = rows ++ [r] := by
  have hall : ∀ x ∈ rows, decide (binOf cfg x ≤ b) = true := by
    intro x hx
    exact decide_eq_true (hle x hx)
  rw [closing, List.takeWhile_append_of_pos hall, List.dropWhile_append_of_pos hall]
  simp [not_le.mpr hr]

theorem binAt_snoc {rows : List Row} {r : Row} {b : ℤ} (hpast : ∃ x ∈ rows, b < binOf cfg x)
    (hr : binOf cfg r ≠ b) : binAt fl cfg (rows ++ [r]) b = binAt fl cfg rows b := by
  rw [binAt, rowsOf_snoc_of_ne hr, closing_snoc_of_past hpast]
  rfl

theorem binAt_current {rows : List Row} {r : Row} {b : ℤ} (hle : ∀ x ∈ rows, binOf cfg x ≤ b)
    (hr : b < binOf cfg r) (hown : rowsOf cfg rows b ≠ []) :
    binAt fl cfg (rows ++ [r]) b =
      ⟨rowsOf cfg rows b,
        featureVector fl cfg (normAt fl (rows ++ [r])) (rowsOf cfg rows b)⟩ := by
  rw [binAt, rowsOf_snoc_of_ne hr.ne', closing_snoc_of_current hle hr, if_neg hown]

theorem binAt_gap {rows : List Row} {b : ℤ} (h : ∀ x ∈ rows, binOf cfg x ≠ b) :
    binAt fl cfg rows b = .empty cfg := by
  have hown : rowsOf cfg rows b = [] := by
    rw [rowsOf, List.filter_eq_nil_iff]
    intro x hx
    simp [h x hx]
  rw [binAt, hown, if_pos rfl, Bin.empty]

/-- The log against the bins by time: the newest completed bins are the ones
before the current bin, as far as a window reaches. -/
structure Aligned (fl : Floats) (cfg : Cfg) (rows : List Row) (log : BinLog) : Prop where
  seen : log.seen = rows
  curBinId : log.curBinId = rows.getLast?.map (binOf cfg)
  unopened : log.curBinId = none → log.closed = [] ∧ log.curRows = []
  curRows : ∀ cur, log.curBinId = some cur → log.curRows = rowsOf cfg rows cur
  le : ∀ cur, log.curBinId = some cur → ∀ x ∈ rows, binOf cfg x ≤ cur
  closed : ∀ cur, log.curBinId = some cur → ∀ k < log.closed.length, k < cfg.seqLen →
    log.closed.reverse[k]? = some (binAt fl cfg rows (cur - 1 - k))

theorem Aligned.mem {rows : List Row} {log : BinLog} (h : Aligned fl cfg rows log) {cur : ℤ}
    (hcur : log.curBinId = some cur) : ∃ x ∈ rows, binOf cfg x = cur := by
  rw [h.curBinId, Option.map_eq_some_iff] at hcur
  obtain ⟨x, hx, hbin⟩ := hcur
  exact ⟨x, List.mem_of_getLast? hx, hbin⟩

theorem aligned_push_first {rows : List Row} {log : BinLog} (h : Aligned fl cfg rows log) {r : Row}
    (hexact : binId fl cfg r = binOf cfg r) (hcur : log.curBinId = none) :
    Aligned fl cfg (rows ++ [r]) (log.push fl cfg r) := by
  obtain ⟨hclosed, hcurRows⟩ := h.unopened hcur
  obtain rfl : rows = [] := by
    have hlast := h.curBinId
    rw [hcur, eq_comm, Option.map_eq_none_iff, List.getLast?_eq_none_iff] at hlast
    exact hlast
  rw [BinLog.push, hexact, hcur, Option.getD_none, if_pos rfl, h.seen, hclosed, hcurRows]
  refine ⟨rfl, rfl, by simp, ?_, ?_, by simp⟩
  · rintro b ⟨⟩
    rw [rowsOf_snoc rfl]
    rfl
  · rintro b ⟨⟩ x hx
    rw [List.mem_singleton.mp hx]

theorem aligned_push_same {rows : List Row} {log : BinLog} (h : Aligned fl cfg rows log) {r : Row}
    (hexact : binId fl cfg r = binOf cfg r) (hcur : log.curBinId = some (binOf cfg r)) :
    Aligned fl cfg (rows ++ [r]) (log.push fl cfg r) := by
  rw [BinLog.push, hexact, hcur, Option.getD_some, if_pos rfl, h.seen, h.curRows _ hcur]
  refine ⟨rfl, by simp, by simp, ?_, ?_, ?_⟩
  · rintro b ⟨⟩
    rw [rowsOf_snoc rfl]
  · rintro b ⟨⟩ x hx
    rcases List.mem_append.mp hx with hx | hx
    · exact h.le _ hcur x hx
    · rw [List.mem_singleton.mp hx]
  · rintro b ⟨⟩ k hk hwindow
    have hpast : ∃ x ∈ rows, binOf cfg r - 1 - (k : ℤ) < binOf cfg x := by
      obtain ⟨x, hx, hbin⟩ := h.mem hcur
      exact ⟨x, hx, by omega⟩
    rw [binAt_snoc hpast (by omega)]
    exact h.closed _ hcur k hk hwindow

/-- A row of a later bin closes the current one, and the bins between get
zeros; when those are more than a window, no completed bin counts any more. -/
theorem aligned_push_next {rows : List Row} {log : BinLog} (h : Aligned fl cfg rows log) {r : Row}
    (hexact : binId fl cfg r = binOf cfg r) {cur : ℤ} (hcur : log.curBinId = some cur)
    (hnext : cur < binOf cfg r) :
    Aligned fl cfg (rows ++ [r]) (log.push fl cfg r) := by
  have hne : binOf cfg r ≠ log.curBinId.getD (binOf cfg r) := by
    rw [hcur]
    exact hnext.ne'
  rw [BinLog.push, hexact, if_neg hne, h.seen, hcur, Option.getD_some]
  have hle := h.le cur hcur
  refine ⟨rfl, by simp, by simp, ?_, ?_, ?_⟩
  · rintro b ⟨⟩
    have hnew : rowsOf cfg rows (binOf cfg r) = [] := by
      rw [rowsOf, List.filter_eq_nil_iff]
      intro x hx
      have := hle x hx
      simp
      omega
    rw [rowsOf_snoc rfl, hnew, List.nil_append]
  · rintro b ⟨⟩ x hx
    rcases List.mem_append.mp hx with hx | hx
    · exact (hle x hx).trans hnext.le
    · rw [List.mem_singleton.mp hx]
  · rintro b ⟨⟩ k hk hwindow
    rw [List.reverse_append, List.reverse_append, List.reverse_replicate, List.reverse_singleton]
    generalize hgap : min (binOf cfg r - cur - 1).toNat cfg.seqLen = gap
    rcases Nat.lt_trichotomy k gap with hlt | rfl | hgt
    · -- a skipped bin
      rw [List.getElem?_append_left (by rw [List.length_replicate]; exact hlt),
        List.getElem?_replicate_of_lt hlt, binAt_gap]
      intro x hx
      rcases List.mem_append.mp hx with hx | hx
      · have := hle x hx
        omega
      · rw [List.mem_singleton.mp hx]
        omega
    · -- the bin that was current
      have hown : rowsOf cfg rows cur ≠ [] := by
        obtain ⟨x, hx, hbin⟩ := h.mem hcur
        exact List.ne_nil_of_mem (List.mem_filter.mpr ⟨hx, decide_eq_true hbin⟩)
      have hbin : binOf cfg r - 1 - (k : ℤ) = cur := by omega
      rw [List.getElem?_append_right (by rw [List.length_replicate]), List.length_replicate,
        Nat.sub_self, hbin, binAt_current hle hnext hown, h.curRows cur hcur]
      rfl
    · -- a bin before it
      obtain ⟨j, rfl⟩ := Nat.exists_eq_add_of_lt hgt
      have hbin : binOf cfg r - 1 - ((gap + j + 1 : Nat) : ℤ) = cur - 1 - (j : ℤ) := by omega
      have hpast : ∃ x ∈ rows, cur - 1 - (j : ℤ) < binOf cfg x := by
        obtain ⟨x, hx, hbin⟩ := h.mem hcur
        exact ⟨x, hx, by omega⟩
      rw [List.length_append, List.length_append, List.length_replicate, List.length_singleton,
        hgap] at hk
      rw [List.getElem?_append_right (by rw [List.length_replicate]; omega), List.length_replicate,
        Nat.add_assoc, Nat.add_sub_cancel_left, List.singleton_append, List.getElem?_cons_succ,
        h.closed cur hcur j (by omega) (by omega), ← Nat.add_assoc, hbin,
        binAt_snoc hpast (by omega)]

theorem aligned_push {rows : List Row} {log : BinLog} (h : Aligned fl cfg rows log) {r : Row}
    (hexact : binId fl cfg r = binOf cfg r) (hsorted : ∀ x ∈ rows, binOf cfg x ≤ binOf cfg r) :
    Aligned fl cfg (rows ++ [r]) (log.push fl cfg r) := by
  rcases hcur : log.curBinId with - | cur
  · exact aligned_push_first h hexact hcur
  · obtain ⟨x, hx, rfl⟩ := h.mem hcur
    rcases (hsorted x hx).eq_or_lt with heq | hlt
    · rw [heq] at hcur
      exact aligned_push_same h hexact hcur
    · exact aligned_push_next h hexact hcur hlt

theorem aligned_binLog {rows : List Row} (hexact : ∀ r ∈ rows, binId fl cfg r = binOf cfg r)
    (hsorted : rows.Pairwise fun a b => binOf cfg a ≤ binOf cfg b) :
    Aligned fl cfg rows (binLog fl cfg rows) := by
  induction rows using List.reverseRecOn with
  | nil =>
      refine ⟨rfl, rfl, fun _ => ⟨rfl, rfl⟩, ?_, ?_, ?_⟩
      · rintro cur ⟨⟩
      · rintro cur ⟨⟩
      · rintro cur ⟨⟩
  | append_singleton rows r ih =>
      rw [List.pairwise_append] at hsorted
      rw [binLog_snoc]
      refine aligned_push (ih ?_ hsorted.1) (hexact r (by simp)) ?_
      · intro x hx
        exact hexact x (List.mem_append_left _ hx)
      · intro x hx
        exact hsorted.2.2 x hx r (List.mem_singleton_self r)

theorem Aligned.window {rows : List Row} {log : BinLog} (h : Aligned fl cfg rows log) {cur : ℤ}
    (hcur : log.curBinId = some cur) (hfull : cfg.seqLen ≤ log.closed.length) :
    log.closed.drop (log.closed.length - cfg.seqLen) =
      (List.range cfg.seqLen).map fun i : Nat => binAt fl cfg rows (cur - cfg.seqLen + i) := by
  apply List.ext_getElem?
  intro i
  rcases Nat.lt_or_ge i cfg.seqLen with hi | hi
  · have hrev := h.closed cur hcur (cfg.seqLen - 1 - i) (by omega) (by omega)
    rw [List.getElem?_reverse (by omega)] at hrev
    rw [List.getElem?_drop, List.getElem?_map, List.getElem?_range hi, Option.map_some,
      show log.closed.length - cfg.seqLen + i =
        log.closed.length - 1 - (cfg.seqLen - 1 - i) by omega, hrev,
      show cur - 1 - ((cfg.seqLen - 1 - i : Nat) : ℤ) = cur - cfg.seqLen + i by omega]
  · rw [List.getElem?_eq_none (by simp; omega), List.getElem?_eq_none (by simpa using hi)]

/-- Behind rows in the order of time, a ready aggregator holds the `seqLen` bins
before the current one. -/
theorem window_aligned (hseq : 0 < cfg.seqLen) (hbin : 0 < cfg.binSizeMs) {rows : List Row}
    (hsorted : rows.Pairwise fun a b => a .timestampUs ≤ b .timestampUs)
    (hexact : ∀ r ∈ rows, binId fl cfg r = binOf cfg r)
    (hready : (pushAll fl cfg rows).ready cfg) :
    ∃ cur, (pushAll fl cfg rows).curBinId = some cur ∧
      rows.getLast?.map (binOf cfg) = some cur ∧
      (pushAll fl cfg rows).getSequence cfg =
        (List.range cfg.seqLen).map (fun i : Nat => (binAt fl cfg rows (cur - cfg.seqLen + i)).vec) ∧
      ((pushAll fl cfg rows).windowHasCongestion cfg ↔
        ∃ b, cur - cfg.seqLen ≤ b ∧ b < cur ∧
          ∃ r ∈ rows, binOf cfg r = b ∧ (r .caState ≥ 3 ∨ r .isTimeout ≥ 1)) := by
  have hwidth : 0 < cfg.widthUs := by
    have : (0 : ℚ) < cfg.binSizeMs := by exact_mod_cast hbin
    rw [Cfg.widthUs]
    positivity
  have hbins : rows.Pairwise fun a b => binOf cfg a ≤ binOf cfg b := by
    refine hsorted.imp ?_
    intro a b hab
    exact Int.floor_le_floor (div_le_div_of_nonneg_right hab hwidth.le)
  have haligned : Aligned fl cfg rows (binLog fl cfg rows) := aligned_binLog hexact hbins
  have hrefines : Refines cfg (pushAll fl cfg rows) (binLog fl cfg rows) :=
    refines_pushAll hseq rows
  have hfull : cfg.seqLen ≤ (binLog fl cfg rows).closed.length := by
    rw [← hrefines.stored.count]
    exact of_decide_eq_true hready
  obtain ⟨cur, hcur⟩ : ∃ cur, (binLog fl cfg rows).curBinId = some cur := by
    rcases hnone : (binLog fl cfg rows).curBinId with - | cur
    · rw [(haligned.unopened hnone).1] at hfull
      exact absurd hfull (by simpa using hseq.ne')
    · exact ⟨cur, rfl⟩
  have hwindow := haligned.window hcur hfull
  refine ⟨cur, hrefines.curBinId.trans hcur, haligned.curBinId.symm.trans hcur, ?_, ?_⟩
  · rw [hrefines.stored.getSequence hfull, hwindow, List.map_map]
    rfl
  · rw [hrefines.stored.windowHasCongestion_iff hfull, hwindow]
    constructor
    · rintro ⟨b, hb, hcong⟩
      obtain ⟨i, hi, rfl⟩ := List.mem_map.mp hb
      rw [List.mem_range] at hi
      obtain ⟨r, hr, hevent⟩ := List.any_eq_true.mp hcong
      obtain ⟨hmem, hbin⟩ := List.mem_filter.mp hr
      refine ⟨_, by omega, by omega, r, hmem, of_decide_eq_true hbin, ?_⟩
      simpa [congested] using hevent
    · rintro ⟨b, hlow, hhigh, r, hr, hbin, hevent⟩
      refine ⟨binAt fl cfg rows b, List.mem_map.mpr ⟨(b - (cur - cfg.seqLen)).toNat, ?_, ?_⟩, ?_⟩
      · rw [List.mem_range]
        omega
      · rw [Int.toNat_of_nonneg (by omega), add_sub_cancel]
      · refine List.any_eq_true.mpr ⟨r, List.mem_filter.mpr ⟨hr, decide_eq_true hbin⟩, ?_⟩
        simpa [congested] using hevent

/-- Two rows of one bin, the second with an event, and a row two bins later. -/
def spacedRows : List Row :=
  let row (timestampUs caState : ℚ) : Row := fun
    | .timestampUs => timestampUs
    | .minRttUs => 100
    | .caState => caState
    | _ => 0
  [row 1000 0, row 1500 3, row 3200 0]

theorem window_aligned_spaced :
    (pushAll ⟨id, id⟩ ⟨1, 2, 7⟩ spacedRows).windowHasCongestion ⟨1, 2, 7⟩ := by
  obtain ⟨cur, -, hcur, -, hcong⟩ := @window_aligned ⟨id, id⟩ ⟨1, 2, 7⟩ (by decide) (by decide)
    spacedRows (by simp [spacedRows]; norm_num) (by decide +kernel) (by decide +kernel)
  have hthree : spacedRows.getLast?.map (binOf ⟨1, 2, 7⟩) = some 3 := by decide +kernel
  obtain rfl : cur = 3 := Option.some.inj (hcur.symm.trans hthree)
  refine hcong.mpr ⟨1, by decide, by decide, ?_⟩
  decide +kernel

end Utcp.LstmServer
