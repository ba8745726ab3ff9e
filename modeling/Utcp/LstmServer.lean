import Mathlib.Data.Rat.Floor
import Mathlib.Data.List.Sort
import Utcp.Tcp

/-!
`lstm_server.py`: rows become time bins, bins become a window of feature
vectors, and the server decides for each row which byte it answers.
-/

namespace Utcp.LstmServer

open Utcp.Tcp

/-- How the interpreter rounds: to a Python float and to a `float32`. -/
structure Floats where
  double : ℚ → ℚ
  single : ℚ → ℚ

/-- The columns of `RAW_COLS`, in the order of the wire. -/
inductive RawCol
  | timestampUs | rttUs | srttUs | rttvarUs | rtoUs | minRttUs
  | queueDelayUs | rttDeltaUs | rttAccelUs | rtoDeltaUs
  | cwnd | ssthresh | sndWnd | flightSize | newlyAcked
  | interAckUs | caState | tDupacks | tRxtshift | isDupAck | isTimeout
deriving DecidableEq

/-- The values of a row, by column. -/
abbrev Row := RawCol → ℚ

structure Cfg where
  binSizeMs : Nat
  seqLen : Nat
  nFeatures : Nat

/-- The choices of `--mode`. -/
inductive Mode
  | stateless
  | lstm3m

/-- `STATELESS_CFG` and `LSTM3M_CFG`. -/
def Mode.cfg : Mode → Cfg
  | .stateless => ⟨15, 200, 7⟩
  | .lstm3m => ⟨5, 300, 8⟩

/-- `STATELESS_COOLDOWN` and `LSTM3M_COOLDOWN`. -/
def Mode.cooldownLen : Mode → Nat
  | .stateless => 200
  | .lstm3m => 600

/-- The width of a bin in microseconds. -/
def Cfg.widthUs (cfg : Cfg) : ℚ := cfg.binSizeMs * 1000

/-- `int(x)` of a float: without its fraction. -/
def truncate (x : ℚ) : ℤ := if 0 ≤ x then ⌊x⌋ else ⌈x⌉

/-- The bin of a row. -/
def binId (fl : Floats) (cfg : Cfg) (vals : Row) : ℤ :=
  truncate (fl.double (vals .timestampUs / cfg.widthUs))

/-- `sum` of some floats, in order. -/
def pySum (fl : Floats) (xs : List ℚ) : ℚ := xs.foldl (fun acc x => fl.double (acc + x)) 0

/-- `_mean`. -/
def mean (fl : Floats) (rows : List Row) (key : RawCol) : ℚ :=
  fl.double (pySum fl (rows.map fun r => r key) / rows.length)

/-- `_max`. -/
def maxOf (rows : List Row) (key : RawCol) : ℚ :=
  match rows with
  | [] => 0
  | r :: rest => rest.foldl (fun m r => max m (r key)) (r key)

/-- `_row_util`. -/
def rowUtil (fl : Floats) (r : Row) : ℚ :=
  let eff := max 1 (min (r .cwnd) (r .sndWnd))
  max 0 (min 2 (fl.double (r .flightSize / eff)))

def utilization (fl : Floats) (rows : List Row) : ℚ :=
  fl.double (pySum fl (rows.map (rowUtil fl)) / rows.length)

/-- `np.clip(x, -10.0, 10.0)`, stored as a `float32`. -/
def clip (fl : Floats) (x : ℚ) : ℚ := fl.single (min (max x (-10)) 10)

/-- The vector `_finalise` computes from the rows of a bin. -/
def featureVector (fl : Floats) (cfg : Cfg) (norm : ℚ) (rows : List Row) : List ℚ :=
  let meanRatio (key : RawCol) := clip fl (fl.double (mean fl rows key / norm))
  let rest :=
    [meanRatio .srttUs, meanRatio .rttvarUs,
      clip fl (fl.double (maxOf rows .queueDelayUs / norm)),
      meanRatio .rttDeltaUs, meanRatio .rttAccelUs,
      clip fl (fl.double (maxOf rows .tDupacks / 3)),
      clip fl (utilization fl rows)]
  if cfg.nFeatures = 8 then meanRatio .rttUs :: rest else rest

/-- `np.median`. -/
def median (fl : Floats) (xs : List ℚ) : ℚ :=
  let sorted := xs.mergeSort (fun a b => a ≤ b)
  let mid := sorted.length / 2
  if sorted.length % 2 = 1 then sorted.getD mid 0
  else fl.double (fl.double (sorted.getD (mid - 1) 0 + sorted.getD mid 0) / 2)

/-- A row with a congestion event. -/
def congested (r : Row) : Bool := r .caState ≥ 3 || r .isTimeout ≥ 1

/-- `BinAggregator`. The two arrays are read and written below `seqLen` only. -/
structure BinAggregator where
  bins : Nat → List ℚ
  hasCong : Nat → Bool
  head : Nat
  count : Nat
  curBinId : Option ℤ
  curRows : List Row
  minRttVals : List ℚ
  normRtt : ℚ

/-- `np.zeros(n_features)`. -/
def zeros (cfg : Cfg) : List ℚ := List.replicate cfg.nFeatures 0

def BinAggregator.new (cfg : Cfg) : BinAggregator :=
  ⟨fun _ => zeros cfg, fun _ => false, 0, 0, none, [], [], 1⟩

/-- Store a completed bin at the head. -/
def BinAggregator.store (cfg : Cfg) (agg : BinAggregator) (vec : List ℚ) (isCong : Bool) :
    BinAggregator :=
  { agg with
    bins := fun i => if i = agg.head then vec else agg.bins i
    hasCong := fun i => if i = agg.head then isCong else agg.hasCong i
    head := (agg.head + 1) % cfg.seqLen
    count := agg.count + 1 }

/-- `_min_rtt_vals.append`, a `deque` of 100000 values. -/
def appendMinRtt (vals : List ℚ) (minRtt : ℚ) : List ℚ :=
  let vals := vals ++ [minRtt]
  vals.drop (vals.length - 100000)

/-- `_finalise`. -/
def BinAggregator.finalise (fl : Floats) (cfg : Cfg) (agg : BinAggregator) : BinAggregator :=
  if agg.curRows = [] then agg
  else
    let normRtt := if agg.minRttVals = [] then agg.normRtt else median fl agg.minRttVals
    let norm := if normRtt > 0 then normRtt else 1
    { agg with normRtt }.store cfg (featureVector fl cfg norm agg.curRows)
      (agg.curRows.any congested)

/-- `push`, with the number of bins completed. -/
def BinAggregator.push (fl : Floats) (cfg : Cfg) (agg : BinAggregator) (vals : Row) :
    BinAggregator × Nat :=
  let minRtt := vals .minRttUs
  let agg :=
    { agg with
      minRttVals :=
        if minRtt > 0 then appendMinRtt agg.minRttVals minRtt else agg.minRttVals }
  let bid := binId fl cfg vals
  let curBinId := agg.curBinId.getD bid
  if bid = curBinId then
    ({ agg with curBinId := some curBinId, curRows := agg.curRows ++ [vals] }, 0)
  else
    let agg := { agg with curBinId := some curBinId }.finalise fl cfg
    let gap := (bid - curBinId - 1).toNat
    let cappedGap := min gap cfg.seqLen
    let agg := Nat.repeat (fun agg => agg.store cfg (zeros cfg) false) cappedGap agg
    ({ agg with curBinId := some bid, curRows := [vals] }, 1 + cappedGap)

def BinAggregator.ready (cfg : Cfg) (agg : BinAggregator) : Bool := agg.count ≥ cfg.seqLen

/-- `get_sequence`, oldest bin first. -/
def BinAggregator.getSequence (cfg : Cfg) (agg : BinAggregator) : List (List ℚ) :=
  (List.range cfg.seqLen).map fun i => agg.bins ((agg.head + i) % cfg.seqLen)

def BinAggregator.windowHasCongestion (cfg : Cfg) (agg : BinAggregator) : Bool :=
  (List.range cfg.seqLen).any agg.hasCong

/-- What `serve` keeps for a connection. -/
structure Conn where
  agg : BinAggregator
  lastByte : U8
  cooldown : Nat
  binsTotal : Nat

def Conn.new (cfg : Cfg) : Conn := ⟨.new cfg, 0, 0, 0⟩

/-- What `serve` did for a row: the state behind it, the byte it sent, and
whether the model fired, if it was asked. -/
structure Handled where
  conn : Conn
  byte : U8
  inferred : Option Bool

/-- The loop of `serve` for an accepted row; `p` is what the model returns. -/
def Conn.handleRow (fl : Floats) (cfg : Cfg) (cooldownLen : Nat) (threshold : ℚ) (s : Conn)
    (vals : Row) (p : ℚ) : Handled :=
  let (agg, binsAdded) := s.agg.push fl cfg vals
  let binsTotal := s.binsTotal + binsAdded
  if binsAdded > 0 ∧ agg.ready cfg then
    if s.cooldown > 0 then ⟨⟨agg, 0, s.cooldown - binsAdded, binsTotal⟩, 0, some false⟩
    else if agg.windowHasCongestion cfg then ⟨⟨agg, 0, s.cooldown, binsTotal⟩, 0, some false⟩
    else if p ≥ threshold then ⟨⟨agg, 1, cooldownLen, binsTotal⟩, 1, some true⟩
    else ⟨⟨agg, 0, s.cooldown, binsTotal⟩, 0, some false⟩
  else ⟨{ s with agg, binsTotal }, s.lastByte, none⟩

end Utcp.LstmServer
