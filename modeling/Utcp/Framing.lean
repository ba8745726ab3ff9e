import Mathlib.Algebra.Ring.Int.Defs
import Mathlib.Data.Int.Notation
import Utcp.Library.Lines
import Utcp.Tcp

/-!
`lstm_client_send_row` and `parse_row`: a row is one line of text. `send` may
accept only the front of it, and nobody looks at how much it took.
-/

namespace Utcp.Framing

open Lines
open Utcp.Tcp

/-- The arguments of `lstm_client_send_row`. -/
structure RowArgs where
  tsUs : U64
  rttUs : U32
  srttUs : U32
  rttvarUs : U32
  rtoUs : U32
  minRttUs : U64
  queueDelayUs : U64
  rttDeltaUs : U32
  rttAccelUs : U32
  rtoDeltaUs : U32
  cwnd : U32
  ssthresh : U32
  sndWnd : U32
  flightSize : U32
  newlyAcked : U32
  interAckUs : U64
  caState : U32
  tDupacks : U32
  tRxtshift : U32
  isDupAck : U32
  isTimeout : U32

/-- The values in the order of the format; the delay and the three deltas are signed. -/
def RowArgs.fields (r : RowArgs) : List ℤ :=
  [r.tsUs.toNat, r.rttUs.toNat, r.srttUs.toNat, r.rttvarUs.toNat, r.rtoUs.toNat, r.minRttUs.toNat,
    r.queueDelayUs.toInt, r.rttDeltaUs.toInt, r.rttAccelUs.toInt, r.rtoDeltaUs.toInt,
    r.cwnd.toNat, r.ssthresh.toNat, r.sndWnd.toNat, r.flightSize.toNat, r.newlyAcked.toNat,
    r.interAckUs.toNat, r.caState.toNat, r.tDupacks.toNat, r.tRxtshift.toNat, r.isDupAck.toNat,
    r.isTimeout.toNat]

/-- `%llu`, `%u`, `%lld` and `%d`. -/
def decimal (z : ℤ) : List Char :=
  if z < 0 then '-' :: Nat.toDigits 10 z.natAbs else Nat.toDigits 10 z.natAbs

/-- A row without its newline. -/
def RowArgs.line (r : RowArgs) : List Char := [','].intercalate (r.fields.map decimal)

/-- What `snprintf` leaves in `buf`, a `char[512]`. -/
def RowArgs.buf (r : RowArgs) : List Char := (r.line ++ ['\n']).take 511

/-- `float` of a text that holds signs and digits only; `double` converts an integer. -/
def pyFloat {F : Type*} (double : ℤ → F) (s : List Char) : Option F :=
  let (negative, digits) : Bool × List Char :=
    match s with
    | '-' :: rest => (true, rest)
    | _ => (false, s)
  if digits ≠ [] ∧ digits.all Char.isDigit then
    let n : ℤ := Nat.ofDigitChars 10 digits 0
    some (double (if negative then -n else n))
  else none

/-- What `strip` removes. -/
def isSpace (c : Char) : Bool :=
  (9 ≤ c.toNat && c.toNat ≤ 13) || (28 ≤ c.toNat && c.toNat ≤ 32)

def strip (line : List Char) : List Char :=
  ((line.dropWhile isSpace).reverse.dropWhile isSpace).reverse

/-- `len(RAW_COLS)`. -/
def nCols : Nat := 21

def parseRow {F : Type*} (double : ℤ → F) (line : List Char) : Option (List F) :=
  let parts := (strip line).splitOn ','
  if parts.length ≠ nCols then none else parts.mapM (pyFloat double)

variable {F : Type*} {double : ℤ → F}

theorem isDigit_toDigits {n : Nat} {c : Char} (h : c ∈ Nat.toDigits 10 n) : c.isDigit :=
  Nat.isDigit_of_mem_toDigits (by decide) (by decide) h

/-- The characters of a value. -/
def isNumeral (c : Char) : Bool := c.isDigit || c = '-'

theorem isNumeral_decimal {z : ℤ} {c : Char} (h : c ∈ decimal z) : isNumeral c := by
  rw [isNumeral, Bool.or_eq_true, decide_eq_true_eq]
  rw [decimal] at h
  split at h
  · rcases List.mem_cons.mp h with rfl | h
    · exact .inr rfl
    · exact .inl (isDigit_toDigits h)
  · exact .inl (isDigit_toDigits h)

theorem pyFloat_digits {digits : List Char} (hne : digits ≠ [])
    (hdigits : ∀ c ∈ digits, c.isDigit) :
    pyFloat double digits = some (double (Nat.ofDigitChars 10 digits 0)) := by
  rcases digits with - | ⟨c, rest⟩
  · exact absurd rfl hne
  · have hc : c ≠ '-' := by
      rintro rfl
      exact absurd (hdigits '-' List.mem_cons_self) (by decide)
    have hall : (c :: rest).all Char.isDigit := List.all_eq_true.mpr hdigits
    simp [pyFloat, hc, -List.all_cons, hall]

theorem pyFloat_decimal (z : ℤ) : pyFloat double (decimal z) = some (double z) := by
  have hne : Nat.toDigits 10 z.natAbs ≠ [] := Nat.toDigits_ne_nil
  have hall : (Nat.toDigits 10 z.natAbs).all Char.isDigit := by
    rw [List.all_eq_true]
    intro c hc
    exact isDigit_toDigits hc
  rw [decimal]
  split
  · rename_i hneg
    simp only [pyFloat, hne, hall, Nat.ofDigitChars_ten_toDigits, ne_eq, not_false_eq_true,
      and_self, if_true]
    rw [show -(z.natAbs : ℤ) = z by omega]
  · rw [pyFloat_digits hne (fun c hc => isDigit_toDigits hc), Nat.ofDigitChars_ten_toDigits,
      show ((z.natAbs : Nat) : ℤ) = z by omega]

/-- The characters of a line. -/
def isText (c : Char) : Bool := isNumeral c || c = ','

theorem isSpace_of_isText {c : Char} (h : isText c) : isSpace c = false := by
  simp only [isText, isNumeral, Char.isDigit, Bool.or_eq_true, Bool.and_eq_true,
    decide_eq_true_eq] at h
  have hcode : 44 ≤ c.toNat := by
    rcases h with (⟨h, -⟩ | rfl) | rfl
    · exact Nat.le_trans (by decide) h
    · decide
    · decide
  simp [isSpace]
  omega

theorem strip_of_forall {line : List Char} (h : ∀ c ∈ line, isText c) : strip line = line := by
  have hdrop : ∀ cs : List Char, (∀ c ∈ cs, isText c) → cs.dropWhile isSpace = cs := by
    intro cs hcs
    rcases cs with - | ⟨c, cs⟩
    · rfl
    · rw [List.dropWhile_cons, isSpace_of_isText (hcs c List.mem_cons_self)]
      rfl
  rw [strip, hdrop line h, hdrop line.reverse, List.reverse_reverse]
  intro c hc
  exact h c (List.mem_reverse.mp hc)

theorem not_comma_of_isNumeral {c : Char} (h : isNumeral c) : c ≠ ',' := by
  rintro rfl
  exact absurd h (by decide)

theorem isText_intercalate {parts : List (List Char)} (h : ∀ part ∈ parts, ∀ c ∈ part, isNumeral c)
    {c : Char} (hc : c ∈ [','].intercalate parts) : isText c := by
  rw [isText, Bool.or_eq_true, decide_eq_true_eq]
  induction parts with
  | nil => simp at hc
  | cons part rest ih =>
      rw [List.forall_mem_cons] at h
      rcases rest with - | ⟨next, rest⟩
      · exact .inl (h.1 c (by simpa using hc))
      · rw [List.intercalate_cons_cons, List.mem_append, List.mem_append, List.mem_singleton] at hc
        rcases hc with (hc | hc) | hc
        · exact .inl (h.1 c hc)
        · exact .inr hc
        · exact ih h.2 hc

theorem parseRow_intercalate {parts : List (List Char)}
    (h : ∀ part ∈ parts, ∀ c ∈ part, isNumeral c) (hlen : parts.length = nCols) :
    parseRow double ([','].intercalate parts) = parts.mapM (pyFloat double) := by
  have hne : parts ≠ [] := by
    rintro rfl
    cases hlen
  have hcomma : ∀ part ∈ parts, ',' ∉ part := by
    intro part hpart hmem
    exact not_comma_of_isNumeral (h part hpart ',' hmem) rfl
  rw [parseRow, strip_of_forall (fun c hc => isText_intercalate h hc),
    List.splitOn_intercalate ',' hcomma hne]
  exact if_neg (not_not_intro hlen)

theorem length_fields (r : RowArgs) : r.fields.length = nCols := rfl

theorem isNumeral_fields {r : RowArgs} :
    ∀ part ∈ r.fields.map decimal, ∀ c ∈ part, isNumeral c := by
  intro part hpart c hc
  obtain ⟨z, -, rfl⟩ := List.mem_map.mp hpart
  exact isNumeral_decimal hc

theorem isText_line {r : RowArgs} {c : Char} (hc : c ∈ r.line) : isText c :=
  isText_intercalate isNumeral_fields hc

theorem mapM_decimal (zs : List ℤ) :
    (zs.map decimal).mapM (pyFloat double) = some (zs.map double) := by
  induction zs with
  | nil => rfl
  | cons z zs ih =>
      rw [List.map_cons, List.mapM_cons, pyFloat_decimal, ih]
      rfl

theorem parseRow_line (r : RowArgs) : parseRow double r.line = some (r.fields.map double) := by
  rw [RowArgs.line, parseRow_intercalate isNumeral_fields (by rw [List.length_map, length_fields]),
    mapM_decimal]

/-- A line that begins with the front of other lines, all cut inside their first
field, has the right number of columns. -/
theorem parseRow_digits_line {front : List Char} (hfront : ∀ c ∈ front, c.isDigit) (r : RowArgs) :
    ∃ vals, parseRow double (front ++ r.line) = some vals := by
  have hparts : front ++ r.line =
      [','].intercalate ((front ++ Nat.toDigits 10 r.tsUs.toNat) ::
        r.fields.tail.map decimal) := by
    simp [RowArgs.line, RowArgs.fields, decimal]
  have hdigits : ∀ c ∈ front ++ Nat.toDigits 10 r.tsUs.toNat, c.isDigit := by
    intro c hc
    rcases List.mem_append.mp hc with hc | hc
    · exact hfront c hc
    · exact isDigit_toDigits hc
  rw [hparts, parseRow_intercalate]
  · rw [List.mapM_cons, mapM_decimal, pyFloat_digits (by simp [Nat.toDigits_ne_nil]) hdigits]
    exact ⟨_, rfl⟩
  · rw [List.forall_mem_cons]
    constructor
    · intro c hc
      rw [isNumeral, hdigits c hc, Bool.true_or]
    · intro part hpart
      exact isNumeral_fields part (List.mem_of_mem_tail (by rwa [List.map_tail] at hpart))
  · simp [RowArgs.fields, nCols]

theorem length_splitOn_append (xs ys : List Char) :
    (ys.splitOn ',').length ≤ ((xs ++ ys).splitOn ',').length := by
  induction xs with
  | nil => exact Nat.le_refl _
  | cons x xs ih =>
      rw [List.cons_append, List.splitOn_cons_eq_if_modifyHead]
      split
      · rw [List.length_cons]
        omega
      · rw [List.length_modifyHead]
        exact ih

theorem parseRow_comma_line {front : List Char} (hfront : ∀ c ∈ front, isText c)
    (hcomma : ',' ∈ front) (r : RowArgs) : parseRow double (front ++ r.line) = none := by
  have htext : ∀ c ∈ front ++ r.line, isText c := by
    intro c hc
    rcases List.mem_append.mp hc with hc | hc
    · exact hfront c hc
    · exact isText_line hc
  have hcols : (r.line.splitOn ',').length = nCols := by
    have hcomma : ∀ part ∈ r.fields.map decimal, ',' ∉ part := by
      intro part hpart hmem
      exact not_comma_of_isNumeral (isNumeral_fields part hpart ',' hmem) rfl
    rw [RowArgs.line, List.splitOn_intercalate ',' hcomma (by simp [RowArgs.fields]),
      List.length_map]
    rfl
  obtain ⟨before, behind, rfl⟩ := List.append_of_mem hcomma
  rw [parseRow, strip_of_forall htext]
  apply if_pos
  have hlonger := length_splitOn_append behind r.line
  have hbefore := List.length_pos_of_ne_nil (List.splitOn_ne_nil ',' before)
  rw [List.append_assoc, List.cons_append, List.splitOn_append_cons_self, List.length_append]
  omega

theorem length_decimal {z : ℤ} (hlow : -(10 ^ 19) < z) (hhigh : z < 10 ^ 20) :
    (decimal z).length ≤ 20 := by
  rw [decimal]
  split
  · rw [List.length_cons, Nat.succ_le_succ_iff, Nat.length_toDigits_le_iff (by decide) (by decide)]
    omega
  · rw [Nat.length_toDigits_le_iff (by decide) (by decide)]
    omega

theorem fields_bounds {r : RowArgs} {z : ℤ} (hz : z ∈ r.fields) : -(10 ^ 19) < z ∧ z < 10 ^ 20 := by
  have hunsigned : ∀ {w : Nat} (x : BitVec w), w ≤ 64 →
      -(10 ^ 19) < (x.toNat : ℤ) ∧ (x.toNat : ℤ) < 10 ^ 20 := by
    intro w x hw
    have hlt := x.isLt
    have hpow : 2 ^ w ≤ 2 ^ 64 := Nat.pow_le_pow_right (by decide) hw
    omega
  have hsigned : ∀ {w : Nat} (x : BitVec w), w ≤ 64 → -(10 ^ 19) < x.toInt ∧ x.toInt < 10 ^ 20 := by
    intro w x hw
    have hu := hunsigned x hw
    have hpow : 2 ^ w ≤ 2 ^ 64 := Nat.pow_le_pow_right (by decide) hw
    rw [BitVec.toInt_eq_toNat_cond]
    split <;> omega
  simp only [RowArgs.fields, List.mem_cons, List.not_mem_nil, or_false] at hz
  rcases hz with rfl | rfl | rfl | rfl | rfl | rfl | rfl | rfl | rfl | rfl | rfl | rfl | rfl |
    rfl | rfl | rfl | rfl | rfl | rfl | rfl | rfl
  all_goals first
    | exact hunsigned _ (by decide)
    | exact hsigned _ (by decide)

theorem length_intercalate_le {parts : List (List Char)} {n : Nat}
    (h : ∀ part ∈ parts, part.length ≤ n) :
    ([','].intercalate parts).length ≤ parts.length * (n + 1) := by
  induction parts with
  | nil => simp
  | cons part rest ih =>
      rw [List.forall_mem_cons] at h
      have hrest := ih h.2
      rcases rest with - | ⟨next, rest⟩
      · simp
        omega
      · rw [List.intercalate_cons_cons, List.length_append, List.length_append,
          List.length_singleton, List.length_cons, Nat.succ_mul]
        omega

theorem buf_eq (r : RowArgs) : r.buf = r.line ++ ['\n'] := by
  have hfields : ∀ part ∈ r.fields.map decimal, part.length ≤ 20 := by
    intro part hpart
    obtain ⟨z, hz, rfl⟩ := List.mem_map.mp hpart
    exact length_decimal (fields_bounds hz).1 (fields_bounds hz).2
  have hline := length_intercalate_le hfields
  rw [RowArgs.buf, List.take_of_length_le]
  rw [List.length_append, List.length_singleton, RowArgs.line]
  rw [List.length_map, length_fields, nCols] at hline
  omega

/-- A call of `lstm_client_send_row`, and how many bytes `send` accepted. -/
structure Call where
  row : RowArgs
  accepted : Nat

def Call.bytes (call : Call) : List Char := call.row.buf.take call.accepted

/-- The bytes in the socket, each with the number of the call it comes from. -/
def bytesFrom (i : Nat) : List Call → List (Nat × Char)
  | [] => []
  | call :: rest => call.bytes.map (Prod.mk i) ++ bytesFrom (i + 1) rest

def isNewline (byte : Nat × Char) : Bool := byte.2 = '\n'

/-- A line that the reader accepts is that of one call: every byte comes from
it, and the values are its arguments. -/
def OfOneCall (double : ℤ → F) (calls : List Call) (line : List (Nat × Char)) : Prop :=
  ∀ vals, parseRow double (line.map Prod.snd) = some vals →
    ∃ i call, calls[i]? = some call ∧ (∀ byte ∈ line, byte.1 = i) ∧
      vals = call.row.fields.map double

/-- Rows are framed, however the bytes arrive. -/
def Framed (double : ℤ → F) (calls : List Call) : Prop :=
  ∀ chunks : List (List (Nat × Char)), chunks.flatten = bytesFrom 0 calls →
    ∀ line ∈ (readPieces isNewline chunks).1, OfOneCall double calls line

def Call.complete (call : Call) : Bool := call.row.buf.length ≤ call.accepted

/-- The cut is behind the first comma. -/
def Call.pastFirstField (call : Call) : Bool := (decimal call.row.tsUs.toNat).length < call.accepted

/-- The cut rows before a complete one, back to the complete one before, add
nothing to it, or one of them adds a comma; `cut` are those seen so far. -/
def CutsShow (cut : List Call) : List Call → Prop
  | [] => True
  | call :: rest =>
      if call.complete then
        ((∀ c ∈ cut, c.accepted = 0) ∨ ∃ c ∈ cut, c.pastFirstField) ∧ CutsShow [] rest
      else CutsShow (cut ++ [call]) rest

theorem bytesFrom_append (i : Nat) (calls calls' : List Call) :
    bytesFrom i (calls ++ calls') = bytesFrom i calls ++ bytesFrom (i + calls.length) calls' := by
  induction calls generalizing i with
  | nil => rfl
  | cons call rest ih =>
      rw [List.cons_append, bytesFrom, bytesFrom, ih, List.append_assoc, List.length_cons,
        Nat.add_assoc, Nat.add_comm 1]

/-- The text of some calls. -/
def textOf (calls : List Call) : List Char := calls.flatMap Call.bytes

theorem bytesFrom_text (i : Nat) (calls : List Call) :
    (bytesFrom i calls).map Prod.snd = textOf calls := by
  induction calls generalizing i with
  | nil => rfl
  | cons call rest ih =>
      rw [bytesFrom, List.map_append, ih, List.map_map, textOf, textOf, List.flatMap_cons]
      congr 1
      exact List.map_id _

theorem bytesFrom_tag {i : Nat} {calls : List Call} {byte : Nat × Char}
    (h : byte ∈ bytesFrom i calls) : byte.1 < i + calls.length := by
  induction calls generalizing i with
  | nil => cases h
  | cons call rest ih =>
      rw [List.length_cons]
      rcases List.mem_append.mp h with h | h
      · obtain ⟨c, -, rfl⟩ := List.mem_map.mp h
        simp
      · have := ih h
        omega

theorem line_eq (r : RowArgs) :
    ∃ tail, r.line = Nat.toDigits 10 r.tsUs.toNat ++ ',' :: tail := by
  refine ⟨[','].intercalate (r.fields.tail.map decimal), ?_⟩
  simp [RowArgs.line, RowArgs.fields, decimal]

theorem decimal_natCast (n : Nat) : decimal n = Nat.toDigits 10 n := by
  rw [decimal, if_neg (by omega), Int.natAbs_natCast]

theorem bytes_of_complete {call : Call} (h : call.complete) :
    call.bytes = call.row.line ++ ['\n'] := by
  rw [Call.bytes, List.take_of_length_le (of_decide_eq_true h), buf_eq]

theorem bytes_of_cut {call : Call} (h : call.complete = false) :
    call.bytes = call.row.line.take call.accepted := by
  have hlt : call.accepted < call.row.buf.length := Nat.lt_of_not_le (of_decide_eq_false h)
  rw [buf_eq, List.length_append, List.length_singleton] at hlt
  rw [Call.bytes, buf_eq, List.take_append_of_le_length (by omega)]

section cut

variable {cut : List Call} (hcut : ∀ c ∈ cut, c.complete = false)
include hcut

theorem isText_cut {c : Char} (hc : c ∈ textOf cut) : isText c := by
  obtain ⟨call, hcall, hc⟩ := List.mem_flatMap.mp hc
  rw [bytes_of_cut (hcut call hcall)] at hc
  exact isText_line (List.mem_of_mem_take hc)

theorem comma_mem_cut (hpast : ∃ c ∈ cut, c.pastFirstField) : ',' ∈ textOf cut := by
  obtain ⟨call, hcall, hpast⟩ := hpast
  refine List.mem_flatMap.mpr ⟨call, hcall, ?_⟩
  obtain ⟨tail, hline⟩ := line_eq call.row
  have hlen : (Nat.toDigits 10 call.row.tsUs.toNat).length < call.accepted := by
    rw [← decimal_natCast]
    exact of_decide_eq_true hpast
  obtain ⟨n, hn⟩ := Nat.exists_eq_add_of_lt hlen
  rw [bytes_of_cut (hcut call hcall), hline, hn, Nat.add_assoc, List.take_length_add_append]
  simp

theorem isDigit_cut (hinside : ∀ c ∈ cut, c.pastFirstField = false) {c : Char}
    (hc : c ∈ textOf cut) : c.isDigit := by
  obtain ⟨call, hcall, hc⟩ := List.mem_flatMap.mp hc
  obtain ⟨tail, hline⟩ := line_eq call.row
  have hlen : call.accepted ≤ (Nat.toDigits 10 call.row.tsUs.toNat).length := by
    rw [← decimal_natCast]
    exact Nat.le_of_not_lt (of_decide_eq_false (hinside call hcall))
  rw [bytes_of_cut (hcut call hcall), hline, List.take_append_of_le_length hlen] at hc
  exact isDigit_toDigits (List.mem_of_mem_take hc)

theorem textOf_ne_nil (hsome : ∃ c ∈ cut, c.accepted ≠ 0) : textOf cut ≠ [] := by
  obtain ⟨call, hcall, hne⟩ := hsome
  intro hnil
  obtain ⟨tail, hline⟩ := line_eq call.row
  have hbytes := List.flatMap_eq_nil_iff.mp hnil call hcall
  rw [bytes_of_cut (hcut call hcall), List.take_eq_nil_iff, hline] at hbytes
  simp [hne] at hbytes

end cut

theorem ofOneCall_iff {calls pre cut rest : List Call} {call : Call}
    (hcalls : calls = pre ++ cut ++ call :: rest) (hcut : ∀ c ∈ cut, c.complete = false) :
    OfOneCall double calls (bytesFrom pre.length cut ++
        call.row.line.map (Prod.mk (pre.length + cut.length))) ↔
      (∀ c ∈ cut, c.accepted = 0) ∨ ∃ c ∈ cut, c.pastFirstField := by
  have htext : (bytesFrom pre.length cut ++
      call.row.line.map (Prod.mk (pre.length + cut.length))).map Prod.snd =
      textOf cut ++ call.row.line := by
    rw [List.map_append, bytesFrom_text, List.map_map]
    congr 1
    exact List.map_id _
  rw [OfOneCall, htext]
  constructor
  · intro hone
    by_contra hshow
    push Not at hshow
    obtain ⟨hsome, hinside⟩ := hshow
    have hinside' : ∀ c ∈ cut, c.pastFirstField = false := by
      intro c hc
      exact Bool.eq_false_iff.mpr (hinside c hc)
    obtain ⟨vals, hvals⟩ : ∃ vals, parseRow double (textOf cut ++ call.row.line) = some vals :=
      parseRow_digits_line (fun c hc => isDigit_cut hcut hinside' hc) call.row
    obtain ⟨i, -, -, htags, -⟩ := hone vals hvals
    obtain ⟨byte, hbyte⟩ : ∃ byte, byte ∈ bytesFrom pre.length cut := by
      apply List.exists_mem_of_ne_nil
      intro hnil
      apply textOf_ne_nil hcut hsome
      rw [← bytesFrom_text pre.length, hnil, List.map_nil]
    obtain ⟨tail, hline⟩ := line_eq call.row
    have hfront := bytesFrom_tag hbyte
    have hi := htags byte (List.mem_append_left _ hbyte)
    have hi' := htags (pre.length + cut.length, ',') (List.mem_append_right _
      (List.mem_map.mpr ⟨',', by rw [hline]; simp, rfl⟩))
    omega
  · rintro (hzero | hpast) vals hvals
    · have hempty : textOf cut = [] := by
        rw [textOf, List.flatMap_eq_nil_iff]
        intro c hc
        rw [Call.bytes, hzero c hc, List.take_zero]
      have hnone : bytesFrom pre.length cut = [] := by
        rw [← List.map_eq_nil_iff (f := Prod.snd), bytesFrom_text, hempty]
      rw [hempty, List.nil_append, parseRow_line, Option.some.injEq] at hvals
      refine ⟨pre.length + cut.length, call, ?_, ?_, hvals.symm⟩
      · rw [hcalls, ← List.length_append, List.getElem?_append_right (Nat.le_refl _)]
        simp
      · intro byte hbyte
        rw [hnone, List.nil_append] at hbyte
        obtain ⟨c, -, rfl⟩ := List.mem_map.mp hbyte
        rfl
    · rw [parseRow_comma_line (fun c hc => isText_cut hcut hc) (comma_mem_cut hcut hpast)] at hvals
      cases hvals

theorem isNewline_of_isText {byte : Nat × Char} (h : isText byte.2) : isNewline byte = false := by
  rw [isNewline, decide_eq_false_iff_not]
  intro hnewline
  rw [hnewline] at h
  exact absurd h (by decide)

theorem no_newline_cut {i : Nat} {cut : List Call} (hcut : ∀ c ∈ cut, c.complete = false) :
    ∀ byte ∈ bytesFrom i cut, isNewline byte = false := by
  intro byte hbyte
  apply isNewline_of_isText
  apply isText_cut hcut
  rw [← bytesFrom_text i]
  exact List.mem_map_of_mem hbyte

theorem lines_iff {calls pre cut rest : List Call} (hcalls : calls = pre ++ cut ++ rest)
    (hcut : ∀ c ∈ cut, c.complete = false) :
    (∀ line ∈ (splitLines isNewline (bytesFrom pre.length (cut ++ rest))).1,
      OfOneCall double calls line) ↔ CutsShow cut rest := by
  induction rest generalizing pre cut with
  | nil =>
      rw [List.append_nil, splitLines_of_forall (no_newline_cut hcut)]
      simp [CutsShow]
  | cons call rest ih =>
      rw [CutsShow]
      rcases hcomplete : call.complete with - | -
      · rw [if_neg Bool.false_ne_true, ← ih (by simpa using hcalls), List.append_assoc,
          List.singleton_append]
        intro c hc
        rcases List.mem_append.mp hc with hc | hc
        · exact hcut c hc
        · rw [List.mem_singleton.mp hc]
          exact hcomplete
      · have hbytes : bytesFrom pre.length (cut ++ call :: rest) =
            bytesFrom pre.length cut ++ call.row.line.map (Prod.mk (pre.length + cut.length)) ++
              (pre.length + cut.length, '\n') ::
                bytesFrom (pre ++ cut ++ [call]).length ([] ++ rest) := by
          rw [bytesFrom_append, bytesFrom, bytes_of_complete hcomplete]
          simp [Nat.add_assoc]
        have hline : ∀ byte ∈ bytesFrom pre.length cut ++
            call.row.line.map (Prod.mk (pre.length + cut.length)), isNewline byte = false := by
          intro byte hbyte
          rcases List.mem_append.mp hbyte with hbyte | hbyte
          · exact no_newline_cut hcut byte hbyte
          · obtain ⟨c, hc, rfl⟩ := List.mem_map.mp hbyte
            exact isNewline_of_isText (isText_line hc)
        rw [if_pos rfl, hbytes, splitLines_line hline rfl, List.forall_mem_cons,
          ofOneCall_iff hcalls hcut, ih (by simpa using hcalls) (by simp)]

/-- Rows are framed exactly when every cut shows. -/
theorem framed_iff (calls : List Call) : Framed double calls ↔ CutsShow [] calls := by
  have hlines : (∀ line ∈ (splitLines isNewline (bytesFrom 0 calls)).1,
      OfOneCall double calls line) ↔ CutsShow [] calls := by
    have h := @lines_iff F double calls [] [] calls rfl (by simp)
    exact h
  rw [← hlines]
  constructor
  · intro h
    have hone := h [bytesFrom 0 calls] (by simp)
    rwa [readPieces_eq, List.flatten_singleton] at hone
  · intro h chunks hchunks
    rw [readPieces_eq, hchunks]
    exact h

/-- A row of zeros at a time. -/
def rowAt (tsUs : U64) : RowArgs :=
  ⟨tsUs, 0, 0, 0, 0, 0, 0, 0, 0, 0, 0, 0, 0, 0, 0, 0, 0, 0, 0, 0, 0⟩

/-- The first digit of one row in front of the next gives a time that no call sent. -/
theorem framed_fails : ¬ ∀ calls : List Call, Framed (id : ℤ → ℤ) calls := by
  intro h
  have hlines := h [⟨rowAt 12, 1⟩, ⟨rowAt 13, 512⟩] [bytesFrom 0 [⟨rowAt 12, 1⟩, ⟨rowAt 13, 512⟩]]
    (by simp)
  rw [readPieces_eq, List.flatten_singleton] at hlines
  have hshow : CutsShow [] [⟨rowAt 12, 1⟩, ⟨rowAt 13, 512⟩] :=
    (@lines_iff ℤ id _ [] [] _ rfl (by simp)).mp hlines
  have hcut : Call.complete ⟨rowAt 12, 1⟩ = false := by decide
  have hinside : Call.pastFirstField ⟨rowAt 12, 1⟩ = false := by decide
  have hcomplete : Call.complete ⟨rowAt 13, 512⟩ = true := by decide
  simp [CutsShow] at hshow
  exact Bool.false_ne_true (hinside.symm.trans (hshow hcut hcomplete))

end Utcp.Framing
