import Utcp.Wire

/-!
Which bytes of the receive buffer the option walkers read. They stop at the end
of the header that the segment claims, not at the end of what was received.
-/

namespace Utcp.OptionReads

open Utcp.Tcp
open Utcp.Utils
open Utcp.Output
open Utcp.CongestionControl
open Utcp.Timers
open Utcp.Input
open Utcp.Api
open Utcp.Wire

/-- The value bytes `process_window_option` reads of a well placed option. -/
def valueReads (mem : Nat → U8) (optPtr : Nat) : List Nat :=
  if mem optPtr = tcpoptWindow ∧ mem (optPtr + 1) = tcpolenWindow then [optPtr + 2]
  else if mem optPtr = tcpoptTimestamp ∧ mem (optPtr + 1) = tcpolenTimestamp then
    [optPtr + 2, optPtr + 3, optPtr + 4, optPtr + 5]
  else []

/-- The reads of the loop of `process_window_option`. -/
def walkReads (mem : Nat → U8) (optEnd : Nat) : Nat → Nat → List Nat
  | 0, _ => []
  | fuel + 1, optPtr =>
      if optEnd ≤ optPtr then []
      else if mem optPtr = tcpoptEol then [optPtr]
      else if mem optPtr = tcpoptNop then optPtr :: walkReads mem optEnd fuel (optPtr + 1)
      else
        let optLen := (mem (optPtr + 1)).toNat
        if optLen = 0 ∨ optEnd < optPtr + optLen then [optPtr, optPtr + 1]
        else optPtr :: (optPtr + 1) ::
          (valueReads mem optPtr ++ walkReads mem optEnd fuel (optPtr + optLen))

/-- The reads of the loop of `extract_tsecr`. -/
def tsecrReads (mem : Nat → U8) (endPtr : Nat) : Nat → Nat → List Nat
  | 0, _ => []
  | fuel + 1, p =>
      if endPtr ≤ p then []
      else if mem p = tcpoptEol then [p]
      else if mem p = tcpoptNop then p :: tsecrReads mem endPtr fuel (p + 1)
      else if endPtr ≤ p + 1 then [p]
      else
        let len := mem (p + 1)
        if len.toNat < 2 ∨ endPtr < p + len.toNat then [p, p + 1]
        else if mem p = tcpoptTimestamp ∧ len = tcpolenTimestamp then
          [p, p + 1, p + 6, p + 7, p + 8, p + 9]
        else p :: (p + 1) :: tsecrReads mem endPtr fuel (p + len.toNat)

/-- The option bytes read of a segment, counted from the end of the fixed header. -/
def optionReads (env : Env) (seg : TcpSegment) : List Nat :=
  let optEnd := dataOffset seg.hdr - sizeofTcpHdr
  walkReads (byteAt env seg) optEnd optEnd 0 ++ tsecrReads (byteAt env seg) optEnd optEnd 0

/-- `deserialize_utcp_packet` and `utcp_input` for a datagram in a buffer with
the given old content. -/
def processDatagram (env : Env) (tcb : Tcb) (peer : Peer) (stale : Nat → U8) (bytes : List U8) :
    Option Out := do
  let seg ← deserializeUtcpPacket (received stale bytes) bytes.length
  utcpInput (Env.over env (received stale bytes)) tcb seg peer

/-- The datagram is interpreted from its own bytes: the old content of the
buffer makes no difference, and every option byte read is one that was received
and lies inside the header. -/
structure OwnBytesOnly (bytes : List U8) : Prop where
  same : ∀ env tcb peer stale stale',
    processDatagram env tcb peer stale bytes = processDatagram env tcb peer stale' bytes
  reads : ∀ env stale seg, deserializeUtcpPacket (received stale bytes) bytes.length = some seg →
    ∀ i ∈ optionReads (Env.over env (received stale bytes)) seg,
      sizeofTcpHdr + i < bytes.length ∧ sizeofTcpHdr + i < dataOffset seg.hdr

/-- The value bytes an option must have: `echo` tells whether the echoed
timestamp is still looked for. -/
def valueLength (echo : Bool) (kind len : U8) : Nat :=
  if kind = tcpoptWindow ∧ len = tcpolenWindow then 1
  else if kind = tcpoptTimestamp ∧ len = tcpolenTimestamp then (if echo then 8 else 4)
  else 0

/-- Whether the echoed timestamp is still looked for behind an option. -/
def echoBehind (echo : Bool) (kind len : U8) : Bool :=
  echo && decide (2 ≤ len.toNat) && !decide (kind = tcpoptTimestamp ∧ len = tcpolenTimestamp)

/-- A list of options in `room` bytes of header, at the front of the bytes that
were received: each option that is reached has its kind, its length and the
value it needs among them. -/
inductive OptionList : Bool → Nat → List U8 → Prop
  | nil (echo : Bool) (bytes : List U8) : OptionList echo 0 bytes
  | eol (echo : Bool) (room : Nat) (bytes : List U8) :
      OptionList echo (room + 1) (tcpoptEol :: bytes)
  | nop {echo : Bool} {room : Nat} {bytes : List U8} (rest : OptionList echo room bytes) :
      OptionList echo (room + 1) (tcpoptNop :: bytes)
  | broken (echo : Bool) {room : Nat} {kind len : U8} (bytes : List U8)
      (hkind : kind ≠ tcpoptEol ∧ kind ≠ tcpoptNop)
      (hlen : len.toNat = 0 ∨ room + 2 < len.toNat) :
      OptionList echo (room + 2) (kind :: len :: bytes)
  | option {echo : Bool} {room : Nat} {kind len : U8} {bytes : List U8}
      (hkind : kind ≠ tcpoptEol ∧ kind ≠ tcpoptNop)
      (hlen : ¬ (len.toNat = 0 ∨ room + 2 < len.toNat))
      (hvalue : valueLength echo kind len ≤ bytes.length)
      (rest : OptionList (echoBehind echo kind len) (room + 2 - len.toNat)
        ((kind :: len :: bytes).drop len.toNat)) :
      OptionList echo (room + 2) (kind :: len :: bytes)

/-- The header of a datagram, as far as it says, holds a list of options that
was received. -/
def OptionsReceived (bytes : List U8) : Prop :=
  OptionList true ((bytes.getD 12 0 >>> 4).toNat * 4 - sizeofTcpHdr) (bytes.drop sizeofTcpHdr)

variable {mem mem' : Nat → U8} {optEnd p fuel : Nat}

theorem walkReads_done (h : optEnd ≤ p) : walkReads mem optEnd fuel p = [] := by
  cases fuel with
  | zero => rfl
  | succ fuel => rw [walkReads, if_pos h]

theorem walkReads_eol (hend : p < optEnd) (heol : mem p = tcpoptEol) :
    walkReads mem optEnd (fuel + 1) p = [p] := by
  rw [walkReads, if_neg (by omega), if_pos heol]

theorem walkReads_nop (hend : p < optEnd) (hnop : mem p = tcpoptNop) :
    walkReads mem optEnd (fuel + 1) p = p :: walkReads mem optEnd fuel (p + 1) := by
  have heol : ¬ mem p = tcpoptEol := by
    rw [hnop]
    decide
  rw [walkReads, if_neg (by omega), if_neg heol, if_pos hnop]

theorem walkReads_broken (hend : p < optEnd) (hkind : mem p ≠ tcpoptEol ∧ mem p ≠ tcpoptNop)
    (hlen : (mem (p + 1)).toNat = 0 ∨ optEnd < p + (mem (p + 1)).toNat) :
    walkReads mem optEnd (fuel + 1) p = [p, p + 1] := by
  rw [walkReads, if_neg (by omega), if_neg hkind.1, if_neg hkind.2]
  exact if_pos hlen

theorem walkReads_option (hend : p < optEnd) (hkind : mem p ≠ tcpoptEol ∧ mem p ≠ tcpoptNop)
    (hlen : ¬ ((mem (p + 1)).toNat = 0 ∨ optEnd < p + (mem (p + 1)).toNat)) :
    walkReads mem optEnd (fuel + 1) p = p :: (p + 1) ::
      (valueReads mem p ++ walkReads mem optEnd fuel (p + (mem (p + 1)).toNat)) := by
  rw [walkReads, if_neg (by omega), if_neg hkind.1, if_neg hkind.2]
  exact if_neg hlen

theorem tsecrReads_done (h : optEnd ≤ p) : tsecrReads mem optEnd fuel p = [] := by
  cases fuel with
  | zero => rfl
  | succ fuel => rw [tsecrReads, if_pos h]

theorem tsecrReads_eol (hend : p < optEnd) (heol : mem p = tcpoptEol) :
    tsecrReads mem optEnd (fuel + 1) p = [p] := by
  rw [tsecrReads, if_neg (by omega), if_pos heol]

theorem tsecrReads_nop (hend : p < optEnd) (hnop : mem p = tcpoptNop) :
    tsecrReads mem optEnd (fuel + 1) p = p :: tsecrReads mem optEnd fuel (p + 1) := by
  have heol : ¬ mem p = tcpoptEol := by
    rw [hnop]
    decide
  rw [tsecrReads, if_neg (by omega), if_neg heol, if_pos hnop]

theorem tsecrReads_broken (hend : p + 1 < optEnd)
    (hkind : mem p ≠ tcpoptEol ∧ mem p ≠ tcpoptNop)
    (hlen : (mem (p + 1)).toNat < 2 ∨ optEnd < p + (mem (p + 1)).toNat) :
    tsecrReads mem optEnd (fuel + 1) p = [p, p + 1] := by
  rw [tsecrReads, if_neg (by omega), if_neg hkind.1, if_neg hkind.2, if_neg (by omega)]
  exact if_pos hlen

theorem tsecrReads_timestamp (hend : p + 1 < optEnd)
    (hkind : mem p ≠ tcpoptEol ∧ mem p ≠ tcpoptNop)
    (hlen : ¬ ((mem (p + 1)).toNat < 2 ∨ optEnd < p + (mem (p + 1)).toNat))
    (htimestamp : mem p = tcpoptTimestamp ∧ mem (p + 1) = tcpolenTimestamp) :
    tsecrReads mem optEnd (fuel + 1) p = [p, p + 1, p + 6, p + 7, p + 8, p + 9] := by
  rw [tsecrReads, if_neg (by omega), if_neg hkind.1, if_neg hkind.2, if_neg (by omega)]
  exact (if_neg hlen).trans (if_pos htimestamp)

theorem tsecrReads_option (hend : p + 1 < optEnd)
    (hkind : mem p ≠ tcpoptEol ∧ mem p ≠ tcpoptNop)
    (hlen : ¬ ((mem (p + 1)).toNat < 2 ∨ optEnd < p + (mem (p + 1)).toNat))
    (htimestamp : ¬ (mem p = tcpoptTimestamp ∧ mem (p + 1) = tcpolenTimestamp)) :
    tsecrReads mem optEnd (fuel + 1) p =
      p :: (p + 1) :: tsecrReads mem optEnd fuel (p + (mem (p + 1)).toNat) := by
  rw [tsecrReads, if_neg (by omega), if_neg hkind.1, if_neg hkind.2, if_neg (by omega)]
  exact (if_neg hlen).trans (if_neg htimestamp)

theorem wordAt_congr {i : Nat} (h : mem i = mem' i) (h1 : mem (i + 1) = mem' (i + 1))
    (h2 : mem (i + 2) = mem' (i + 2)) (h3 : mem (i + 3) = mem' (i + 3)) :
    wordAt mem i = wordAt mem' i := by
  rw [wordAt, wordAt, h, h1, h2, h3]

theorem takeValues_congr {optPtr : Nat} (tcb : Tcb) (hkind : mem optPtr = mem' optPtr)
    (hlen : mem (optPtr + 1) = mem' (optPtr + 1))
    (h : ∀ i ∈ valueReads mem optPtr, mem i = mem' i) :
    takeTimestamp mem optPtr (takeWindow mem optPtr tcb) =
      takeTimestamp mem' optPtr (takeWindow mem' optPtr tcb) := by
  unfold valueReads at h
  unfold takeTimestamp takeWindow
  rw [← hkind, ← hlen]
  by_cases hwindow : mem optPtr = tcpoptWindow ∧ mem (optPtr + 1) = tcpolenWindow
  · rw [if_pos hwindow] at h
    have hnot : ¬ (mem optPtr = tcpoptTimestamp ∧ mem (optPtr + 1) = tcpolenTimestamp) := by
      rw [hwindow.1]
      rintro ⟨hkind', -⟩
      exact absurd hkind' (by decide)
    rw [if_pos hwindow, if_pos hwindow, if_neg hnot, if_neg hnot,
      h (optPtr + 2) List.mem_cons_self]
  · rw [if_neg hwindow] at h
    rw [if_neg hwindow, if_neg hwindow]
    by_cases htimestamp : mem optPtr = tcpoptTimestamp ∧ mem (optPtr + 1) = tcpolenTimestamp
    · rw [if_pos htimestamp] at h
      have hword : wordAt mem (optPtr + 2) = wordAt mem' (optPtr + 2) :=
        wordAt_congr (h _ (by simp)) (h _ (by simp)) (h _ (by simp)) (h _ (by simp))
      rw [if_pos htimestamp, if_pos htimestamp, hword]
    · rw [if_neg htimestamp, if_neg htimestamp]

theorem walkOptions_congr (fuel : Nat) :
    ∀ (optPtr : Nat) (tcb : Tcb), (∀ i ∈ walkReads mem optEnd fuel optPtr, mem i = mem' i) →
      walkOptions mem optEnd fuel optPtr tcb = walkOptions mem' optEnd fuel optPtr tcb := by
  induction fuel with
  | zero => exact fun _ _ _ => rfl
  | succ fuel ih =>
      intro optPtr tcb h
      unfold walkReads at h
      unfold walkOptions
      by_cases hend : optEnd ≤ optPtr
      · rw [if_pos hend, if_pos hend]
      · rw [if_neg hend] at h ⊢
        rw [if_neg hend]
        have hkind : mem optPtr = mem' optPtr := by
          apply h
          split
          · exact List.mem_cons_self
          · split
            · exact List.mem_cons_self
            · dsimp only
              split
              · exact List.mem_cons_self
              · exact List.mem_cons_self
        rw [← hkind]
        by_cases heol : mem optPtr = tcpoptEol
        · rw [if_pos heol, if_pos heol]
        · rw [if_neg heol] at h ⊢
          rw [if_neg heol]
          by_cases hnop : mem optPtr = tcpoptNop
          · rw [if_pos hnop] at h ⊢
            rw [if_pos hnop]
            exact ih (optPtr + 1) tcb fun i hi => h i (List.mem_cons_of_mem _ hi)
          · rw [if_neg hnop] at h ⊢
            rw [if_neg hnop]
            dsimp only at h ⊢
            have hlen : mem (optPtr + 1) = mem' (optPtr + 1) := by
              apply h
              split
              · exact List.mem_cons_of_mem _ List.mem_cons_self
              · exact List.mem_cons_of_mem _ List.mem_cons_self
            rw [← hlen]
            by_cases hzero : (mem (optPtr + 1)).toNat = 0
            · rw [if_pos hzero, if_pos hzero]
            · by_cases hover : optEnd < optPtr + (mem (optPtr + 1)).toNat
              · rw [if_neg hzero, if_pos hover, if_neg hzero, if_pos hover]
              · rw [if_neg hzero, if_neg hover, if_neg hzero, if_neg hover]
                rw [if_neg (not_or.mpr ⟨hzero, hover⟩)] at h
                have hvalues := takeValues_congr tcb hkind hlen fun i hi =>
                  h i (List.mem_cons_of_mem _ (List.mem_cons_of_mem _ (List.mem_append_left _ hi)))
                rw [hvalues]
                exact ih _ _ fun i hi => h i (List.mem_cons_of_mem _ (List.mem_cons_of_mem _
                  (List.mem_append_right _ hi)))

theorem findTsecr_congr (fuel : Nat) :
    ∀ p : Nat, (∀ i ∈ tsecrReads mem optEnd fuel p, mem i = mem' i) →
      findTsecr mem optEnd fuel p = findTsecr mem' optEnd fuel p := by
  induction fuel with
  | zero => exact fun _ _ => rfl
  | succ fuel ih =>
      intro p h
      unfold tsecrReads at h
      unfold findTsecr
      by_cases hend : optEnd ≤ p
      · rw [if_pos hend, if_pos hend]
      · rw [if_neg hend] at h ⊢
        rw [if_neg hend]
        have hkind : mem p = mem' p := by
          apply h
          split
          · exact List.mem_cons_self
          · split
            · exact List.mem_cons_self
            · split
              · exact List.mem_cons_self
              · dsimp only
                split
                · exact List.mem_cons_self
                · split
                  · exact List.mem_cons_self
                  · exact List.mem_cons_self
        rw [← hkind]
        by_cases heol : mem p = tcpoptEol
        · rw [if_pos heol, if_pos heol]
        · rw [if_neg heol] at h ⊢
          rw [if_neg heol]
          by_cases hnop : mem p = tcpoptNop
          · rw [if_pos hnop] at h ⊢
            rw [if_pos hnop]
            exact ih (p + 1) fun i hi => h i (List.mem_cons_of_mem _ hi)
          · rw [if_neg hnop] at h ⊢
            rw [if_neg hnop]
            by_cases hlast : optEnd ≤ p + 1
            · rw [if_pos hlast, if_pos hlast]
            · rw [if_neg hlast] at h ⊢
              rw [if_neg hlast]
              dsimp only at h ⊢
              have hlen : mem (p + 1) = mem' (p + 1) := by
                apply h
                split
                · exact List.mem_cons_of_mem _ List.mem_cons_self
                · split
                  · exact List.mem_cons_of_mem _ List.mem_cons_self
                  · exact List.mem_cons_of_mem _ List.mem_cons_self
              rw [← hlen]
              by_cases hbad : (mem (p + 1)).toNat < 2 ∨ optEnd < p + (mem (p + 1)).toNat
              · rw [if_pos hbad, if_pos hbad]
              · rw [if_neg hbad] at h ⊢
                rw [if_neg hbad]
                by_cases htimestamp : mem p = tcpoptTimestamp ∧ mem (p + 1) = tcpolenTimestamp
                · rw [if_pos htimestamp] at h ⊢
                  rw [if_pos htimestamp]
                  have hword : wordAt mem (p + 6) = wordAt mem' (p + 6) :=
                    wordAt_congr (h _ (by simp)) (h _ (by simp)) (h _ (by simp)) (h _ (by simp))
                  rw [hword]
                · rw [if_neg htimestamp] at h ⊢
                  rw [if_neg htimestamp]
                  exact ih _ fun i hi => h i (List.mem_cons_of_mem _ (List.mem_cons_of_mem _ hi))

/-- A byte of the header that was received. -/
def Inside (optEnd : Nat) (data : List U8) (i : Nat) : Prop := i < data.length ∧ i < optEnd

variable {data : List U8}

theorem byte_of_drop {p : Nat} {first : U8} {rest : List U8}
    (hmem : ∀ i (h : i < data.length), mem i = data[i]) (h : data.drop p = first :: rest) :
    p < data.length ∧ mem p = first ∧ data.drop (p + 1) = rest := by
  have hlt : p < data.length := by
    by_contra hge
    rw [List.drop_eq_nil_of_le (by omega)] at h
    cases h
  rw [List.drop_eq_getElem_cons hlt] at h
  obtain ⟨hfirst, hrest⟩ := List.cons.inj h
  exact ⟨hlt, (hmem p hlt).trans hfirst, hrest⟩

/-- All bytes read are bytes of the header that were received. -/
def AllInside (optEnd : Nat) (data : List U8) (reads : List Nat) : Prop :=
  ∀ i ∈ reads, Inside optEnd data i

theorem allInside_nil : AllInside optEnd data [] := by
  intro i hi
  cases hi

theorem allInside_cons {i : Nat} {reads : List Nat} :
    AllInside optEnd data (i :: reads) ↔ Inside optEnd data i ∧ AllInside optEnd data reads :=
  List.forall_mem_cons

theorem allInside_append {reads reads' : List Nat} :
    AllInside optEnd data (reads ++ reads') ↔
      AllInside optEnd data reads ∧ AllInside optEnd data reads' :=
  List.forall_mem_append

theorem allInside_valueReads {kind len : U8} {bytes : List U8} {echo : Bool} (hkind : mem p = kind)
    (hlen : mem (p + 1) = len) (hbytes : data.length = p + 2 + bytes.length)
    (hend : p + len.toNat ≤ optEnd) (hvalue : valueLength echo kind len ≤ bytes.length) :
    AllInside optEnd data (valueReads mem p) := by
  unfold valueLength at hvalue
  unfold valueReads
  rw [hkind, hlen]
  by_cases hwindow : kind = tcpoptWindow ∧ len = tcpolenWindow
  · rw [if_pos hwindow] at hvalue ⊢
    have hthree : len.toNat = 3 := by
      rw [hwindow.2]
      rfl
    exact allInside_cons.mpr ⟨⟨by omega, by omega⟩, allInside_nil⟩
  · rw [if_neg hwindow] at hvalue ⊢
    by_cases htimestamp : kind = tcpoptTimestamp ∧ len = tcpolenTimestamp
    · have hten : len.toNat = 10 := by
        rw [htimestamp.2]
        rfl
      rw [if_pos htimestamp] at hvalue ⊢
      have hfour : 4 ≤ bytes.length := by
        cases echo with
        | true =>
            rw [if_pos rfl] at hvalue
            omega
        | false => exact hvalue
      simp only [allInside_cons]
      refine ⟨?_, ?_, ?_, ?_, allInside_nil⟩
      all_goals exact ⟨by omega, by omega⟩
    · rw [if_neg htimestamp]
      exact allInside_nil

theorem inside_of_optionList (hmem : ∀ i (h : i < data.length), mem i = data[i]) {echo : Bool}
    {room : Nat} {bytes : List U8} (h : OptionList echo room bytes) :
    ∀ p fuel, data.drop p = bytes → p + room = optEnd →
      AllInside optEnd data (walkReads mem optEnd fuel p) ∧
        (echo = true → AllInside optEnd data (tsecrReads mem optEnd fuel p)) := by
  intro p fuel hbytes hroom
  induction fuel generalizing echo room bytes p with
  | zero => exact ⟨allInside_nil, fun _ => allInside_nil⟩
  | succ fuel ih =>
      cases h with
      | nil =>
          rw [walkReads_done (by omega), tsecrReads_done (by omega)]
          exact ⟨allInside_nil, fun _ => allInside_nil⟩
      | eol room bytes =>
          obtain ⟨hlt, hkind, -⟩ := byte_of_drop hmem hbytes
          have hinside : AllInside optEnd data [p] :=
            allInside_cons.mpr ⟨⟨hlt, by omega⟩, allInside_nil⟩
          rw [walkReads_eol (by omega) hkind, tsecrReads_eol (by omega) hkind]
          exact ⟨hinside, fun _ => hinside⟩
      | @nop echo room bytes rest =>
          obtain ⟨hlt, hkind, hrest⟩ := byte_of_drop hmem hbytes
          obtain ⟨hwalk, htsecr⟩ := ih rest (p + 1) hrest (by omega)
          have hfirst : Inside optEnd data p := ⟨hlt, by omega⟩
          rw [walkReads_nop (by omega) hkind, tsecrReads_nop (by omega) hkind]
          exact ⟨allInside_cons.mpr ⟨hfirst, hwalk⟩,
            fun hecho => allInside_cons.mpr ⟨hfirst, htsecr hecho⟩⟩
      | @broken echo room kind len bytes hkind hlen =>
          obtain ⟨hlt, hbyte, hrest⟩ := byte_of_drop hmem hbytes
          obtain ⟨hlt', hbyte', -⟩ := byte_of_drop hmem hrest
          rw [← hbyte] at hkind
          rw [← hbyte'] at hlen
          have hinside : AllInside optEnd data [p, p + 1] := by
            rw [allInside_cons, allInside_cons]
            exact ⟨⟨hlt, by omega⟩, ⟨hlt', by omega⟩, allInside_nil⟩
          rw [walkReads_broken (by omega) hkind (by omega),
            tsecrReads_broken (by omega) hkind (by omega)]
          exact ⟨hinside, fun _ => hinside⟩
      | @option echo room kind len bytes hkind hlen hvalue rest =>
          obtain ⟨hlt, hbyte, hrest⟩ := byte_of_drop hmem hbytes
          obtain ⟨hlt', hbyte', hrest'⟩ := byte_of_drop hmem hrest
          have hbehind : data.drop (p + len.toNat) = (kind :: len :: bytes).drop len.toNat := by
            rw [← hbytes, List.drop_drop]
          have hlength : data.length = p + 2 + bytes.length := by
            rw [← hrest', List.length_drop]
            omega
          have hend : p + len.toNat ≤ optEnd := by omega
          have hvalues := allInside_valueReads hbyte hbyte' hlength hend hvalue
          obtain ⟨hwalk, htsecr⟩ := ih rest (p + len.toNat) hbehind (by omega)
          have hfirst : Inside optEnd data p := ⟨hlt, by omega⟩
          have hsecond : Inside optEnd data (p + 1) := ⟨hlt', by omega⟩
          rw [← hbyte'] at hwalk htsecr hlen
          rw [← hbyte] at hkind
          constructor
          · rw [walkReads_option (by omega) hkind (by omega), allInside_cons, allInside_cons,
              allInside_append]
            exact ⟨hfirst, hsecond, hvalues, hwalk⟩
          · rintro rfl
            by_cases hshort : (mem (p + 1)).toNat < 2
            · rw [tsecrReads_broken (by omega) hkind (.inl hshort), allInside_cons, allInside_cons]
              exact ⟨hfirst, hsecond, allInside_nil⟩
            · by_cases htimestamp : mem p = tcpoptTimestamp ∧ mem (p + 1) = tcpolenTimestamp
              · have hten : (mem (p + 1)).toNat = 10 := by
                  rw [htimestamp.2]
                  rfl
                have height : 8 ≤ bytes.length := by
                  rw [hbyte, hbyte'] at htimestamp
                  have hnot : ¬ (kind = tcpoptWindow ∧ len = tcpolenWindow) := by
                    rw [htimestamp.1]
                    rintro ⟨hwindow, -⟩
                    exact absurd hwindow (by decide)
                  unfold valueLength at hvalue
                  rwa [if_neg hnot, if_pos htimestamp, if_pos rfl] at hvalue
                rw [tsecrReads_timestamp (by omega) hkind (by omega) htimestamp]
                simp only [allInside_cons]
                refine ⟨hfirst, hsecond, ?_, ?_, ?_, ?_, allInside_nil⟩
                all_goals exact ⟨by omega, by omega⟩
              · rw [tsecrReads_option (by omega) hkind (by omega) htimestamp, allInside_cons,
                  allInside_cons]
                refine ⟨hfirst, hsecond, htsecr ?_⟩
                rw [hbyte] at htimestamp
                have hlong : 2 ≤ (mem (p + 1)).toNat := Nat.le_of_not_lt hshort
                rw [echoBehind, decide_eq_true hlong, decide_eq_false htimestamp]
                rfl

theorem valueLength_le {kind len : U8} {bytes : List U8} {echo : Bool} (hkind : mem p = kind)
    (hlen : mem (p + 1) = len) (hbytes : data.length = p + 2 + bytes.length)
    (hvalues : AllInside optEnd data (valueReads mem p))
    (hecho : echo = true → kind = tcpoptTimestamp ∧ len = tcpolenTimestamp →
      Inside optEnd data (p + 9)) : valueLength echo kind len ≤ bytes.length := by
  unfold valueReads at hvalues
  unfold valueLength
  rw [hkind, hlen] at hvalues
  by_cases hwindow : kind = tcpoptWindow ∧ len = tcpolenWindow
  · rw [if_pos hwindow] at hvalues ⊢
    have hlast := (allInside_cons.mp hvalues).1.1
    omega
  · rw [if_neg hwindow] at hvalues ⊢
    by_cases htimestamp : kind = tcpoptTimestamp ∧ len = tcpolenTimestamp
    · rw [if_pos htimestamp] at hvalues ⊢
      cases echo with
      | true =>
          have hlast := (hecho rfl htimestamp).1
          rw [if_pos rfl]
          omega
      | false =>
          have hlast := (hvalues (p + 5) (by simp)).1
          rw [if_neg Bool.false_ne_true]
          omega
    · rw [if_neg htimestamp]
      exact Nat.zero_le _

theorem optionList_of_inside (hmem : ∀ i (h : i < data.length), mem i = data[i]) (fuel : Nat) :
    ∀ (echo : Bool) (room p : Nat), room ≤ fuel → p + room = optEnd →
      AllInside optEnd data (walkReads mem optEnd fuel p) →
      (echo = true → AllInside optEnd data (tsecrReads mem optEnd fuel p)) →
        OptionList echo room (data.drop p) := by
  induction fuel with
  | zero =>
      intro echo room p hfuel hroom _ _
      obtain rfl : room = 0 := by omega
      exact .nil ..
  | succ fuel ih =>
      intro echo room p hfuel hroom hwalk htsecr
      by_cases hzero : room = 0
      · subst hzero
        exact .nil ..
      · obtain ⟨room, rfl⟩ := Nat.exists_eq_succ_of_ne_zero hzero
        have hend : p < optEnd := by omega
        by_cases heol : mem p = tcpoptEol
        · rw [walkReads_eol hend heol, allInside_cons] at hwalk
          have hlt := hwalk.1.1
          rw [List.drop_eq_getElem_cons hlt, ← hmem p hlt, heol]
          exact .eol ..
        · by_cases hnop : mem p = tcpoptNop
          · rw [walkReads_nop hend hnop, allInside_cons] at hwalk
            rw [tsecrReads_nop hend hnop, allInside_cons] at htsecr
            have hlt := hwalk.1.1
            rw [List.drop_eq_getElem_cons hlt, ← hmem p hlt, hnop]
            exact .nop (ih echo room (p + 1) (by omega) (by omega) hwalk.2
              fun hecho => (htsecr hecho).2)
          · have hkind : mem p ≠ tcpoptEol ∧ mem p ≠ tcpoptNop := ⟨heol, hnop⟩
            by_cases hbroken : (mem (p + 1)).toNat = 0 ∨ optEnd < p + (mem (p + 1)).toNat
            · rw [walkReads_broken hend hkind hbroken, allInside_cons, allInside_cons] at hwalk
              obtain ⟨⟨hlt, -⟩, ⟨hlt', hroom'⟩, -⟩ := hwalk
              obtain ⟨room, rfl⟩ : ∃ n, room = n + 1 := ⟨room - 1, by omega⟩
              rw [List.drop_eq_getElem_cons hlt, List.drop_eq_getElem_cons hlt', ← hmem p hlt,
                ← hmem (p + 1) hlt']
              exact .broken echo _ hkind (by omega)
            · rw [walkReads_option hend hkind hbroken, allInside_cons, allInside_cons,
                allInside_append] at hwalk
              obtain ⟨⟨hlt, -⟩, ⟨hlt', hroom'⟩, hvalues, hwalk⟩ := hwalk
              obtain ⟨room, rfl⟩ : ∃ n, room = n + 1 := ⟨room - 1, by omega⟩
              have hlength : data.length = p + 2 + (data.drop (p + 1 + 1)).length := by
                rw [List.length_drop]
                omega
              have hbehind : data.drop (p + (mem (p + 1)).toNat) =
                  (data.drop p).drop (mem (p + 1)).toNat := by
                rw [List.drop_drop]
              have hrest : OptionList (echoBehind echo (mem p) (mem (p + 1)))
                  (room + 2 - (mem (p + 1)).toNat) (data.drop (p + (mem (p + 1)).toNat)) := by
                refine ih _ _ _ (by omega) (by omega) hwalk fun hecho => ?_
                simp only [echoBehind, Bool.and_eq_true, decide_eq_true_iff, Bool.not_eq_true',
                  decide_eq_false_iff_not] at hecho
                obtain ⟨⟨hecho, hlong⟩, htimestamp⟩ := hecho
                have hreads := htsecr hecho
                rw [tsecrReads_option (by omega) hkind (by omega) htimestamp, allInside_cons,
                  allInside_cons] at hreads
                exact hreads.2.2
              have hecho : echo = true →
                  mem p = tcpoptTimestamp ∧ mem (p + 1) = tcpolenTimestamp →
                    Inside optEnd data (p + 9) := by
                intro hecho htimestamp
                have hten : (mem (p + 1)).toNat = 10 := by
                  rw [htimestamp.2]
                  rfl
                have hreads := htsecr hecho
                rw [tsecrReads_timestamp (by omega) hkind (by omega) htimestamp] at hreads
                exact hreads (p + 9) (by simp)
              have hvalue := valueLength_le rfl rfl hlength hvalues hecho
              rw [hbehind] at hrest
              rw [List.drop_eq_getElem_cons hlt, List.drop_eq_getElem_cons hlt', ← hmem p hlt,
                ← hmem (p + 1) hlt'] at hrest ⊢
              exact .option hkind (by omega) hvalue hrest

section TwoRuns

variable {env : Env} {buff buff' : Nat → U8} {seg : TcpSegment}
  (hwalk : ∀ tcb, processWindowOption (Env.over env buff) seg tcb =
    processWindowOption (Env.over env buff') seg tcb)
  (htsecr : extractTsecr (Env.over env buff) seg = extractTsecr (Env.over env buff') seg)

theorem congControl_over (env : Env) (buff buff' : Nat → U8) (tcb : Tcb) (args : CcEventArgs) :
    congControl (Env.over env buff) tcb args = congControl (Env.over env buff') tcb args := by
  unfold congControl
  split
  all_goals rfl

include htsecr in
theorem handleAck_over (tcb : Tcb) :
    handleAck (Env.over env buff) tcb seg = handleAck (Env.over env buff') tcb seg := by
  have hrtt : ∀ t, measureRtt (Env.over env buff) seg t = measureRtt (Env.over env buff') seg t := by
    intro t
    rw [measureRtt, measureRtt, htsecr]
    rfl
  have hrearm : ∀ t, rearmRexmt (Env.over env buff) t = rearmRexmt (Env.over env buff') t :=
    fun _ => rfl
  have hcc := congControl_over env buff buff'
  simp only [handleAck, handleSameAck, beforeAckEvent, hrtt, hrearm, hcc]

theorem handleData_over (env : Env) (buff buff' : Nat → U8) (tcb : Tcb) :
    handleData (Env.over env buff) tcb seg = handleData (Env.over env buff') tcb seg := by
  have hinsert : ∀ t seq data, insertOooSegment (Env.over env buff) t seq data =
      insertOooSegment (Env.over env buff') t seq data := fun _ _ _ => rfl
  have houtput : (Env.over env buff).output = (Env.over env buff').output := rfl
  simp only [handleData, placeData, hinsert, houtput]

include hwalk htsecr in
theorem utcpInput_over (tcb : Tcb) (peer : Peer) :
    utcpInput (Env.over env buff) tcb seg peer = utcpInput (Env.over env buff') tcb seg peer := by
  have houtput : (Env.over env buff).output = (Env.over env buff').output := rfl
  have hcc := congControl_over env buff buff'
  have hack := handleAck_over htsecr
  have hdata : ∀ t, handleData (Env.over env buff) t seg = handleData (Env.over env buff') t seg :=
    handleData_over env buff buff'
  simp only [utcpInput, synRecvInput, handleReceivedData, acceptSyn, acceptSynAck, hwalk, houtput,
    hcc, hack, hdata]

end TwoRuns

theorem received_apply (stale : Nat → U8) {bytes : List U8} {i : Nat} (h : i < bytes.length) :
    received stale bytes i = bytes[i] := by
  have hcell := Buffers.memcpy_apply stale 0 bytes h
  rwa [Nat.zero_add] at hcell

/-- What `deserialize_utcp_packet` finds depends on the datagram alone. -/
theorem deserialize_received {bytes : List U8} (hlen : sizeofTcpHdr ≤ bytes.length) :
    ∃ seg, (∀ stale, deserializeUtcpPacket (received stale bytes) bytes.length = some seg) ∧
      seg.data = bytes.drop sizeofTcpHdr ∧ seg.hdr.thOffFlags = bytes.getD 12 0 := by
  have hsize : sizeofTcpHdr = 20 := rfl
  have hcell : ∀ (stale : Nat → U8) (i : Nat), i < bytes.length →
      received stale bytes i = bytes.getD i 0 := by
    intro stale i hi
    rw [received_apply stale hi, List.getD_eq_getElem?_getD, List.getElem?_eq_getElem hi]
    rfl
  have hword : ∀ stale i, i + 1 < bytes.length →
      load16 (received stale bytes) i = load16 (fun i => bytes.getD i 0) i := by
    intro stale i hi
    rw [load16, load16, hcell stale i (by omega), hcell stale (i + 1) hi]
  have hlong : ∀ stale i, i + 3 < bytes.length →
      load32 (received stale bytes) i = load32 (fun i => bytes.getD i 0) i := by
    intro stale i hi
    rw [load32, load32, hcell stale i (by omega), hcell stale (i + 1) (by omega),
      hcell stale (i + 2) (by omega), hcell stale (i + 3) hi]
  have hdata : ∀ stale, memread (received stale bytes) sizeofTcpHdr
      (bytes.length - sizeofTcpHdr) = bytes.drop sizeofTcpHdr := by
    intro stale
    apply List.ext_getElem
    · rw [Buffers.memread_length, List.length_drop]
    · intro i hi hi'
      rw [List.length_drop] at hi'
      simp only [memread, List.getElem_map, List.getElem_range, List.getElem_drop]
      exact received_apply stale (by omega)
  refine ⟨⟨⟨htons (load16 (fun i => bytes.getD i 0) 0), htons (load16 (fun i => bytes.getD i 0) 2),
    htonl (load32 (fun i => bytes.getD i 0) 4), htonl (load32 (fun i => bytes.getD i 0) 8),
    bytes.getD 12 0, bytes.getD 13 0, htons (load16 (fun i => bytes.getD i 0) 14),
    htons (load16 (fun i => bytes.getD i 0) 16), htons (load16 (fun i => bytes.getD i 0) 18)⟩,
    bytes.drop sizeofTcpHdr⟩, ?_, rfl, rfl⟩
  intro stale
  rw [deserializeUtcpPacket, if_neg (by omega), hdata, hword stale 0 (by omega),
    hword stale 2 (by omega), hlong stale 4 (by omega), hlong stale 8 (by omega),
    hcell stale 12 (by omega), hcell stale 13 (by omega), hword stale 14 (by omega),
    hword stale 16 (by omega), hword stale 18 (by omega)]

theorem byteAt_received (env : Env) (stale : Nat → U8) {seg : TcpSegment} {i : Nat}
    (h : i < seg.data.length) :
    byteAt (Env.over env (received stale bytes)) seg i = seg.data[i] := by
  rw [byteAt, List.getD_eq_getElem?_getD, List.getElem?_eq_getElem h]
  rfl

/-- A datagram is interpreted from its own bytes exactly when the options its
header claims are a list that was received. -/
theorem ownBytesOnly_iff {bytes : List U8} (hlen : 20 ≤ bytes.length) :
    OwnBytesOnly bytes ↔ OptionsReceived bytes := by
  obtain ⟨seg, hseg, hdata, hoff⟩ := deserialize_received hlen
  have hsize : sizeofTcpHdr = 20 := rfl
  have hoffset : dataOffset seg.hdr = (bytes.getD 12 0 >>> 4).toNat * 4 := by
    rw [dataOffset, hoff]
  have hlength : seg.data.length = bytes.length - 20 := by
    rw [hdata, List.length_drop, hsize]
  have hinside : ∀ i, Inside (dataOffset seg.hdr - sizeofTcpHdr) seg.data i ↔
      sizeofTcpHdr + i < bytes.length ∧ sizeofTcpHdr + i < dataOffset seg.hdr := by
    intro i
    unfold Inside
    omega
  have hmem : ∀ env stale i (h : i < seg.data.length),
      byteAt (Env.over env (received stale bytes)) seg i = seg.data[i] :=
    fun env stale i h => byteAt_received env stale h
  unfold OptionsReceived
  rw [← hoffset, ← hdata]
  constructor
  · rintro ⟨-, hreads⟩
    have hall : AllInside (dataOffset seg.hdr - sizeofTcpHdr) seg.data
        (optionReads (Env.over (.still 0) (received (fun _ => 0) bytes)) seg) :=
      fun i hi => (hinside i).mpr (hreads _ _ seg (hseg _) i hi)
    obtain ⟨hwalk, htsecr⟩ := allInside_append.mp hall
    have hlist := optionList_of_inside (hmem (.still 0) fun _ => 0) _ true
      (dataOffset seg.hdr - sizeofTcpHdr) 0 (Nat.le_refl _) (Nat.zero_add _) hwalk fun _ => htsecr
    exact hlist
  · intro hlist
    have hreads : ∀ env stale, AllInside (dataOffset seg.hdr - sizeofTcpHdr) seg.data
        (optionReads (Env.over env (received stale bytes)) seg) := by
      intro env stale
      obtain ⟨hwalk, htsecr⟩ := inside_of_optionList (hmem env stale) hlist 0
        (dataOffset seg.hdr - sizeofTcpHdr) rfl (Nat.zero_add _)
      exact allInside_append.mpr ⟨hwalk, htsecr rfl⟩
    constructor
    · intro env tcb peer stale stale'
      have hagree : ∀ i ∈ optionReads (Env.over env (received stale bytes)) seg,
          byteAt (Env.over env (received stale bytes)) seg i =
            byteAt (Env.over env (received stale' bytes)) seg i := by
        intro i hi
        have hlt := (hreads env stale i hi).1
        rw [hmem env stale i hlt, hmem env stale' i hlt]
      have hwalk : ∀ tcb, processWindowOption (Env.over env (received stale bytes)) seg tcb =
          processWindowOption (Env.over env (received stale' bytes)) seg tcb := by
        intro tcb
        unfold processWindowOption
        split
        · exact walkOptions_congr _ 0 tcb fun i hi => hagree i (List.mem_append_left _ hi)
        · rfl
      have htsecr : extractTsecr (Env.over env (received stale bytes)) seg =
          extractTsecr (Env.over env (received stale' bytes)) seg := by
        unfold extractTsecr
        split
        · rfl
        · exact findTsecr_congr _ 0 fun i hi => hagree i (List.mem_append_right _ hi)
      unfold processDatagram
      rw [hseg stale, hseg stale']
      exact utcpInput_over hwalk htsecr tcb peer
    · intro env stale seg' hseg' i hi
      obtain rfl : seg = seg' := Option.some.inj ((hseg stale).symm.trans hseg')
      exact (hinside i).mp (hreads env stale i hi)

/-- Three no-operations and the end of the list, all received. -/
theorem ownBytesOnly_padding :
    OwnBytesOnly (List.replicate 12 0 ++ [0x60, 0x10] ++ List.replicate 6 0 ++ [1, 1, 1, 0]) :=
  (ownBytesOnly_iff (by decide)).mpr (.nop (.nop (.nop (.eol true 0 []))))

/-- A bare header that claims twelve bytes of options: what an earlier packet
left in the buffer becomes the timestamp to echo. -/
theorem ownBytesOnly_fails :
    ¬ ∀ bytes : List U8, 20 ≤ bytes.length → bytes.length ≤ 1500 → OwnBytesOnly bytes := by
  intro h
  let bytes : List U8 := List.replicate 12 0 ++ [0x80, 0x10] ++ List.replicate 6 0
  let tcb : Tcb := { utcpSocket with state := .established }
  let stale : Nat → U8 := fun i => if i = 20 then 8 else if i = 21 then 10 else 1
  have hsame := (h bytes (by decide) (by decide)).same (.still 0) tcb ⟨0, 0⟩ (fun _ => 0) stale
  have hecho := congrArg (Option.map fun out => out.tcb.tsRecent) hsame
  have hzero : (processDatagram (.still 0) tcb ⟨0, 0⟩ (fun _ => 0) bytes).map
      (fun out => out.tcb.tsRecent) = some 0 := by
    decide +kernel
  have hstale : (processDatagram (.still 0) tcb ⟨0, 0⟩ stale bytes).map
      (fun out => out.tcb.tsRecent) = some 0x01010101 := by
    decide +kernel
  rw [hzero, hstale] at hecho
  exact absurd hecho (by decide)

end Utcp.OptionReads
