import Utcp.Api
import Utcp.Buffers

/-!
A segment on the wire: the bytes `utcp_send_segment` hands to UDP, and what
`deserialize_utcp_packet` and the two option walkers find in them. Words lie in
memory with the low byte first.
-/

namespace Utcp.Wire

open Utcp.Tcp
open Utcp.Utils
open Utcp.Output
open Utcp.Input
open Utcp.Api
open Utcp.Buffers

/-- `htons`, and `ntohs`. -/
def htons (x : U16) : U16 := x <<< 8 ||| x >>> 8

/-- `htonl`, and `ntohl`. -/
def htonl (x : U32) : U32 :=
  (x.setWidth 8).setWidth 32 <<< 24 ||| ((x >>> 8).setWidth 8).setWidth 32 <<< 16 |||
    ((x >>> 16).setWidth 8).setWidth 32 <<< 8 ||| ((x >>> 24).setWidth 8).setWidth 32

/-- The bytes of a stored word. -/
def store16 (x : U16) : List U8 := [x.setWidth 8, (x >>> 8).setWidth 8]

def store32 (x : U32) : List U8 :=
  [x.setWidth 8, (x >>> 8).setWidth 8, (x >>> 16).setWidth 8, (x >>> 24).setWidth 8]

def load16 (mem : Nat → U8) (i : Nat) : U16 :=
  (mem i).setWidth 16 ||| (mem (i + 1)).setWidth 16 <<< 8

def load32 (mem : Nat → U8) (i : Nat) : U32 :=
  (mem i).setWidth 32 ||| (mem (i + 1)).setWidth 32 <<< 8 ||| (mem (i + 2)).setWidth 32 <<< 16 |||
    (mem (i + 3)).setWidth 32 <<< 24

/-- A list of bytes lies in a memory. -/
def LiesAt (mem : Nat → U8) (i : Nat) (bytes : List U8) : Prop :=
  ∀ k (h : k < bytes.length), mem (i + k) = bytes[k]

theorem liesAt_append {mem : Nat → U8} {i : Nat} {xs ys : List U8} :
    LiesAt mem i (xs ++ ys) ↔ LiesAt mem i xs ∧ LiesAt mem (i + xs.length) ys := by
  constructor
  · intro h
    constructor
    · intro k hk
      rw [h k (by rw [List.length_append]; omega), List.getElem_append_left hk]
    · intro k hk
      rw [Nat.add_assoc, h (xs.length + k) (by rw [List.length_append]; omega),
        List.getElem_append_right (by omega)]
      simp only [Nat.add_sub_cancel_left]
  · rintro ⟨hx, hy⟩ k hk
    rcases Nat.lt_or_ge k xs.length with h | h
    · rw [List.getElem_append_left h]
      exact hx k h
    · rw [List.getElem_append_right h]
      rw [List.length_append] at hk
      have hcell := hy (k - xs.length) (by omega)
      rwa [show i + xs.length + (k - xs.length) = i + k by omega] at hcell

theorem liesAt_memcpy (mem : Nat → U8) (bytes : List U8) : LiesAt (memcpy mem 0 bytes) 0 bytes :=
  fun _ hk => memcpy_apply mem 0 bytes hk

theorem htons_load16 {mem : Nat → U8} {i : Nat} {x : U16} (h : LiesAt mem i (store16 (htons x))) :
    htons (load16 mem i) = x := by
  have h0 : mem i = (htons x).setWidth 8 := h 0 (by simp [store16])
  have h1 : mem (i + 1) = (htons x >>> 8).setWidth 8 := h 1 (by simp [store16])
  unfold load16
  rw [h0, h1]
  unfold htons
  ext k hk
  simp only [BitVec.getElem_or, BitVec.getElem_shiftLeft, BitVec.getElem_ushiftRight,
    BitVec.getElem_setWidth, BitVec.getLsbD_setWidth, BitVec.getLsbD_ushiftRight,
    BitVec.getLsbD_or, BitVec.getLsbD_shiftLeft]
  grind

theorem htonl_load32 {mem : Nat → U8} {i : Nat} {x : U32} (h : LiesAt mem i (store32 (htonl x))) :
    htonl (load32 mem i) = x := by
  have h0 : mem i = (htonl x).setWidth 8 := h 0 (by simp [store32])
  have h1 : mem (i + 1) = (htonl x >>> 8).setWidth 8 := h 1 (by simp [store32])
  have h2 : mem (i + 2) = (htonl x >>> 16).setWidth 8 := h 2 (by simp [store32])
  have h3 : mem (i + 3) = (htonl x >>> 24).setWidth 8 := h 3 (by simp [store32])
  unfold load32
  rw [h0, h1, h2, h3]
  unfold htonl
  ext k hk
  simp only [BitVec.getElem_or, BitVec.getElem_shiftLeft, BitVec.getElem_setWidth,
    BitVec.getLsbD_setWidth, BitVec.getLsbD_ushiftRight, BitVec.getLsbD_or,
    BitVec.getLsbD_shiftLeft]
  grind

theorem wordAt_bytesOf {mem : Nat → U8} {i : Nat} {x : U32} (h : LiesAt mem i (bytesOf x)) :
    wordAt mem i = x := by
  have h0 : mem i = (x >>> 24).setWidth 8 := h 0 (by simp [bytesOf])
  have h1 : mem (i + 1) = (x >>> 16).setWidth 8 := h 1 (by simp [bytesOf])
  have h2 : mem (i + 2) = (x >>> 8).setWidth 8 := h 2 (by simp [bytesOf])
  have h3 : mem (i + 3) = x.setWidth 8 := h 3 (by simp [bytesOf])
  unfold wordAt
  rw [h0, h1, h2, h3]
  ext k hk
  simp only [BitVec.getElem_or, BitVec.getElem_shiftLeft, BitVec.getElem_setWidth,
    BitVec.getLsbD_setWidth, BitVec.getLsbD_ushiftRight]
  grind

/-- The header as `utcp_send_segment` stores it: the checksum and the urgent
pointer are not swapped, they are zero. -/
def headerBytes (hdr : TcpHdr) : List U8 :=
  store16 (htons hdr.thSport) ++ store16 (htons hdr.thDport) ++ store32 (htonl hdr.thSeq) ++
    store32 (htonl hdr.thAck) ++ [hdr.thOffFlags, hdr.thFlags] ++ store16 (htons hdr.thWin) ++
      store16 hdr.thSum ++ store16 hdr.thUrp

/-- What `utcp_send_segment` hands to UDP. -/
def datagram (seg : TcpSegment) : List U8 := headerBytes seg.hdr ++ seg.data

/-- The receive buffer after a datagram came in. -/
def received (stale : Nat → U8) (bytes : List U8) : Nat → U8 := memcpy stale 0 bytes

/-- `deserialize_utcp_packet`; `none` where it ends the process. -/
def deserializeUtcpPacket (buff : Nat → U8) (bufLen : Nat) : Option TcpSegment :=
  if bufLen < sizeofTcpHdr then none
  else
    some
      { hdr :=
          { thSport := htons (load16 buff 0)
            thDport := htons (load16 buff 2)
            thSeq := htonl (load32 buff 4)
            thAck := htonl (load32 buff 8)
            thOffFlags := buff 12
            thFlags := buff 13
            thWin := htons (load16 buff 14)
            thSum := htons (load16 buff 16)
            thUrp := htons (load16 buff 18) }
        data := memread buff sizeofTcpHdr (bufLen - sizeofTcpHdr) }

/-- The receive buffer behind the fixed header. -/
def Env.over (env : Env) (buff : Nat → U8) : Env :=
  { env with stale := fun i => buff (sizeofTcpHdr + i) }

@[simp] theorem headerBytes_length (hdr : TcpHdr) : (headerBytes hdr).length = sizeofTcpHdr := rfl

theorem deserialize_datagram (stale : Nat → U8) {seg : TcpSegment} (hsum : seg.hdr.thSum = 0)
    (hurp : seg.hdr.thUrp = 0) :
    deserializeUtcpPacket (received stale (datagram seg)) (datagram seg).length = some seg := by
  have hlies : LiesAt (received stale (datagram seg)) 0 (datagram seg) := liesAt_memcpy _ _
  generalize received stale (datagram seg) = buff at hlies
  have hzero : LiesAt buff 16 (store16 (htons 0)) ∧ LiesAt buff 18 (store16 (htons 0)) := by
    unfold datagram headerBytes at hlies
    simp only [liesAt_append, hsum, hurp] at hlies
    exact ⟨hlies.1.1.2, hlies.1.2⟩
  have hdata : memread buff sizeofTcpHdr seg.data.length = seg.data := by
    unfold datagram at hlies
    have htail := (liesAt_append.mp hlies).2
    apply List.ext_getElem (memread_length ..)
    intro k hk hk'
    simp only [memread, List.getElem_map, List.getElem_range]
    exact htail k hk'
  have hlen : (datagram seg).length = sizeofTcpHdr + seg.data.length := by
    rw [datagram, List.length_append, headerBytes_length]
  unfold datagram headerBytes at hlies
  simp only [liesAt_append] at hlies
  obtain ⟨⟨⟨⟨⟨⟨⟨⟨hsport, hdport⟩, hseq⟩, hack⟩, hflags⟩, hwin⟩, -⟩, -⟩, -⟩ := hlies
  have hdport' : LiesAt buff 2 _ := hdport
  have hseq' : LiesAt buff 4 _ := hseq
  have hack' : LiesAt buff 8 _ := hack
  have hwin' : LiesAt buff 14 _ := hwin
  have hsum' : htons (load16 buff 16) = seg.hdr.thSum := (htons_load16 hzero.1).trans hsum.symm
  have hurp' : htons (load16 buff 18) = seg.hdr.thUrp := (htons_load16 hzero.2).trans hurp.symm
  have hoff : buff 12 = seg.hdr.thOffFlags := hflags 0 (by simp)
  have hfl : buff 13 = seg.hdr.thFlags := hflags 1 (by simp)
  rw [deserializeUtcpPacket, hlen, if_neg (by omega), Nat.add_sub_cancel_left, hdata,
    htons_load16 hsport, htons_load16 hdport', htonl_load32 hseq', htonl_load32 hack',
    htons_load16 hwin', hsum', hurp', hoff, hfl]

theorem walkOptions_done {mem : Nat → U8} {optEnd optPtr : Nat} (h : optEnd ≤ optPtr) (fuel : Nat)
    (tcb : Tcb) : walkOptions mem optEnd fuel optPtr tcb = tcb := by
  cases fuel with
  | zero => rfl
  | succ fuel => rw [walkOptions, if_pos h]

theorem walkOptions_nop {mem : Nat → U8} {optEnd optPtr fuel : Nat} (tcb : Tcb)
    (hend : optPtr < optEnd) (hnop : mem optPtr = tcpoptNop) :
    walkOptions mem optEnd (fuel + 1) optPtr tcb =
      walkOptions mem optEnd fuel (optPtr + 1) tcb := by
  have heol : ¬ mem optPtr = tcpoptEol := by
    rw [hnop]
    decide
  rw [walkOptions, if_neg (by omega), if_neg heol, if_pos hnop]

theorem walkOptions_option {mem : Nat → U8} {optEnd optPtr fuel : Nat} (tcb : Tcb)
    (hkind : mem optPtr ≠ tcpoptEol ∧ mem optPtr ≠ tcpoptNop)
    (hlen : (mem (optPtr + 1)).toNat ≠ 0) (hend : optPtr + (mem (optPtr + 1)).toNat ≤ optEnd) :
    walkOptions mem optEnd (fuel + 1) optPtr tcb =
      walkOptions mem optEnd fuel (optPtr + (mem (optPtr + 1)).toNat)
        (takeTimestamp mem optPtr (takeWindow mem optPtr tcb)) := by
  rw [walkOptions, if_neg (by omega), if_neg hkind.1, if_neg hkind.2]
  simp only
  rw [if_neg hlen, if_neg (by omega)]

theorem walkOptions_timestamp {mem : Nat → U8} {optPtr : Nat} {tsval tsecr : U32} (fuel : Nat)
    (h : LiesAt mem optPtr (timestampOption tsval tsecr)) (tcb : Tcb) :
    walkOptions mem (optPtr + 12) (fuel + 3) optPtr tcb =
      { tcb with tsRecent := tsval, tsEnabled := true } := by
  have hnop : mem optPtr = tcpoptNop := h 0 (by simp [timestampOption])
  have hnop' : mem (optPtr + 1) = tcpoptNop := h 1 (by simp [timestampOption])
  have hkind : mem (optPtr + 1 + 1) = tcpoptTimestamp := h 2 (by simp [timestampOption])
  have hlen : mem (optPtr + 1 + 1 + 1) = tcpolenTimestamp := h 3 (by simp [timestampOption])
  have htsval : wordAt mem (optPtr + 1 + 1 + 2) = tsval := by
    unfold timestampOption at h
    exact wordAt_bytesOf (liesAt_append.mp (liesAt_append.mp h).1).2
  have hten : (mem (optPtr + 1 + 1 + 1)).toNat = 10 := by
    rw [hlen]
    rfl
  rw [walkOptions_nop tcb (by omega) hnop, walkOptions_nop tcb (by omega) hnop',
    walkOptions_option tcb (by rw [hkind]; decide) (by omega) (by omega), hten,
    walkOptions_done (by omega)]
  have hnotWindow : ¬ (mem (optPtr + 1 + 1) = tcpoptWindow ∧
      mem (optPtr + 1 + 1 + 1) = tcpolenWindow) := by
    rintro ⟨hwindow, -⟩
    rw [hkind] at hwindow
    exact absurd hwindow (by decide)
  rw [takeWindow, if_neg hnotWindow, takeTimestamp, if_pos ⟨hkind, hlen⟩, htsval]

theorem walkOptions_window {mem : Nat → U8} {optEnd optPtr fuel : Nat} {scale : U8}
    (h : LiesAt mem optPtr [tcpoptNop, tcpoptWindow, tcpolenWindow, scale])
    (hend : optPtr + 4 ≤ optEnd) (tcb : Tcb) :
    walkOptions mem optEnd (fuel + 2) optPtr tcb =
      walkOptions mem optEnd fuel (optPtr + 4)
        { tcb with sndScale := scale, scaleEnabled := true } := by
  have hnop : mem optPtr = tcpoptNop := h 0 (by simp)
  have hkind : mem (optPtr + 1) = tcpoptWindow := h 1 (by simp)
  have hlen : mem (optPtr + 1 + 1) = tcpolenWindow := h 2 (by simp)
  have hscale : mem (optPtr + 1 + 2) = scale := h 3 (by simp)
  have hthree : (mem (optPtr + 1 + 1)).toNat = 3 := by
    rw [hlen]
    rfl
  rw [walkOptions_nop tcb (by omega) hnop,
    walkOptions_option tcb (by rw [hkind]; decide) (by omega) (by omega), hthree]
  have hnotTimestamp : ¬ (mem (optPtr + 1) = tcpoptTimestamp ∧
      mem (optPtr + 1 + 1) = tcpolenTimestamp) := by
    rintro ⟨htimestamp, -⟩
    rw [hkind] at htimestamp
    exact absurd htimestamp (by decide)
  rw [takeWindow, if_pos ⟨hkind, hlen⟩, hscale, takeTimestamp, if_neg hnotTimestamp]

theorem findTsecr_nop {mem : Nat → U8} {endPtr p fuel : Nat} (hend : p < endPtr)
    (hnop : mem p = tcpoptNop) :
    findTsecr mem endPtr (fuel + 1) p = findTsecr mem endPtr fuel (p + 1) := by
  have heol : ¬ mem p = tcpoptEol := by
    rw [hnop]
    decide
  rw [findTsecr, if_neg (by omega), if_neg heol, if_pos hnop]

theorem findTsecr_timestamp {mem : Nat → U8} {p : Nat} {tsval tsecr : U32} (fuel : Nat)
    (h : LiesAt mem p (timestampOption tsval tsecr)) :
    findTsecr mem (p + 12) (fuel + 3) p = some tsecr := by
  have hnop : mem p = tcpoptNop := h 0 (by simp [timestampOption])
  have hnop' : mem (p + 1) = tcpoptNop := h 1 (by simp [timestampOption])
  have hkind : mem (p + 1 + 1) = tcpoptTimestamp := h 2 (by simp [timestampOption])
  have hlen : mem (p + 1 + 1 + 1) = tcpolenTimestamp := h 3 (by simp [timestampOption])
  have htsecr : wordAt mem (p + 1 + 1 + 6) = tsecr := by
    unfold timestampOption at h
    exact wordAt_bytesOf (liesAt_append.mp h).2
  have hten : (mem (p + 1 + 1 + 1)).toNat = 10 := by
    rw [hlen]
    rfl
  have hplain : ¬ mem (p + 1 + 1) = tcpoptEol ∧ ¬ mem (p + 1 + 1) = tcpoptNop := by
    rw [hkind]
    decide
  have hfits : ¬ ((mem (p + 1 + 1 + 1)).toNat < 2 ∨
      p + 12 < p + 1 + 1 + (mem (p + 1 + 1 + 1)).toNat) := by
    omega
  rw [findTsecr_nop (by omega) hnop, findTsecr_nop (by omega) hnop', findTsecr,
    if_neg (by omega), if_neg hplain.1, if_neg hplain.2, if_neg (by omega)]
  simp only
  rw [if_neg hfits, if_pos ⟨hkind, hlen⟩, htsecr]

theorem findTsecr_window {mem : Nat → U8} {endPtr p fuel : Nat} {scale : U8}
    (h : LiesAt mem p [tcpoptNop, tcpoptWindow, tcpolenWindow, scale]) (hend : p + 4 ≤ endPtr) :
    findTsecr mem endPtr (fuel + 2) p = findTsecr mem endPtr fuel (p + 4) := by
  have hnop : mem p = tcpoptNop := h 0 (by simp)
  have hkind : mem (p + 1) = tcpoptWindow := h 1 (by simp)
  have hlen : mem (p + 1 + 1) = tcpolenWindow := h 2 (by simp)
  have hthree : (mem (p + 1 + 1)).toNat = 3 := by
    rw [hlen]
    rfl
  have hplain : ¬ mem (p + 1) = tcpoptEol ∧ ¬ mem (p + 1) = tcpoptNop := by
    rw [hkind]
    decide
  have hfits : ¬ ((mem (p + 1 + 1)).toNat < 2 ∨ endPtr < p + 1 + (mem (p + 1 + 1)).toNat) := by
    omega
  have hnotTimestamp : ¬ (mem (p + 1) = tcpoptTimestamp ∧ mem (p + 1 + 1) = tcpolenTimestamp) := by
    rintro ⟨htimestamp, -⟩
    rw [hkind] at htimestamp
    exact absurd htimestamp (by decide)
  rw [findTsecr_nop (by omega) hnop, findTsecr, if_neg (by omega), if_neg hplain.1,
    if_neg hplain.2, if_neg (by omega)]
  simp only
  rw [if_neg hfits, if_neg hnotTimestamp, hthree]

theorem sendOptions_length (timeUs : U64) (tcb : Tcb) (flags : U8) :
    (sendOptions timeUs tcb flags).length = if hasFlag flags thSyn then 16 else 12 := by
  unfold sendOptions
  split <;> rfl

/-- The flags that stray into the low half of the byte do not touch the data offset. -/
theorem dataOffset_buildSegment (timeUs : U64) (tcb : Tcb) (seq : U32) (flags : U8)
    (dataLength : U32) :
    dataOffset (buildSegment timeUs tcb seq flags dataLength).hdr =
      sizeofTcpHdr + (sendOptions timeUs tcb flags).length := by
  have hsyn : ∀ flags : U8, ((9 <<< 4 ||| (flags &&& 0x0F) : U8) >>> 4).toNat * 4 = 36 := by
    decide
  have hplain : ∀ flags : U8, ((8 <<< 4 ||| (flags &&& 0x0F) : U8) >>> 4).toNat * 4 = 32 := by
    decide
  simp only [dataOffset, buildSegment]
  rw [sendOptions_length]
  split
  · exact hsyn flags
  · exact hplain flags

theorem payload_buildSegment (timeUs : U64) (tcb : Tcb) (seq : U32) (flags : U8)
    (dataLength : U32) :
    payload (buildSegment timeUs tcb seq flags dataLength) =
      ringBufRead tcb.sendBuf sendBufSize (seq - tcb.iss - 1) dataLength.toNat := by
  have hskip : max (sizeofTcpHdr + (sendOptions timeUs tcb flags).length) sizeofTcpHdr -
      sizeofTcpHdr = (sendOptions timeUs tcb flags).length := by
    omega
  rw [payload, dataOffset_buildSegment, hskip]
  exact List.drop_left

theorem liesAt_byteAt (env : Env) (seg : TcpSegment) {options rest : List U8}
    (h : seg.data = options ++ rest) : LiesAt (byteAt env seg) 0 options := by
  intro k hk
  unfold byteAt
  rw [Nat.zero_add, h, List.getD_eq_getElem?_getD, List.getElem?_append_left hk,
    List.getElem?_eq_getElem hk]
  rfl

/-- What `process_window_option` takes from a segment of the peer. -/
def learn (tcb : Tcb) (timeUs : U64) (flags rcvScale : U8) : Tcb :=
  { tcb with
    tsRecent := timeUs.setWidth 32
    tsEnabled := true
    sndScale := if hasFlag flags thSyn then rcvScale else tcb.sndScale
    scaleEnabled := hasFlag flags thSyn || tcb.scaleEnabled }

theorem processWindowOption_buildSegment (env : Env) (timeUs : U64) (tcb tcb' : Tcb) (seq : U32)
    (flags : U8) (dataLength : U32) :
    processWindowOption env (buildSegment timeUs tcb seq flags dataLength) tcb' =
      learn tcb' timeUs flags tcb.rcvScale := by
  have hlies : LiesAt (byteAt env (buildSegment timeUs tcb seq flags dataLength)) 0
      (sendOptions timeUs tcb flags) := liesAt_byteAt env _ rfl
  have hlen := sendOptions_length timeUs tcb flags
  rw [processWindowOption, dataOffset_buildSegment, Nat.add_sub_cancel_left, hlen]
  unfold sendOptions at hlies
  unfold learn
  by_cases hsyn : hasFlag flags thSyn = true
  · rw [if_pos hsyn] at hlies ⊢
    obtain ⟨hwindow, htimestamp⟩ := liesAt_append.mp hlies
    rw [if_pos (by decide), walkOptions_window hwindow (by decide)]
    have hwalk := walkOptions_timestamp 11 htimestamp
      { tcb' with sndScale := tcb.rcvScale, scaleEnabled := true }
    rw [if_pos hsyn, hsyn]
    exact hwalk
  · rw [if_neg hsyn] at hlies ⊢
    rw [if_pos (by decide)]
    have hwalk := walkOptions_timestamp 9 hlies tcb'
    rw [if_neg hsyn, Bool.eq_false_iff.mpr hsyn, Bool.false_or]
    exact hwalk

theorem extractTsecr_buildSegment (env : Env) (timeUs : U64) (tcb : Tcb) (seq : U32)
    (flags : U8) (dataLength : U32) :
    extractTsecr env (buildSegment timeUs tcb seq flags dataLength) = some tcb.tsRecent := by
  have hlies : LiesAt (byteAt env (buildSegment timeUs tcb seq flags dataLength)) 0
      (sendOptions timeUs tcb flags) := liesAt_byteAt env _ rfl
  have hlen := sendOptions_length timeUs tcb flags
  simp only [extractTsecr, dataOffset_buildSegment, Nat.add_sub_cancel_left, hlen]
  unfold sendOptions at hlies
  by_cases hsyn : hasFlag flags thSyn = true
  · rw [if_pos hsyn] at hlies ⊢
    obtain ⟨hwindow, htimestamp⟩ := liesAt_append.mp hlies
    rw [if_neg (by decide), findTsecr_window hwindow (by decide)]
    exact findTsecr_timestamp 11 htimestamp
  · rw [if_neg hsyn] at hlies ⊢
    rw [if_neg (by decide)]
    exact findTsecr_timestamp 9 hlies

/-- Whatever the control block, the flags and the sequence number, the receiver
finds in the datagram what the sender put there. -/
theorem wire_round_trip (timeUs : U64) (tcb : Tcb) (seq : U32) (flags : U8) {dataLength : U32}
    (hlen : dataLength ≤ mss) (stale : Nat → U8) :
    let bytes := datagram (buildSegment timeUs tcb seq flags dataLength)
    let buff := received stale bytes
    ∃ seg, deserializeUtcpPacket buff bytes.length = some seg ∧
      seg.hdr.thSport = tcb.srcPort ∧ seg.hdr.thDport = tcb.dstPort ∧ seg.hdr.thSeq = seq ∧
      seg.hdr.thAck = tcb.rcvNxt ∧ seg.hdr.thFlags = flags ∧
      seg.hdr.thWin = setScaledWin tcb flags (currentFreeSpace tcb) ∧
      payload seg = ((List.range dataLength.toNat).map fun i =>
        tcb.sendBuf (((seq - tcb.iss - 1).toNat + i) % sendBufSize.toNat)) ∧
      ∀ env : Env,
        (∀ tcb', processWindowOption (Env.over env buff) seg tcb' =
          learn tcb' timeUs flags tcb.rcvScale) ∧
        extractTsecr (Env.over env buff) seg = some tcb.tsRecent := by
  refine ⟨_, deserialize_datagram stale rfl rfl, rfl, rfl, rfl, rfl, rfl, rfl, ?_, ?_⟩
  · rw [payload_buildSegment]
    apply ringBufRead_eq divides_sendBufSize.pos
    have hle : dataLength.toNat ≤ mss.toNat := hlen
    rw [mss_toNat] at hle
    rw [sendBufSize_toNat]
    omega
  · intro env
    constructor
    · intro tcb'
      exact processWindowOption_buildSegment ..
    · exact extractTsecr_buildSegment ..

/-- A segment with a SYN and three bytes, into a buffer full of ones. -/
theorem wire_round_trip_syn :
    let tcb := { utcpSocket with sendBuf := fun i => BitVec.ofNat 8 i, tsRecent := 7 }
    let bytes := datagram (buildSegment 5 tcb 9 (thSyn ||| thAck) 3)
    let buff := received (fun _ => 0xFF) bytes
    ∃ seg, deserializeUtcpPacket buff bytes.length = some seg ∧ payload seg = [8, 9, 10] ∧
      extractTsecr (Env.over (.still 0) buff) seg = some 7 := by
  intro tcb bytes buff
  obtain ⟨seg, hseg, -, -, -, -, -, -, hpayload, henv⟩ :=
    wire_round_trip 5 tcb 9 (thSyn ||| thAck) (by decide : (3 : U32) ≤ mss) (fun _ => 0xFF)
  refine ⟨seg, hseg, ?_, (henv (.still 0)).2⟩
  rw [hpayload]
  decide

end Utcp.Wire
