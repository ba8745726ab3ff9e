import Utcp.Tcp

/-!
`utcp_utils`: comparison of sequence numbers, the window field of the header,
and the copies in and out of a ring buffer.
-/

namespace Utcp.Utils

open Utcp.Tcp

/-- `SEQ_LT(a, b)`: the difference, read as an `int`, is negative. -/
def seqLt (a b : U32) : Bool := decide ((a - b).toInt < 0)

def seqLeq (a b : U32) : Bool := decide ((a - b).toInt ≤ 0)

def seqGt (a b : U32) : Bool := decide (0 < (a - b).toInt)

def seqGeq (a b : U32) : Bool := decide (0 ≤ (a - b).toInt)

/-- Whether a flag of `th_flags` is set. -/
def hasFlag (flags flag : U8) : Bool := flags &&& flag != 0

/-- `GET_SCALED_WIN`. -/
def getScaledWin (tcb : Tcb) (hdr : TcpHdr) : U32 :=
  if tcb.scaleEnabled && !hasFlag hdr.thFlags thSyn then
    hdr.thWin.setWidth 32 <<< tcb.sndScale.toNat
  else
    hdr.thWin.setWidth 32

/-- `SET_SCALED_WIN`. -/
def setScaledWin (tcb : Tcb) (flags : U8) (freeSpace : U32) : U16 :=
  if tcb.scaleEnabled && !hasFlag flags thSyn then
    (freeSpace >>> tcb.rcvScale.toNat).setWidth 16
  else
    (if freeSpace > 65535 then 65535 else freeSpace).setWidth 16

/-- The bytes in the receive buffer. -/
def bufUsed (tcb : Tcb) : U32 := tcb.recvBufTail - tcb.recvBufHead

/-- `memcpy` into a memory, at an offset. -/
def memcpy {α : Type} (mem : Nat → α) (offset : Nat) (src : List α) : Nat → α :=
  fun i => if offset ≤ i then src.getD (i - offset) (mem i) else mem i

/-- The `len` bytes of a memory from an offset on. -/
def memread {α : Type} (mem : Nat → α) (offset len : Nat) : List α :=
  (List.range len).map fun i => mem (offset + i)

def ringBufRead (ringBuf : Nat → U8) (bufSize offset : U32) (len : Nat) : List U8 :=
  let physicalOffset := (offset % bufSize).toNat
  if physicalOffset + len ≤ bufSize.toNat then
    memread ringBuf physicalOffset len
  else
    let part1Len := bufSize.toNat - physicalOffset
    let part2Len := len - part1Len
    memread ringBuf physicalOffset part1Len ++ memread ringBuf 0 part2Len

def ringBufWrite (ringBuf : Nat → U8) (bufSize offset : U32) (src : List U8) : Nat → U8 :=
  let physicalOffset := (offset % bufSize).toNat
  if physicalOffset + src.length ≤ bufSize.toNat then
    memcpy ringBuf physicalOffset src
  else
    let part1Len := bufSize.toNat - physicalOffset
    memcpy (memcpy ringBuf physicalOffset (src.take part1Len)) 0 (src.drop part1Len)

end Utcp.Utils
