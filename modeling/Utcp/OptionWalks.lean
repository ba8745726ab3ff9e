import Utcp.Wire

/-!
The options of a segment as `process_window_option` walks over them, and what the
two walkers take from them.
-/

namespace Utcp.OptionWalks

open Utcp.Tcp
open Utcp.Utils
open Utcp.Input
open Utcp.Output
open Utcp.Wire
open Utcp.Api

variable {mem : Nat → U8} {optEnd fuel : Nat}

section LastWrite

variable {σ α β : Type*} {step : σ → α → σ} {writes : α → Bool} {value : α → β}

theorem get_foldl (get : σ → β)
    (hstep : ∀ s a, get (step s a) = if writes a then value a else get s)
    (items : List α) :
    ∀ s, get (items.foldl step s) = (((items.filter writes).getLast?.map value).getD (get s)) := by
  induction items with
  | nil => exact fun s => rfl
  | cons item items ih =>
      intro s
      rw [List.foldl_cons, ih, hstep, List.filter_cons]
      split
      · rw [List.getLast?_cons]
        cases (items.filter writes).getLast? with
        | none => rfl
        | some last => rfl
      · rfl

end LastWrite

/-- Where the options begin that `process_window_option` walks over. -/
def walked (mem : Nat → U8) (optEnd : Nat) : Nat → Nat → List Nat
  | 0, _ => []
  | fuel + 1, optPtr =>
      if optEnd ≤ optPtr then []
      else if mem optPtr = tcpoptEol then []
      else if mem optPtr = tcpoptNop then walked mem optEnd fuel (optPtr + 1)
      else
        let optLen := (mem (optPtr + 1)).toNat
        if optLen = 0 then []
        else if optEnd < optPtr + optLen then []
        else optPtr :: walked mem optEnd fuel (optPtr + optLen)

def takeOption (mem : Nat → U8) (tcb : Tcb) (optPtr : Nat) : Tcb :=
  takeTimestamp mem optPtr (takeWindow mem optPtr tcb)

def isWindow (mem : Nat → U8) (optPtr : Nat) : Bool :=
  mem optPtr = tcpoptWindow ∧ mem (optPtr + 1) = tcpolenWindow

def isTimestamp (mem : Nat → U8) (optPtr : Nat) : Bool :=
  mem optPtr = tcpoptTimestamp ∧ mem (optPtr + 1) = tcpolenTimestamp

theorem isWindow_iff {p : Nat} :
    isWindow mem p ↔ mem p = tcpoptWindow ∧ mem (p + 1) = tcpolenWindow :=
  decide_eq_true_iff

theorem isTimestamp_iff {p : Nat} :
    isTimestamp mem p ↔ mem p = tcpoptTimestamp ∧ mem (p + 1) = tcpolenTimestamp :=
  decide_eq_true_iff

theorem walkOptions_foldl (fuel : Nat) :
    ∀ optPtr tcb, walkOptions mem optEnd fuel optPtr tcb =
      (walked mem optEnd fuel optPtr).foldl (takeOption mem) tcb := by
  induction fuel with
  | zero => exact fun _ _ => rfl
  | succ fuel ih =>
      intro optPtr tcb
      simp only [walkOptions, walked]
      split_ifs
      · rfl
      · rfl
      · exact ih _ _
      · rfl
      · rfl
      · exact ih _ _

theorem le_of_mem_walked (fuel : Nat) :
    ∀ {start optPtr : Nat}, optPtr ∈ walked mem optEnd fuel start → start ≤ optPtr := by
  induction fuel with
  | zero => exact fun h => absurd h List.not_mem_nil
  | succ fuel ih =>
      intro start optPtr h
      simp only [walked] at h
      split_ifs at h
      · exact absurd h List.not_mem_nil
      · exact absurd h List.not_mem_nil
      · exact Nat.le_trans (Nat.le_succ _) (ih h)
      · exact absurd h List.not_mem_nil
      · exact absurd h List.not_mem_nil
      · rcases List.mem_cons.mp h with rfl | h
        · exact Nat.le_refl _
        · exact Nat.le_trans (Nat.le_add_right _ _) (ih h)

theorem walked_ascending (fuel : Nat) :
    ∀ start, (walked mem optEnd fuel start).Pairwise (· < ·) := by
  induction fuel with
  | zero => exact fun _ => .nil
  | succ fuel ih =>
      intro start
      simp only [walked]
      split_ifs
      · exact .nil
      · exact .nil
      · exact ih _
      · exact .nil
      · exact .nil
      · rename_i hpos hfits
        refine .cons (fun optPtr h => ?_) (ih _)
        have hle := le_of_mem_walked fuel h
        omega

/-- The place of the option in which the loop of `extract_tsecr` finds the echo. -/
def echoAt (mem : Nat → U8) (endPtr : Nat) : Nat → Nat → Option Nat
  | 0, _ => none
  | fuel + 1, p =>
      if endPtr ≤ p then none
      else if mem p = tcpoptEol then none
      else if mem p = tcpoptNop then echoAt mem endPtr fuel (p + 1)
      else if endPtr ≤ p + 1 then none
      else
        let len := mem (p + 1)
        if len.toNat < 2 ∨ endPtr < p + len.toNat then none
        else if mem p = tcpoptTimestamp ∧ len = tcpolenTimestamp then some p
        else echoAt mem endPtr fuel (p + len.toNat)

theorem findTsecr_echoAt (fuel : Nat) :
    ∀ p, findTsecr mem optEnd fuel p =
      (echoAt mem optEnd fuel p).map fun p => wordAt mem (p + 6) := by
  induction fuel with
  | zero => exact fun _ => rfl
  | succ fuel ih =>
      intro p
      simp only [findTsecr, echoAt]
      split_ifs
      · rfl
      · rfl
      · exact ih _
      · rfl
      · rfl
      · rfl
      · exact ih _

/-- The first timestamp among some options with none of length one before it. -/
def firstEcho (mem : Nat → U8) : List Nat → Option Nat
  | [] => none
  | p :: rest =>
      if mem (p + 1) = 1 then none else if isTimestamp mem p then some p else firstEcho mem rest

theorem eq_one_iff {b : U8} : b = 1 ↔ b.toNat = 1 := BitVec.toNat_inj.symm

theorem echoAt_eq (fuel : Nat) :
    ∀ p, echoAt mem optEnd fuel p = firstEcho mem (walked mem optEnd fuel p) := by
  induction fuel with
  | zero => exact fun _ => rfl
  | succ fuel ih =>
      intro p
      simp only [echoAt, walked]
      split_ifs with hend heol hnop hlast hzero hover hbad hzero hover hstamp hzero hover hzero hover
      · rfl
      · rfl
      · exact ih _
      · rfl
      · rfl
      · rw [firstEcho, if_pos (eq_one_iff.mpr (by omega))]
      · rfl
      · rfl
      · rw [firstEcho, if_pos (eq_one_iff.mpr (by omega))]
      · omega
      · omega
      · have hone : ¬ mem (p + 1) = 1 := by
          rw [eq_one_iff]
          omega
        rw [firstEcho, if_neg hone, if_pos (isTimestamp_iff.mpr hstamp)]
      · omega
      · omega
      · have hone : ¬ mem (p + 1) = 1 := by
          rw [eq_one_iff]
          omega
        rw [firstEcho, if_neg hone, if_neg (mt isTimestamp_iff.mp hstamp)]
        exact ih _

/-- The options of a segment. -/
def optionsOf (env : Env) (seg : TcpSegment) : List Nat :=
  let optEnd := dataOffset seg.hdr - sizeofTcpHdr
  walked (byteAt env seg) optEnd optEnd 0

/-- The place of the timestamp option whose TSval `process_window_option` stores. -/
def recordedAt (env : Env) (seg : TcpSegment) : Option Nat :=
  ((optionsOf env seg).filter (isTimestamp (byteAt env seg))).getLast?

/-- The place of the timestamp option whose TSecr `extract_tsecr` returns. -/
def foundAt (env : Env) (seg : TcpSegment) : Option Nat :=
  let endPtr := dataOffset seg.hdr - sizeofTcpHdr
  echoAt (byteAt env seg) endPtr endPtr 0

theorem processWindowOption_foldl (env : Env) (seg : TcpSegment) (tcb : Tcb) :
    processWindowOption env seg tcb =
      (optionsOf env seg).foldl (takeOption (byteAt env seg)) tcb := by
  rw [processWindowOption]
  split
  · exact walkOptions_foldl ..
  · rename_i hbare
    have hnone : optionsOf env seg = [] := by
      rw [optionsOf, show dataOffset seg.hdr - sizeofTcpHdr = 0 by omega]
      rfl
    rw [hnone]
    rfl

theorem takeOption_stamps (tcb : Tcb) (p : Nat) :
    ((takeOption mem tcb p).tsRecent, (takeOption mem tcb p).tsEnabled) =
      if isTimestamp mem p then (wordAt mem (p + 2), true) else (tcb.tsRecent, tcb.tsEnabled) := by
  have hwindow : (takeWindow mem p tcb).tsRecent = tcb.tsRecent ∧
      (takeWindow mem p tcb).tsEnabled = tcb.tsEnabled := by
    rw [takeWindow]
    split <;> exact ⟨rfl, rfl⟩
  rw [takeOption, takeTimestamp]
  split
  · rename_i hstamp
    rw [if_pos (isTimestamp_iff.mpr hstamp)]
  · rename_i hstamp
    rw [if_neg (mt isTimestamp_iff.mp hstamp), hwindow.1, hwindow.2]

theorem takeOption_scale (tcb : Tcb) (p : Nat) :
    ((takeOption mem tcb p).sndScale, (takeOption mem tcb p).scaleEnabled) =
      if isWindow mem p then (mem (p + 2), true) else (tcb.sndScale, tcb.scaleEnabled) := by
  have hstamp : (takeOption mem tcb p).sndScale = (takeWindow mem p tcb).sndScale ∧
      (takeOption mem tcb p).scaleEnabled = (takeWindow mem p tcb).scaleEnabled := by
    rw [takeOption, takeTimestamp]
    split <;> exact ⟨rfl, rfl⟩
  rw [hstamp.1, hstamp.2, takeWindow]
  split
  · rename_i hwindow
    rw [if_pos (isWindow_iff.mpr hwindow)]
  · rename_i hwindow
    rw [if_neg (mt isWindow_iff.mp hwindow)]

theorem processWindowOption_stamps (env : Env) (seg : TcpSegment) (tcb : Tcb) :
    ((processWindowOption env seg tcb).tsRecent, (processWindowOption env seg tcb).tsEnabled) =
      ((recordedAt env seg).map fun p => (wordAt (byteAt env seg) (p + 2), true)).getD
        (tcb.tsRecent, tcb.tsEnabled) := by
  rw [processWindowOption_foldl]
  exact get_foldl (fun tcb : Tcb => (tcb.tsRecent, tcb.tsEnabled)) takeOption_stamps _ tcb

theorem extractTsecr_eq (env : Env) (seg : TcpSegment) :
    extractTsecr env seg =
      (foundAt env seg).map fun p => wordAt (byteAt env seg) (p + 6) := by
  rw [extractTsecr]
  split
  · rename_i hbare
    rw [foundAt, show dataOffset seg.hdr - sizeofTcpHdr = 0 by omega]
    rfl
  · exact findTsecr_echoAt ..

/-- A timestamp is the only one among some options, and none of length one stands
before it. -/
def Sound (mem : Nat → U8) (options : List Nat) : Prop :=
  ∀ before p behind, options = before ++ p :: behind → isTimestamp mem p →
    (∀ q ∈ before, mem (q + 1) ≠ 1) ∧ ∀ q ∈ behind, isTimestamp mem q = false

/-- None of some options is a timestamp. -/
def NoTimestamp (mem : Nat → U8) (options : List Nat) : Prop :=
  ∀ q ∈ options, isTimestamp mem q = false

theorem getLast?_eq_none_iff {options : List Nat} :
    (options.filter (isTimestamp mem)).getLast? = none ↔ NoTimestamp mem options := by
  rw [List.getLast?_eq_none_iff, List.filter_eq_nil_iff]
  simp only [NoTimestamp, Bool.not_eq_true]

theorem NoTimestamp.sound {options : List Nat} (h : NoTimestamp mem options) :
    Sound mem options := by
  rintro before p behind rfl hstamp
  rw [h p (List.mem_append_right _ List.mem_cons_self)] at hstamp
  cases hstamp

theorem sound_cons_iff {q : Nat} {rest : List Nat} :
    Sound mem (q :: rest) ↔
      (isTimestamp mem q ∨ mem (q + 1) = 1 → NoTimestamp mem rest) ∧ Sound mem rest := by
  constructor
  · rintro h
    constructor
    · rintro hq r hr
      obtain ⟨before, behind, rfl⟩ := List.append_of_mem hr
      rcases hq with hstamp | hone
      · exact (h [] q _ rfl hstamp).2 r hr
      · by_contra hstamp
        rw [Bool.not_eq_false] at hstamp
        exact (h (q :: before) r behind rfl hstamp).1 q List.mem_cons_self hone
    · rintro before p behind rfl hstamp
      obtain ⟨hbefore, hbehind⟩ := h (q :: before) p behind rfl hstamp
      exact ⟨fun r hr => hbefore r (List.mem_cons_of_mem _ hr), hbehind⟩
  · rintro ⟨hfirst, hrest⟩ before p behind heq hstamp
    cases before with
    | nil =>
        obtain ⟨rfl, rfl⟩ := List.cons.inj heq
        exact ⟨fun r hr => absurd hr List.not_mem_nil, hfirst (.inl hstamp)⟩
    | cons q' before =>
        obtain ⟨rfl, rfl⟩ := List.cons.inj heq
        obtain ⟨hbefore, hbehind⟩ := hrest before p behind rfl hstamp
        refine ⟨fun r hr => ?_, hbehind⟩
        rcases List.mem_cons.mp hr with rfl | hr
        · rintro hone
          have hnone := hfirst (.inr hone) p (List.mem_append_right _ List.mem_cons_self)
          rw [hnone] at hstamp
          cases hstamp
        · exact hbefore r hr

/-- The last timestamp is the first echo exactly where the options are sound. -/
theorem last_eq_first_iff {options : List Nat} (hascending : options.Pairwise (· < ·)) :
    (options.filter (isTimestamp mem)).getLast? = firstEcho mem options ↔ Sound mem options := by
  induction options with
  | nil =>
      have hnone : NoTimestamp mem [] := fun q hq => absurd hq List.not_mem_nil
      exact ⟨fun _ => hnone.sound, fun _ => rfl⟩
  | cons q rest ih =>
      obtain ⟨hbehind, hrest⟩ := List.pairwise_cons.mp hascending
      rw [sound_cons_iff, firstEcho, List.filter_cons]
      by_cases hone : mem (q + 1) = 1
      · have hstamp : isTimestamp mem q = false := by
          rw [← Bool.not_eq_true, isTimestamp_iff, hone]
          rintro ⟨-, hlen⟩
          exact absurd hlen (by decide)
        rw [if_pos hone, hstamp, if_neg (by decide), getLast?_eq_none_iff]
        exact ⟨fun hnone => ⟨fun _ => hnone, hnone.sound⟩, fun h => h.1 (.inr hone)⟩
      · rw [if_neg hone]
        cases hstamp : isTimestamp mem q with
        | true =>
            rw [if_pos rfl, if_pos rfl, List.getLast?_cons, Option.some_inj]
            constructor
            · rintro hlast
              have hnone : NoTimestamp mem rest := by
                rw [← getLast?_eq_none_iff]
                by_contra hsome
                obtain ⟨last, hlast'⟩ := Option.ne_none_iff_exists'.mp hsome
                have hmem : last ∈ rest := List.mem_of_mem_filter (List.mem_of_getLast? hlast')
                rw [hlast', Option.getD_some] at hlast
                exact absurd (hbehind last hmem) (by omega)
              exact ⟨fun _ => hnone, hnone.sound⟩
            · rintro ⟨hnone, -⟩
              rw [getLast?_eq_none_iff.mpr (hnone (.inl rfl)), Option.getD_none]
        | false =>
            rw [if_neg (by decide), if_neg (by decide), ih hrest]
            refine ⟨fun h => ⟨fun hor => ?_, h⟩, fun h => h.2⟩
            rcases hor with hor | hor
            · cases hor
            · exact absurd hor hone

/-- The two walkers take their values from the same option, or both from none,
exactly where a timestamp among the options is the only one and stands before
any option of length one. -/
theorem walkers_agree_iff (env : Env) (seg : TcpSegment) (tcb : Tcb) :
    (((processWindowOption env seg tcb).tsRecent, (processWindowOption env seg tcb).tsEnabled) =
        ((recordedAt env seg).map fun p => (wordAt (byteAt env seg) (p + 2), true)).getD
          (tcb.tsRecent, tcb.tsEnabled) ∧
      extractTsecr env seg = (foundAt env seg).map fun p => wordAt (byteAt env seg) (p + 6)) ∧
    (recordedAt env seg = foundAt env seg ↔ Sound (byteAt env seg) (optionsOf env seg)) := by
  refine ⟨⟨processWindowOption_stamps env seg tcb, extractTsecr_eq env seg⟩, ?_⟩
  rw [recordedAt, foundAt, echoAt_eq]
  exact last_eq_first_iff (walked_ascending _ _)

/-- A segment of option words only. -/
def optionSegment (thOffFlags : U8) (options : List U8) : TcpSegment where
  hdr :=
    { thSport := 0
      thDport := 0
      thSeq := 0
      thAck := 0
      thOffFlags
      thFlags := thAck
      thWin := 0
      thSum := 0
      thUrp := 0 }
  data := options

def twoTimestamps : TcpSegment :=
  optionSegment 0xA0 [8, 10, 0, 0, 0, 1, 0, 0, 0, 2, 8, 10, 0, 0, 0, 3, 0, 0, 0, 4]

def behindLengthOne : TcpSegment := optionSegment 0x80 [5, 1, 8, 10, 0, 0, 0, 1, 0, 0, 0, 2]

/-- With two timestamps TSval is of the second and TSecr of the first; behind an
option of length one only TSval is taken. -/
theorem walkers_differ :
    (recordedAt (.still 0) twoTimestamps = some 10 ∧ foundAt (.still 0) twoTimestamps = some 0 ∧
      (processWindowOption (.still 0) twoTimestamps utcpSocket).tsRecent = 3 ∧
      extractTsecr (.still 0) twoTimestamps = some 2) ∧
    recordedAt (.still 0) behindLengthOne = some 2 ∧ foundAt (.still 0) behindLengthOne = none ∧
      (processWindowOption (.still 0) behindLengthOne utcpSocket).tsRecent = 1 ∧
      extractTsecr (.still 0) behindLengthOne = none := by
  decide

end Utcp.OptionWalks
