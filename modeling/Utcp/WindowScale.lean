import Utcp.SectionCases
import Utcp.OptionWalks
import Utcp.Frames

/-!
The window scale of the peer: when it changes, and what it makes of the window
field of a segment.
-/

namespace Utcp.WindowScale

open Traces
open TransitionSystems
open Utcp.Tcp
open Utcp.Utils
open Utcp.Output
open Utcp.CongestionControl
open Utcp.Timers
open Utcp.Input
open Utcp.Api
open Utcp.Steps
open Utcp.Sections
open Utcp.SectionCases
open Utcp.OptionWalks

variable {env : Env} {tcb tcb' : Tcb} {seg : TcpSegment} {peer : Peer} {out : Out}
  {log : List Event} {In : TcpSegment → Prop} {Ex : U8 → Prop}

/-- `snd_scale` and `scale_enabled`. -/
def scaleOf (tcb : Tcb) : U8 × Bool := (tcb.sndScale, tcb.scaleEnabled)

/-- The shift in the last window scale option of a segment. -/
def lastShift (env : Env) (seg : TcpSegment) : Option U8 :=
  ((optionsOf env seg).filter (isWindow (byteAt env seg))).getLast?.map fun p =>
    byteAt env seg (p + 2)

theorem processWindowOption_scale (env : Env) (seg : TcpSegment) (tcb : Tcb) :
    scaleOf (processWindowOption env seg tcb) =
      ((lastShift env seg).map fun shift => (shift, true)).getD (scaleOf tcb) := by
  rw [processWindowOption_foldl, lastShift, Option.map_map]
  exact get_foldl scaleOf takeOption_scale _ tcb

theorem output_scale (readings : Nat → Reading) (tcb : Tcb) :
    scaleOf (utcpOutput readings tcb).tcb = scaleOf tcb := by
  obtain ⟨_, _, _, _, _, _, _, heq⟩ := utcpOutput_eq readings tcb
  rw [heq]
  rfl

theorem congControl_scale {args : CcEventArgs} (h : congControl env tcb args = some out) :
    scaleOf out.tcb = scaleOf tcb := by
  by_cases hargs : ∃ flight, args = .timeout flight
  · obtain ⟨flight, rfl⟩ := hargs
    obtain ⟨recover, htimeout⟩ := congControl_timeout env tcb flight
    obtain ⟨ssthresh, heq⟩ := ccTimeout_eq { tcb with recover } flight
    rw [htimeout, heq] at h
    cases h
    rfl
  · cases congControl_reaction (not_exists.mp hargs) h with
    | change => rfl
    | retransmit => rfl
    | burst cwnd => exact output_scale env.burst _

theorem handleAck_scale (h : handleAck env tcb seg = some out) :
    scaleOf out.tcb = scaleOf tcb := by
  cases handleAck_cases h with
  | acked cc hack hcc =>
      obtain ⟨_, _, _, _, _, _, _, heq⟩ := beforeAckEvent_eq env tcb seg
      rw [heq] at hcc
      have hscale := congControl_scale hcc
      exact hscale
  | window => rfl
  | duplicate _ _ _ _ _ _ _ _ hcc =>
      have hscale := congControl_scale hcc
      exact hscale
  | ignored => rfl

theorem handleReceivedData_scale (h : handleReceivedData env tcb seg = some out) :
    scaleOf out.tcb = scaleOf (processWindowOption env seg tcb) := by
  obtain ⟨acked, hacked, hout⟩ := Option.bind_eq_some_iff.mp h
  cases hout
  obtain ⟨_, _, _, _, _, _, _, _, _, _, _, _, heq⟩ := handleData_eq env acked.tcb seg
  have hdata : scaleOf (handleData env acked.tcb seg).tcb = scaleOf acked.tcb := by
    rw [heq]
    rfl
  exact hdata.trans (handleAck_scale hacked)

/-- The segments whose options count: the one that opens the connection, and
those `handle_received_data` gets. -/
def takesOptions (tcb : Tcb) (hdr : TcpHdr) : Bool :=
  match tcb.state with
  | .listen => hasFlag hdr.thFlags thSyn
  | .synSent => isAwaitedSynAck tcb hdr
  | .synRecv => true
  | .established => true
  | _ => false

theorem takesOptions_receiving {hdr : TcpHdr} (h : Receiving tcb) : takesOptions tcb hdr := by
  rcases h with hstate | hstate
  · rw [takesOptions, hstate]
  · rw [takesOptions, hstate]

theorem utcpInput_scale (h : utcpInput env tcb seg peer = some out) :
    scaleOf out.tcb =
      if takesOptions tcb seg.hdr then
        ((lastShift env seg).map fun shift => (shift, true)).getD (scaleOf tcb)
      else scaleOf tcb := by
  cases utcpInput_cases h with
  | syn hstate hflag =>
      have htakes : takesOptions tcb seg.hdr := by
        rw [takesOptions, hstate]
        exact hflag
      rw [if_pos htakes, output_scale]
      exact processWindowOption_scale env seg tcb
  | synAck cc hstate hawaited hcc =>
      have htakes : takesOptions tcb seg.hdr := by
        rw [takesOptions, hstate]
        exact hawaited
      have hsent : scaleOf (utcpOutput env.output (setAcknow cc.tcb)).tcb = scaleOf cc.tcb :=
        output_scale env.output (setAcknow cc.tcb)
      rw [if_pos htakes]
      exact hsent.trans ((congControl_scale hcc).trans (processWindowOption_scale env seg _))
  | finalAck cc rest hstate hcompletes hcc hrest =>
      have hfinal : scaleOf cc.tcb = scaleOf (acceptFinalAck tcb seg) := congControl_scale hcc
      have hrest' := (handleReceivedData_scale hrest).trans (processWindowOption_scale env seg cc.tcb)
      rw [hfinal] at hrest'
      rw [if_pos (takesOptions_receiving (.inl hstate))]
      exact hrest'
  | received _ hstate hnot hrest =>
      rw [if_pos (takesOptions_receiving hstate), handleReceivedData_scale hrest,
        processWindowOption_scale]
  | ignored hstate hlisten hsent =>
      have htakes : takesOptions tcb seg.hdr = false := by
        rw [takesOptions]
        split
        · rename_i h
          exact hlisten h
        · rename_i h
          exact hsent h
        · rename_i h
          exact absurd (.inl h) hstate
        · rename_i h
          exact absurd (.inr h) hstate
        · rfl
      rw [htakes]
      rfl

theorem output_scale_eq (readings : Nat → Reading) (log : List Event)
    (h : scaleOf tcb' = scaleOf tcb) :
    scaleOf (Out.mk (utcpOutput readings tcb').tcb log).tcb = scaleOf tcb :=
  (output_scale readings tcb').trans h

theorem tickTimer_scale {timer : Timer} (h : TickCases env tcb timer out) :
    scaleOf out.tcb = scaleOf tcb := by
  cases h with
  | idle => rfl
  | countDown => rfl
  | rexmt recover hticks hcc =>
      apply output_scale_eq
      obtain ⟨_, _, heq⟩ := expireRexmt_eq env tcb recover
      rw [heq]
      rfl
  | delack =>
      apply output_scale_eq
      rfl
  | other => rfl

theorem utcpSend_scale (envs : Nat → Env) (tcb : Tcb) (bytes : List U8) :
    scaleOf (utcpSend envs tcb bytes).1.tcb = scaleOf tcb := by
  refine utcpSend_composes (composes_eq scaleOf) ?_ tcb bytes
  rintro turn tcb chunk
  exact output_scale (envs turn).output (writeChunk tcb chunk)

theorem setAcknow_scale (tcb : Tcb) : scaleOf (setAcknow tcb) = scaleOf tcb := rfl

theorem takeBytes_scale (tcb : Tcb) (n : Nat) : scaleOf (takeBytes tcb n) = scaleOf tcb := by
  obtain ⟨_, _, heq⟩ := takeBytes_eq tcb n
  rw [heq]
  rfl

theorem run_scale {e e' : Endpoint} {s : Section} (h : e.run s = some (e', log))
    (hlocal : ∀ env seg peer, s ≠ .input env seg peer) : scaleOf e'.tcb = scaleOf e.tcb := by
  obtain ⟨out, hcases, hran⟩ := run_cases h
  rw [hran.tcb_eq]
  cases hcases with
  | connect env ip port hstate =>
      have hconnect : scaleOf (utcpConnect env e.tcb ip port).tcb = _ := output_scale env.output _
      exact hconnect
  | input env seg peer => exact absurd rfl (hlocal env seg peer)
  | slowtimo envs out hout =>
      refine utcpSlowtimo_composes (composes_eq scaleOf) ?_ rfl hout
      exact fun timer tcb out hcases => tickTimer_scale hcases
  | send envs bytes => exact utcpSend_scale envs e.tcb bytes
  | wake envs bytes => exact utcpSend_scale envs e.tcb bytes
  | read env len out hstate hread =>
      cases hread with
      | update n =>
          exact output_scale_eq env.output _
            ((setAcknow_scale _).trans (takeBytes_scale e.tcb n))
      | quiet n => exact takeBytes_scale e.tcb n

/-- Whether a section leaves the scale negotiated once and safe: a segment that
opens the connection has a shift of at most 14, one that arrives later repeats
the shift in use. A segment without a window scale option is free to come. -/
def ScaleOnce (e : Endpoint) : Section → Prop
  | .input env seg _ =>
      ∀ shift, lastShift env seg = some shift → takesOptions e.tcb seg.hdr →
        (Receiving e.tcb → scaleOf e.tcb = (shift, true)) ∧
          (¬ Receiving e.tcb → shift.toNat ≤ 14)
  | _ => True

/-- The endpoint leaves `LISTEN` or `SYN_SENT`. -/
def Opens (e e' : Endpoint) : Section → Prop
  | .input _ seg _ =>
      e.tcb.state = .listen ∧ hasFlag seg.hdr.thFlags thSyn ∧ e'.tcb.state = .synRecv ∨
        e.tcb.state = .synSent ∧ isAwaitedSynAck e.tcb seg.hdr ∧ e'.tcb.state = .established
  | _ => False

/-- The scale changes with the handshake only, and the shift does what it says. -/
structure Negotiated (e : Endpoint) (s : Section) (e' : Endpoint) : Prop where
  once : scaleOf e'.tcb ≠ scaleOf e.tcb → Opens e e' s
  small : e'.tcb.sndScale.toNat ≤ 14
  exact : ∀ hdr : TcpHdr, hasFlag hdr.thFlags thSyn = false →
    (getScaledWin e'.tcb hdr).toNat = hdr.thWin.toNat * 2 ^ e'.tcb.sndScale.toNat

/-- The shift is small, and zero while scaling is off. -/
structure SmallScale (scale : U8 × Bool) : Prop where
  small : scale.1.toNat ≤ 14
  off : scale.2 = false → scale.1 = 0

theorem SmallScale.exact (h : SmallScale (scaleOf tcb)) {hdr : TcpHdr}
    (hsyn : hasFlag hdr.thFlags thSyn = false) :
    (getScaledWin tcb hdr).toNat = hdr.thWin.toNat * 2 ^ tcb.sndScale.toNat := by
  have hwin := hdr.thWin.isLt
  rw [getScaledWin, hsyn]
  cases hon : tcb.scaleEnabled with
  | false =>
      have hzero : tcb.sndScale = 0 := h.off hon
      rw [hzero]
      simp
      omega
  | true =>
      have hsmall : tcb.sndScale.toNat ≤ 14 := h.small
      have hmod : hdr.thWin.toNat % 2 ^ 32 = hdr.thWin.toNat := Nat.mod_eq_of_lt (by omega)
      have hpow : 2 ^ tcb.sndScale.toNat ≤ 2 ^ 14 := Nat.pow_le_pow_right (by decide) hsmall
      have hprod : hdr.thWin.toNat * 2 ^ tcb.sndScale.toNat < 2 ^ 32 := by
        calc hdr.thWin.toNat * 2 ^ tcb.sndScale.toNat
            ≤ 2 ^ 16 * 2 ^ 14 := Nat.mul_le_mul (Nat.le_of_lt hwin) hpow
          _ < 2 ^ 32 := by decide
      rw [if_pos (by decide), BitVec.toNat_shiftLeft, BitVec.toNat_setWidth, hmod,
        Nat.shiftLeft_eq, Nat.mod_eq_of_lt hprod]

theorem output_state_eq {state : TcpState} (readings : Nat → Reading) (log : List Event)
    (h : tcb.state = state) :
    (Out.mk (utcpOutput readings (setAcknow tcb)).tcb log).tcb.state = state :=
  (utcpOutput_state readings (setAcknow tcb)).trans h

theorem opens_of_takesOptions (h : utcpInput env tcb seg peer = some out)
    (htakes : takesOptions tcb seg.hdr) (hnot : ¬ Receiving tcb) :
    tcb.state = .listen ∧ hasFlag seg.hdr.thFlags thSyn ∧ out.tcb.state = .synRecv ∨
      tcb.state = .synSent ∧ isAwaitedSynAck tcb seg.hdr ∧ out.tcb.state = .established := by
  cases utcpInput_cases h with
  | syn hstate hflag => exact .inl ⟨hstate, hflag, utcpOutput_state ..⟩
  | synAck cc hstate hawaited hcc =>
      obtain ⟨recover, hinit⟩ := congControl_init env (acceptSynAck env tcb seg)
      have hopened : cc.tcb.state = .established := by
        rw [← Option.some.inj (hinit.symm.trans hcc)]
        simp [ccInit, acceptSynAck]
      exact .inr ⟨hstate, hawaited, output_state_eq env.output _ hopened⟩
  | finalAck cc rest hstate => exact absurd (.inl hstate) hnot
  | received _ hstate => exact absurd hstate hnot
  | ignored hstate hlisten hsent =>
      rw [takesOptions] at htakes
      split at htakes
      · rename_i h
        rw [hlisten h] at htakes
        cases htakes
      · rename_i h
        rw [hsent h] at htakes
        cases htakes
      · rename_i h
        exact absurd (.inl h) hnot
      · rename_i h
        exact absurd (.inr h) hnot
      · cases htakes

theorem input_scale {e e' : Endpoint} {shift : U8}
    (h : e.run (.input env seg peer) = some (e', log)) (htakes : takesOptions e.tcb seg.hdr)
    (hlast : lastShift env seg = some shift) : scaleOf e'.tcb = (shift, true) := by
  obtain ⟨out, hout, h⟩ := Option.map_eq_some_iff.mp h
  cases h
  have hscale := utcpInput_scale hout
  rw [if_pos htakes, hlast] at hscale
  exact hscale

theorem input_scale_other {e e' : Endpoint} (h : e.run (.input env seg peer) = some (e', log))
    (hnone : ∀ shift, lastShift env seg = some shift → takesOptions e.tcb seg.hdr = false) :
    scaleOf e'.tcb = scaleOf e.tcb := by
  obtain ⟨out, hout, h⟩ := Option.map_eq_some_iff.mp h
  cases h
  have hscale := utcpInput_scale hout
  cases hlast : lastShift env seg with
  | none =>
      rw [hlast] at hscale
      split at hscale
      · exact hscale
      · exact hscale
  | some shift =>
      rw [if_neg (by rw [hnone shift hlast]; decide)] at hscale
      exact hscale

theorem ScaleOnce.smallScale {e e' : Endpoint} {s : Section} (h : ScaleOnce e s)
    (hsmall : SmallScale (scaleOf e.tcb)) (hrun : e.run s = some (e', log)) :
    SmallScale (scaleOf e'.tcb) := by
  cases s with
  | input env seg peer =>
      by_cases hcounts : ∃ shift, lastShift env seg = some shift ∧ takesOptions e.tcb seg.hdr
      · obtain ⟨shift, hlast, htakes⟩ := hcounts
        obtain ⟨hlater, hopening⟩ := h shift hlast htakes
        rw [input_scale hrun htakes hlast]
        rcases em (Receiving e.tcb) with hstate | hstate
        · rw [← hlater hstate]
          exact hsmall
        · refine ⟨hopening hstate, ?_⟩
          rintro ⟨⟩
      · rw [input_scale_other hrun]
        · exact hsmall
        · rintro shift hlast
          rw [← Bool.not_eq_true]
          exact fun htakes => hcounts ⟨shift, hlast, htakes⟩
  | _ =>
      rw [run_scale hrun (by simp)]
      exact hsmall

theorem smallScale_start {e : Endpoint} (h : e.Fresh) : SmallScale (scaleOf e.tcb) := by
  obtain ⟨ip, port, rfl | rfl⟩ := h
  · exact ⟨show (0 : U8).toNat ≤ 14 by decide, fun _ => rfl⟩
  · exact ⟨show (0 : U8).toNat ≤ 14 by decide, fun _ => rfl⟩

/-- In a run whose segments all leave the scale negotiated once, a section does
what it should to the scale exactly where its segment leaves it so, too. -/
theorem negotiated_iff {e e' : Endpoint} {s : Section} (h : ReachedBy endpoints ScaleOnce e)
    (hrun : e.run s = some (e', log)) : Negotiated e s e' ↔ ScaleOnce e s := by
  have hsmall : SmallScale (scaleOf e.tcb) := by
    apply h.invariant
    · exact fun _ => smallScale_start
    · rintro e s e' - hsmall honce ⟨log, hstep⟩
      exact honce.smallScale hsmall hstep
  constructor
  · rintro hnegotiated
    cases s with
    | input env seg peer =>
        rintro shift hlast htakes
        have hscale := input_scale hrun htakes hlast
        constructor
        · rintro hstate
          by_contra hother
          rw [← hscale] at hother
          rcases hnegotiated.once (Ne.symm hother) with ⟨hlisten, -⟩ | ⟨hsent, -⟩
          · rw [Receiving, hlisten] at hstate
            simp at hstate
          · rw [Receiving, hsent] at hstate
            simp at hstate
        · rintro -
          have hshift : e'.tcb.sndScale = shift := congrArg Prod.fst hscale
          rw [← hshift]
          exact hnegotiated.small
    | _ => trivial
  · rintro honce
    have hsmall' := honce.smallScale hsmall hrun
    refine ⟨?_, hsmall'.small, fun hdr hsyn => hsmall'.exact hsyn⟩
    rintro hchanged
    cases s with
    | input env seg peer =>
        by_cases hcounts : ∃ shift, lastShift env seg = some shift ∧ takesOptions e.tcb seg.hdr
        · obtain ⟨shift, hlast, htakes⟩ := hcounts
          have hnot : ¬ Receiving e.tcb := by
            rintro hstate
            apply hchanged
            rw [input_scale hrun htakes hlast, (honce shift hlast htakes).1 hstate]
          obtain ⟨out, hout, hfinish⟩ := Option.map_eq_some_iff.mp hrun
          cases hfinish
          exact opens_of_takesOptions hout htakes hnot
        · refine absurd (input_scale_other hrun ?_) hchanged
          rintro shift hlast
          rw [← Bool.not_eq_true]
          exact fun htakes => hcounts ⟨shift, hlast, htakes⟩
    | _ => exact absurd (run_scale hrun (by simp)) hchanged

/-- A segment without payload whose only option is a window scale. -/
def scaleSegment (seq : U32) (flags shift : U8) : Section :=
  .input (.still 0) ⟨⟨0, 0, seq, 1, 0x60, flags, 100, 0, 0⟩, [3, 3, shift, 0]⟩ ⟨0, 0⟩

def listener : Endpoint := .start (utcpListen (utcpBind utcpSocket 0 0))

theorem listener_reached : ReachedBy endpoints ScaleOnce listener := .init ⟨0, 0, .inr rfl⟩

theorem scaleOnce_syn : ScaleOnce listener (scaleSegment 7 thSyn 7) := by
  rintro shift hlast -
  have hseven : lastShift (.still 0) ⟨⟨0, 0, 7, 1, 0x60, thSyn, 100, 0, 0⟩, [3, 3, 7, 0]⟩ =
      some 7 := by decide
  obtain rfl : 7 = shift := Option.some.inj (hseven.symm.trans hlast)
  refine ⟨?_, fun _ => by decide⟩
  rintro (hstate | hstate)
  · cases hstate
  · cases hstate

/-- A listener takes the shift of a SYN. -/
theorem negotiated_syn :
    ∃ e log, listener.run (scaleSegment 7 thSyn 7) = some (e, log) ∧ e.tcb.sndScale = 7 ∧
      Negotiated listener (scaleSegment 7 thSyn 7) e := by
  have hscale : (listener.run (scaleSegment 7 thSyn 7)).map (fun result => result.1.tcb.sndScale) =
      some 7 := by
    decide +kernel
  obtain ⟨⟨e, log⟩, hrun, hseven⟩ := Option.map_eq_some_iff.mp hscale
  exact ⟨e, log, hrun, hseven, (negotiated_iff listener_reached hrun).mpr scaleOnce_syn⟩

/-- The final ACK of the handshake replaces the shift 7 by 40. -/
theorem scale_replaced :
    ∃ e e' log, ReachedBy endpoints ScaleOnce e ∧ e.tcb.sndScale = 7 ∧
      e.run (scaleSegment 8 thAck 40) = some (e', log) ∧ e'.tcb.sndScale = 40 ∧
      ¬ Negotiated e (scaleSegment 8 thAck 40) e' := by
  have hscale : (listener.run (scaleSegment 7 thSyn 7)).bind (fun result =>
      (result.1.run (scaleSegment 8 thAck 40)).map fun result' =>
        (result.1.tcb.sndScale, result'.1.tcb.sndScale)) = some (7, 40) := by
    decide +kernel
  obtain ⟨⟨e, log⟩, hfirst, hscale⟩ := Option.bind_eq_some_iff.mp hscale
  obtain ⟨⟨e', log'⟩, hsecond, hscales⟩ := Option.map_eq_some_iff.mp hscale
  obtain ⟨hseven, hforty⟩ := Prod.mk.inj hscales
  refine ⟨e, e', log', .step listener_reached scaleOnce_syn ⟨log, hfirst⟩, hseven, hsecond,
    hforty, ?_⟩
  rintro hnegotiated
  have hsmall := hnegotiated.small
  rw [hforty] at hsmall
  exact absurd hsmall (by decide)

end Utcp.WindowScale
