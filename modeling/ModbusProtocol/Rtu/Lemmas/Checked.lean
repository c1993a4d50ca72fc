import ModbusProtocol.Rtu.Impl.Checked
import ModbusProtocol.Rtu.Lemmas.Assembly

/-!
This module contains that the checked request assembly makes no fault, stops, and does what the unchecked one
does.
-/

open Modbus Posix

namespace Rtu

namespace Checked

-- The array is what the server holds.
structure Holds (rx : Object UInt8) (ctx : ServerCtx) : Prop where
  size : rx.size = ctx.rxLen
  known : rx.Known ctx.rxBuffer ctx.rxLen

theorem holds_ofMem (ctx : ServerCtx)
    : Holds (.ofMem ctx.rxBuffer ctx.rxLen) ctx := by
  exact ⟨rfl, Object.known_ofMem _ _⟩

variable {rx : Object UInt8} {ctx : ServerCtx} {aduCap : Nat}

theorem getCompleteRequestLen_ok (h : Holds rx ctx) (aduCap : Nat)
    : getCompleteRequestLen rx aduCap
        = .ok (Rtu.getCompleteRequestLen ctx.rxBuffer ctx.rxLen aduCap) := by
  unfold getCompleteRequestLen Rtu.getCompleteRequestLen
  rw [h.size]
  split
  . rfl
  . rw [h.known.load (by dsimp only [offsetFc]; omega), Object.ok_bind]
    dsimp only
    split
    . split
      . rfl
      . next hbyte =>
        rw [h.known.load (by dsimp only [offsetWriteByteCnt] at hbyte ⊢; omega), Object.ok_bind]
        split
        . rfl
        . split
          . rfl
          . rfl
    . split
      . rfl
      . split
        . rfl
        . rfl

theorem crc16_ok {m : Mem UInt8} {n length : Nat} (h : rx.Known m n) (hlen : length ≤ n)
    : crc16 rx length = .ok (Rtu.crc16 m length) := by
  have hloop := @Object.foldlM_range UInt16 UInt16 (fun _ crc crc' => crc = crc')
    (fun crc i => do
      let byte ← rx.load i
      return crcByte crc byte)
    (fun crc i => crcByte crc (m i)) 0xFFFF 0xFFFF length rfl
  obtain ⟨crc, hrun, hcrc⟩ := hloop (by
    intro i hi crc crc' hcrc
    refine ⟨_, ?_, rfl⟩
    rw [h.load (Nat.lt_of_lt_of_le hi hlen), Object.ok_bind, hcrc]
    rfl)
  unfold crc16
  rw [hrun, hcrc]
  rfl

theorem validateCrc_ok {m : Mem UInt8} {n frameLen : Nat} (h : rx.Known m n) (hlen : frameLen ≤ n)
    : validateCrc rx frameLen = .ok (Rtu.validateCrc m frameLen) := by
  unfold validateCrc Rtu.validateCrc
  split
  . rfl
  . next hmin =>
    dsimp only [rtuCrcLen] at hmin ⊢
    rw [crc16_ok h (by omega), Object.ok_bind, h.load (by omega), Object.ok_bind, h.load (by omega),
      Object.ok_bind]
    rfl

theorem dropRxBytes_ok (h : Holds rx ctx) {count : Nat} (hcount : count ≤ ctx.rxLen)
    (hlimit : ctx.rxLen < sizeLimit)
    : ∃ rx', dropRxBytes rx count = .ok rx' ∧ Holds rx' (Rtu.dropRxBytes ctx count) := by
  have hlen := (held_dropRxBytes ctx count hcount hlimit).2
  have hrem : (ctx.rxLen + sizeLimit - count) % sizeLimit = ctx.rxLen - count := hlen
  unfold dropRxBytes
  rw [h.size, if_pos hcount, h.known.loads (by omega), Object.ok_bind]
  refine ⟨_, rfl, ?_, ?_, ?_⟩
  . dsimp only
    rw [Mem.length_slice, hlen]
  . apply Nat.le_of_eq
    rw [Mem.length_slice, hlen]
  . intro i hi
    rw [hlen] at hi
    dsimp only
    rw [Mem.getElem?_slice _ _ _ _ hi]
    unfold Rtu.dropRxBytes
    dsimp only
    rw [hrem, if_pos hi]

-- The loop has stopped: more bytes are needed, for which there is room, or there is a frame that is all there
-- and fits.
structure Stopped (aduCap : Nat) (ctx : ServerCtx) (result : Option Nat) : Prop where
  loop : ∀ fuel, resyncLoop aduCap (fuel + 1) ctx = (result, ctx)
  room : result = none → ctx.rxLen < rtuMaxAduLength
  fits : ∀ frameLen ∈ result, rtuMinReqLength ≤ frameLen ∧ frameLen ≤ ctx.rxLen ∧ frameLen ≤ aduCap

theorem rxLen_of_incomplete {adu : Mem UInt8} {rxLen : Nat}
    (h : Rtu.getCompleteRequestLen adu rxLen rtuMaxAduLength = .incomplete)
    : rxLen < rtuMaxAduLength := by
  unfold Rtu.getCompleteRequestLen at h
  dsimp only [rtuMaxAduLength, rtuMinReqLength, offsetWriteByteCnt] at h ⊢
  grind

theorem rxLen_of_malformed {adu : Mem UInt8} {rxLen : Nat}
    (h : Rtu.getCompleteRequestLen adu rxLen rtuMaxAduLength = .malformed)
    : 1 ≤ rxLen := by
  unfold Rtu.getCompleteRequestLen at h
  grind

theorem rxLen_of_complete {adu : Mem UInt8} {rxLen frameLen : Nat}
    (h : Rtu.getCompleteRequestLen adu rxLen rtuMaxAduLength = .complete frameLen)
    : rtuMinReqLength ≤ frameLen ∧ frameLen ≤ rxLen := by
  rw [getCompleteRequestLen_eq] at h
  obtain ⟨hmin, -, hle⟩ := requestLen_complete h
  rw [Mem.length_slice] at hle
  exact ⟨hmin, hle⟩

-- A round that does not stop drops a byte, as the unchecked loop does before it goes on.
structure Skips (aduCap : Nat) (ctx : ServerCtx) (rx' : Object UInt8) : Prop where
  loop : ∀ fuel, resyncLoop aduCap (fuel + 1) ctx = resyncLoop aduCap fuel (Rtu.dropRxBytes ctx 1)
  pos : 1 ≤ ctx.rxLen
  holds : Holds rx' (Rtu.dropRxBytes ctx 1)

theorem resyncRound_ok (h : Holds rx ctx) (hlimit : ctx.rxLen < sizeLimit) (aduCap : Nat)
    : (∃ result, resyncRound aduCap rx = .ok (.stops result) ∧ Stopped aduCap ctx result) ∨
        ∃ rx', resyncRound aduCap rx = .ok (.goesOn rx') ∧ Skips aduCap ctx rx' := by
  unfold resyncRound
  rw [getCompleteRequestLen_ok h, Object.ok_bind]
  cases hreq : Rtu.getCompleteRequestLen ctx.rxBuffer ctx.rxLen rtuMaxAduLength with
  | incomplete =>
    refine .inl ⟨none, rfl, ?_, ?_, ?_⟩
    . intro fuel
      unfold resyncLoop
      rw [hreq]
    . intro
      exact rxLen_of_incomplete hreq
    . intro frameLen hframe
      contradiction
  | malformed =>
    have hpos := rxLen_of_malformed hreq
    obtain ⟨rx', hdrop, hholds⟩ := dropRxBytes_ok h hpos hlimit
    dsimp only
    rw [hdrop]
    refine .inr ⟨rx', rfl, ?_, hpos, hholds⟩
    intro fuel
    nth_rewrite 1 [resyncLoop]
    rw [hreq]
  | complete frameLen =>
    obtain ⟨hmin, hle⟩ := rxLen_of_complete hreq
    have hpos : 1 ≤ ctx.rxLen := by
      dsimp only [rtuMinReqLength] at hmin
      omega
    obtain ⟨rx', hdrop, hholds⟩ := dropRxBytes_ok h hpos hlimit
    dsimp only
    rw [validateCrc_ok h.known hle, hdrop]
    by_cases hfits : frameLen ≤ aduCap ∧ Rtu.validateCrc ctx.rxBuffer frameLen = true
    . rw [if_pos hfits.1, hfits.2]
      refine .inl ⟨some frameLen, rfl, ?_, ?_, ?_⟩
      . intro fuel
        unfold resyncLoop
        rw [hreq]
        dsimp only
        rw [if_pos hfits]
      . intro hnone
        contradiction
      . intro frameLen' hframe
        injection hframe with hframe
        subst hframe
        exact ⟨hmin, hle, hfits.1⟩
    . refine .inr ⟨rx', ?_, ?_, hpos, hholds⟩
      . split
        . next hcap =>
          rw [Object.ok_bind, if_neg (fun hvalid => hfits ⟨hcap, hvalid⟩)]
          rfl
        . rfl
      . intro fuel
        nth_rewrite 1 [resyncLoop]
        rw [hreq]
        dsimp only
        rw [if_neg hfits]

-- Where the loop has got to from `start`, and that the unchecked loop gets there too.
structure Reached (aduCap : Nat) (start : ServerCtx) (rx : Object UInt8) (ctx : ServerCtx) : Prop where
  holds : Holds rx ctx
  suffix : ctx.held <:+ start.held
  loop : resyncLoop aduCap (start.rxLen + 1) start = resyncLoop aduCap (ctx.rxLen + 1) ctx

theorem Reached.le {start : ServerCtx} (h : Reached aduCap start rx ctx)
    : ctx.rxLen ≤ start.rxLen := by
  have hle := h.suffix.length_le
  rw [length_held, length_held] at hle
  exact hle

theorem Reached.skip {start : ServerCtx} {rx' : Object UInt8} (h : Reached aduCap start rx ctx)
    (hlimit : start.rxLen < sizeLimit) (hskips : Skips aduCap ctx rx')
    : Reached aduCap start rx' (Rtu.dropRxBytes ctx 1) := by
  obtain ⟨hheld, hlen⟩ := held_dropRxBytes ctx 1 hskips.pos (Nat.lt_of_le_of_lt h.le hlimit)
  refine ⟨hskips.holds, ?_, ?_⟩
  . rw [hheld]
    exact (List.drop_suffix 1 ctx.held).trans h.suffix
  . rw [h.loop, hskips.loop, hlen, Nat.sub_add_cancel hskips.pos]

theorem resyncLoop_ok (h : Holds rx ctx) (hlimit : ctx.rxLen < sizeLimit) (aduCap : Nat)
    : ∃ result rx' ctx', Reached aduCap ctx rx' ctx' ∧ Stopped aduCap ctx' result ∧
        ∀ rounds, ctx.rxLen < rounds →
          Round.loop (resyncRound aduCap) rounds rx = some (.ok (result, rx')) := by
  have hround : ∀ rx, (∃ ctx', Reached aduCap ctx rx ctx') →
      (∃ result, resyncRound aduCap rx = .ok (.stops result) ∧
        ∃ ctx', Reached aduCap ctx rx ctx' ∧ Stopped aduCap ctx' result) ∨
      ∃ rx', resyncRound aduCap rx = .ok (.goesOn rx') ∧ (∃ ctx', Reached aduCap ctx rx' ctx') ∧
        rx'.size < rx.size := by
    rintro rx ⟨ctx', hreached⟩
    have hlimit' := Nat.lt_of_le_of_lt hreached.le hlimit
    obtain ⟨result, hrun, hstopped⟩ | ⟨rx', hrun, hskips⟩ := resyncRound_ok hreached.holds hlimit' aduCap
    . exact .inl ⟨result, hrun, ctx', hreached, hstopped⟩
    . refine .inr ⟨rx', hrun, ⟨_, hreached.skip hlimit hskips⟩, ?_⟩
      have hlen := (held_dropRxBytes ctx' 1 hskips.pos hlimit').2
      rw [hreached.holds.size, hskips.holds.size, hlen]
      exact Nat.sub_lt hskips.pos Nat.one_pos
  have hsize : rx.size < ctx.rxLen + 1 := by
    rw [h.size]
    apply Nat.lt_succ_self
  obtain ⟨result, rx', hrun, -, ctx', hreached, hstopped⟩ :=
    Round.loop_stops Object.size hround ⟨ctx, h, List.suffix_refl _, rfl⟩ hsize
  refine ⟨result, rx', ctx', hreached, hstopped, ?_⟩
  intro rounds hrounds
  exact Round.loop_mono hrun hrounds

theorem copyFrame_ok {adu : Object UInt8} {frameLen : Nat} (h : Holds rx ctx)
    (hlimit : ctx.rxLen < sizeLimit) (hle : frameLen ≤ ctx.rxLen) (hcap : frameLen ≤ adu.size)
    (m : Mem UInt8)
    : ∃ adu' rx', copyFrame rx adu frameLen = .ok ⟨some frameLen, adu', rx'⟩ ∧
        adu'.Known (m.write 0 (ctx.rxBuffer.slice 0 frameLen)) frameLen ∧
        Holds rx' (Rtu.dropRxBytes ctx frameLen) := by
  have hloop := @Object.foldlM_range (Object UInt8) (Mem UInt8)
    (fun i o t => o.size = adu.size ∧ o.Known t i)
    (fun o i => do
      let byte ← rx.load i
      o.store i byte)
    (fun t i => t.set i (ctx.rxBuffer i)) adu m frameLen ⟨rfl, Object.known_zero adu m⟩
  obtain ⟨adu', hrun, -, hknown⟩ := hloop (by
    intro i hi o t ho
    rw [h.known.load (Nat.lt_of_lt_of_le hi hle), Object.ok_bind]
    obtain ⟨o', hstore, hsame, hknown⟩ :=
      ho.2.store (i := i) (ctx.rxBuffer i) (Nat.le_refl _) (by omega)
    exact ⟨o', hstore, hsame.trans ho.1, hknown.mono (by omega)⟩)
  obtain ⟨rx', hdrop, hholds⟩ := dropRxBytes_ok h hle hlimit
  refine ⟨adu', rx', ?_, ?_, hholds⟩
  . unfold copyFrame
    rw [hrun, Object.ok_bind, hdrop]
    rfl
  . rw [Mem.foldl_set] at hknown
    apply hknown.congr
    unfold Mem.slice
    simp only [Nat.zero_add]

theorem Holds.clearIdle (h : Holds rx ctx)
    : Holds rx (clearIdle ctx) := by
  unfold Rtu.clearIdle
  split
  . exact ⟨h.size, h.known⟩
  . exact h

-- The frame and what is left are those of the unchecked extraction.
structure Agrees (out : Extracted) (extracted : Option (Mem UInt8 × Nat) × ServerCtx) : Prop where
  totalLen : out.totalLen = extracted.1.map Prod.snd
  adu : ∀ frame ∈ extracted.1, out.adu.Known frame.1 frame.2
  rx : Holds out.rx extracted.2

theorem extractRequestFrame_ok (h : Holds rx ctx) (hlimit : ctx.rxLen < sizeLimit) (adu : Object UInt8)
    (m : Mem UInt8)
    : ∃ out, Agrees out (Rtu.extractRequestFrame ctx m adu.size) ∧
        ∀ rounds, ctx.rxLen < rounds → extractRequestFrame rounds rx adu adu.size = some (.ok out) := by
  obtain ⟨result, rx', ctx', hreached, hstopped, hrun⟩ := resyncLoop_ok h hlimit adu.size
  have hloop := hreached.loop.trans (hstopped.loop ctx'.rxLen)
  cases result with
  | none =>
    refine ⟨⟨none, adu, rx'⟩, ?_, ?_⟩
    . unfold Rtu.extractRequestFrame
      rw [hloop]
      refine ⟨rfl, ?_, hreached.holds.clearIdle⟩
      intro frame hframe
      contradiction
    . intro rounds hrounds
      unfold extractRequestFrame
      rw [hrun rounds hrounds]
      rfl
  | some frameLen =>
    obtain ⟨-, hle, hcap⟩ := hstopped.fits frameLen rfl
    obtain ⟨adu', rx'', hcopy, hknown, hholds⟩ :=
      copyFrame_ok hreached.holds (Nat.lt_of_le_of_lt hreached.le hlimit) hle hcap m
    refine ⟨⟨some frameLen, adu', rx''⟩, ?_, ?_⟩
    . unfold Rtu.extractRequestFrame
      rw [hloop]
      refine ⟨rfl, ?_, hholds.clearIdle⟩
      intro frame hframe
      injection hframe with hframe
      subst hframe
      exact hknown
    . intro rounds hrounds
      unfold extractRequestFrame
      rw [hrun rounds hrounds, Option.map_some]
      exact congrArg some hcopy

-- What stands behind the held bytes plays no part in it.
theorem Holds.of_held (h : Holds rx ctx) {ctx' : ServerCtx} (heq : ctx'.held = ctx.held)
    : Holds rx ctx' := by
  have hlen := congrArg List.length heq
  rw [length_held, length_held] at hlen
  unfold ServerCtx.held at heq
  rw [hlen] at heq
  have hcells := Mem.eq_of_slice_eq heq
  refine ⟨hlen ▸ h.size, hlen ▸ h.known.le_size, ?_⟩
  intro i hi
  have hcell := hcells i (hlen ▸ hi)
  rw [Nat.zero_add] at hcell
  rw [h.known.cell i (hlen ▸ hi), hcell]

theorem extractRequestFrame_held (ctx : ServerCtx) (hlimit : ctx.rxLen < sizeLimit) (adu : Object UInt8)
    (m : Mem UInt8)
    : ∃ out, (∀ rounds, ctx.rxLen < rounds →
          extractRequestFrame rounds (.ofMem ctx.rxBuffer ctx.rxLen) adu adu.size = some (.ok out)) ∧
        ∀ ctx', ctx'.held = ctx.held → Agrees out (Rtu.extractRequestFrame ctx' m adu.size) := by
  have hholds := holds_ofMem ctx
  obtain ⟨out, -, hrun⟩ := extractRequestFrame_ok hholds hlimit adu m
  refine ⟨out, hrun, ?_⟩
  intro ctx' heq
  have hlen : ctx'.rxLen = ctx.rxLen := by
    rw [← length_held, heq, length_held]
  obtain ⟨out', hagrees, hrun'⟩ := extractRequestFrame_ok (hholds.of_held heq) (hlen ▸ hlimit) adu m
  have hsame := hrun (ctx.rxLen + 1) (Nat.lt_succ_self _)
  rw [hrun' (ctx.rxLen + 1) (hlen ▸ Nat.lt_succ_self _)] at hsame
  injection hsame with hsame
  injection hsame with hsame
  exact hsame ▸ hagrees

end Checked

end Rtu
