import ModbusProtocol.Rtu.Lemmas.Checked
import ModbusProtocol.Rtu.Lemmas.Server

/-!
This module contains what the request assembly leaves in the receive buffer, and that there is always room in it to
read on.
-/

open Modbus Posix

namespace Rtu

variable {σ : Type}

-- The bytes of the frame that has been returned, if one has.
def frameBytes : Option (Mem UInt8 × Nat) → List UInt8
  | none => []
  | some (adu, totalLen) => adu.slice 0 totalLen

theorem slice_copied (adu rx : Mem UInt8) (n : Nat)
    : (adu.write 0 (rx.slice 0 n)).slice 0 n = rx.slice 0 n := by
  have hsame := Mem.slice_write_same adu 0 (rx.slice 0 n)
  rw [Mem.length_slice] at hsame
  exact hsame

-- The frame is taken out of the buffer, with what stands in front of it.
structure Extracts (ctx : ServerCtx) (extracted : Option (Mem UInt8 × Nat) × ServerCtx) : Prop where
  held : ∃ skipped, ctx.held = skipped ++ frameBytes extracted.1 ++ extracted.2.held
  length : ∀ frame ∈ extracted.1, rtuMinReqLength ≤ frame.2
  room : extracted.2.rxLen < rtuMaxAduLength

theorem extractRequestFrame_extracts (ctx : ServerCtx) (adu : Mem UInt8) (aduCap : Nat)
    (hcap : ctx.rxLen ≤ rtuMaxAduLength)
    : Extracts ctx (extractRequestFrame ctx adu aduCap) := by
  have hlimit : ctx.rxLen < sizeLimit := Nat.lt_of_le_of_lt hcap (by decide)
  obtain ⟨result, rx, ctx', hreached, hstopped, -⟩ :=
    Checked.resyncLoop_ok (Checked.holds_ofMem ctx) hlimit aduCap
  obtain ⟨skipped, hskipped⟩ := hreached.suffix
  have hle := hreached.le
  unfold extractRequestFrame
  rw [hreached.loop, hstopped.loop]
  cases result with
  | none =>
    obtain ⟨hheld, hlen⟩ := held_clearIdle ctx'
    refine ⟨⟨skipped, ?_⟩, ?_, ?_⟩
    . dsimp only [frameBytes]
      rw [hheld, List.append_nil]
      exact hskipped.symm
    . intro frame hframe
      contradiction
    . dsimp only
      rw [hlen]
      exact hstopped.room rfl
  | some frameLen =>
    obtain ⟨hmin, hframe, -⟩ := hstopped.fits frameLen rfl
    obtain ⟨hheld, hlen⟩ := held_clearIdle (dropRxBytes ctx' frameLen)
    obtain ⟨hdrop, hdroplen⟩ := held_dropRxBytes ctx' frameLen hframe (Nat.lt_of_le_of_lt hle hlimit)
    refine ⟨⟨skipped, ?_⟩, ?_, ?_⟩
    . dsimp only [frameBytes]
      have htake : ctx'.held.take frameLen = ctx'.rxBuffer.slice 0 frameLen :=
        Mem.take_slice _ _ _ _ hframe
      rw [hheld, hdrop, slice_copied, ← htake, List.append_assoc, List.take_append_drop]
      exact hskipped.symm
    . intro frame hsome
      injection hsome with hsome
      subst hsome
      exact hmin
    . dsimp only [rtuMinReqLength] at hmin ⊢
      rw [hlen, hdroplen]
      omega

theorem serverOnProcess_leavesRoom (cfg : ServerConfig σ) (stack : Stack σ) (srv : Server σ)
    (hcap : srv.ctx.rxLen ≤ rtuMaxAduLength)
    : (serverOnProcess cfg stack srv).server.ctx.rxLen < rtuMaxAduLength := by
  have hkept : (if assemblyTimedOut cfg srv.ctx (currentTimeUs srv.line).1 then resetRxState srv.ctx
      else srv.ctx).rxLen ≤ rtuMaxAduLength := by
    split
    . apply Nat.zero_le
    . exact hcap
  unfold serverOnProcess
  dsimp only
  generalize (if assemblyTimedOut cfg srv.ctx (currentTimeUs srv.line).1 then resetRxState srv.ctx
    else srv.ctx) = ctx at hkept ⊢
  split
  . next ctx' line heq =>
    have hroom :=
      readAvailableBytes_room ctx (currentTimeUs srv.line).2 (currentTimeUs srv.line).1 hkept
    rw [heq] at hroom
    exact hroom rfl
  . next ctx' line heq =>
    obtain ⟨chunk, -, -, hread⟩ :=
      readAvailableBytes_reads ctx (currentTimeUs srv.line).2 (currentTimeUs srv.line).1 hkept
    rw [heq] at hread
    have hextracts := extractRequestFrame_extracts ctx' (stack.adu srv.state) rtuMaxAduLength hread
    split
    . next ctx'' hnone =>
      rw [hnone] at hextracts
      exact hextracts.room
    . next adu totalLen ctx'' hsome =>
      rw [hsome] at hextracts
      have hmin : 8 ≤ totalLen := hextracts.length _ rfl
      have hserves := processFrame_serves cfg stack { srv with ctx := ctx'', line := line } adu totalLen
        ctx'.lastRxUs (by omega)
      rw [hserves.ctx]
      exact hextracts.room

theorem runServer_leavesRoom (cfg : ServerConfig σ) (stack : Stack σ) (pauses : List Nat) (srv : Server σ)
    (hroom : srv.ctx.rxLen < rtuMaxAduLength)
    : (runServer cfg stack pauses srv).server.ctx.rxLen < rtuMaxAduLength := by
  induction pauses generalizing srv with
  | nil => exact hroom
  | cons pause pauses ih =>
    apply ih
    apply serverOnProcess_leavesRoom cfg stack (srv.pass pause)
    exact Nat.le_of_lt hroom

theorem readAvailableBytes_progress (ctx : ServerCtx) (line : Line) (nowUs : Nat)
    (hroom : ctx.rxLen < rtuMaxAduLength) (hdone : line.turn.1.outcome = .done)
    (harrived : 0 < line.turn.2.arrived)
    : ctx.rxLen < (readAvailableBytes ctx line nowUs).2.1.rxLen := by
  have hread := Line.read_receives line (rtuMaxAduLength - ctx.rxLen)
  obtain ⟨chunk, hchunk⟩ := Line.read_arrived (Nat.sub_pos_of_lt hroom) hdone harrived
  unfold readAvailableBytes readLoop
  rw [if_pos hroom]
  generalize line.read (rtuMaxAduLength - ctx.rxLen) = r at hread hchunk
  obtain ⟨ret, line'⟩ := r
  dsimp only at hchunk
  subst hchunk
  obtain ⟨htook, hle, hne⟩ := hread.bytes
  have hpos := List.length_pos_iff.mpr hne
  have heffort := htook.effort
  dsimp only at heffort
  obtain ⟨rest, -, hheld, -⟩ := readLoop_reads nowUs line.effort
    { ctx with
      rxBuffer := ctx.rxBuffer.write ctx.rxLen chunk
      rxLen := ctx.rxLen + chunk.length
      lastRxUs := nowUs } line' (by omega) (by dsimp only; omega)
  have hlen := congrArg List.length hheld
  rw [List.length_append, length_held, length_held] at hlen
  dsimp only at hlen ⊢
  omega

-- There is room for more, and what has arrived is read.
structure Receptive (ctx : ServerCtx) : Prop where
  room : ctx.rxLen < rtuMaxAduLength
  reads : ∀ line nowUs, line.turn.1.outcome = .done → 0 < line.turn.2.arrived →
    ctx.rxLen < (readAvailableBytes ctx line nowUs).2.1.rxLen

theorem receptive_of_room {ctx : ServerCtx} (hroom : ctx.rxLen < rtuMaxAduLength)
    : Receptive ctx := by
  constructor
  . exact hroom
  . intro line nowUs hdone harrived
    exact readAvailableBytes_progress ctx line nowUs hroom hdone harrived

-- The loop stops without a fault, whatever stands behind the held bytes, what is left is the end of what was
-- held, and the server is never stuck with a full buffer.
theorem extraction_safe (ctx : ServerCtx) (adu : Mem UInt8) (aduCap : Nat)
    (hcap : ctx.rxLen ≤ rtuMaxAduLength)
    : let extracted := extractRequestFrame ctx adu aduCap
      (∃ out, (∀ rounds, ctx.rxLen < rounds →
          Checked.extractRequestFrame rounds (.ofMem ctx.rxBuffer ctx.rxLen) (.fresh aduCap) aduCap
            = some (.ok out)) ∧
        ∀ ctx', ctx'.held = ctx.held → Checked.Agrees out (extractRequestFrame ctx' adu aduCap)) ∧
      (∃ skipped, ctx.held = skipped ++ frameBytes extracted.1 ++ extracted.2.held) ∧
      Receptive extracted.2 ∧
      ∀ (cfg : ServerConfig σ) (stack : Stack σ) (pauses : List Nat) (s : σ) (line : Line),
        Receptive (runServer cfg stack pauses ⟨extracted.2, s, line⟩).server.ctx := by
  have hlimit : ctx.rxLen < sizeLimit := Nat.lt_of_le_of_lt hcap (by decide)
  have hextracts := extractRequestFrame_extracts ctx adu aduCap hcap
  refine ⟨?_, hextracts.held, receptive_of_room hextracts.room, ?_⟩
  . exact Checked.extractRequestFrame_held ctx hlimit (.fresh aduCap) adu
  . intro cfg stack pauses s line
    apply receptive_of_room
    exact runServer_leavesRoom cfg stack pauses _ hextracts.room

-- A request between a byte of noise and the first bytes of the next one.
def noisyCtx : ServerCtx where
  rxBuffer := fun i => [0xFF, 1, 3, 0, 0, 0, 1, 0x84, 0x0A, 1, 3].getD i 0
  rxLen := 11
  lastRxUs := 1
  t35Us := 1750

theorem extraction_safe_noisy
    : noisyCtx.rxLen ≤ rtuMaxAduLength ∧
      (∃ skipped, noisyCtx.held = skipped ++ [1, 3, 0, 0, 0, 1, 0x84, 0x0A] ++ [1, 3]) ∧
      Receptive (extractRequestFrame noisyCtx (fun _ => 0) rtuMaxAduLength).2 := by
  have hsafe := @extraction_safe Unit noisyCtx (fun _ => 0) rtuMaxAduLength (by decide)
  have hframe : frameBytes (extractRequestFrame noisyCtx (fun _ => 0) rtuMaxAduLength).1
      = [1, 3, 0, 0, 0, 1, 0x84, 0x0A] := by
    decide +kernel
  have hrest : (extractRequestFrame noisyCtx (fun _ => 0) rtuMaxAduLength).2.held = [1, 3] := by
    decide +kernel
  obtain ⟨-, hheld, hreceptive, -⟩ := hsafe
  rw [hframe, hrest] at hheld
  exact ⟨by decide, hheld, hreceptive⟩

end Rtu
