import ModbusProtocol.Pdu.Lemmas.Dispatch
import ModbusProtocol.Posix.Lemmas
import ModbusProtocol.Rtu.Spec

/-!
This module contains the refinement of the request assembly: the resynchronisation loop extracts what
the framing extracts from the bytes the server holds, and reading appends to them.
-/

open Modbus Posix

namespace Rtu

theorem getCompleteRequestLen_eq (adu : Mem UInt8) (rxLen : Nat)
    : getCompleteRequestLen adu rxLen rtuMaxAduLength = requestLen (adu.slice 0 rxLen) := by
  have h1 : 2 ≤ rxLen → (adu.slice 0 rxLen).getD 1 0 = adu 1 := by
    intro hlen
    exact Pdu.getD_slice _ _ _ (by omega)
  have h6 : 7 ≤ rxLen → (adu.slice 0 rxLen).getD 6 0 = adu 6 := by
    intro hlen
    exact Pdu.getD_slice _ _ _ (by omega)
  unfold getCompleteRequestLen requestLen
  dsimp only [offsetFc, offsetWriteByteCnt, rtuMinReqLength, rtuMaxAduLength]
  rw [Mem.length_slice]
  grind

theorem held_dropRxBytes (ctx : ServerCtx) (count : Nat) (hcount : count ≤ ctx.rxLen)
    (hlimit : ctx.rxLen < sizeLimit)
    : (dropRxBytes ctx count).held = ctx.held.drop count ∧
      (dropRxBytes ctx count).rxLen = ctx.rxLen - count := by
  have hlen : (dropRxBytes ctx count).rxLen = ctx.rxLen - count := by
    unfold dropRxBytes
    dsimp only
    rw [Nat.sub_add_comm hcount, Nat.add_mod_right]
    exact Nat.mod_eq_of_lt (by omega)
  refine ⟨?_, hlen⟩
  unfold ServerCtx.held
  rw [hlen, Mem.drop_slice _ _ _ _ hcount]
  have hshift := Mem.slice_shift ctx.rxBuffer count 0 (ctx.rxLen - count)
  rw [Nat.add_zero] at hshift
  rw [Nat.zero_add, ← hshift]
  apply Mem.slice_congr
  intro i hi
  have hrem : (ctx.rxLen + sizeLimit - count) % sizeLimit = ctx.rxLen - count := by
    exact hlen
  unfold dropRxBytes
  dsimp only
  rw [hrem, Nat.zero_add, if_pos hi]
  rfl

theorem length_held (ctx : ServerCtx)
    : ctx.held.length = ctx.rxLen := by
  exact Mem.length_slice _ _ _

-- A resynchronisation of `ctx` stops where the framing stops: with a frame at the head of what is held,
-- or with nothing.
def Resynced (ctx : ServerCtx) : Option Nat × ServerCtx → Prop
  | (none, ctx') => requestFraming.extract ctx.held = (none, ctx'.held) ∧ ctx'.rxLen ≤ ctx.rxLen
  | (some frameLen, ctx') =>
    requestFraming.extract ctx.held
        = (some (ctx'.held.take frameLen), ctx'.held.drop frameLen) ∧
      frameLen ≤ ctx'.rxLen ∧ ctx'.rxLen ≤ ctx.rxLen

theorem resynced_drop {ctx : ServerCtx} {result : Option Nat × ServerCtx}
    (hskip : requestVerdict ctx.held = .skip) (hlimit : ctx.rxLen < sizeLimit)
    (h : Resynced (dropRxBytes ctx 1) result)
    : Resynced ctx result := by
  have hpos : 1 ≤ ctx.rxLen := by
    rw [← length_held]
    exact List.length_pos_iff.mpr (requestFraming.ne_nil_of_skip hskip)
  obtain ⟨hheld, hlen⟩ := held_dropRxBytes ctx 1 hpos hlimit
  have hextract := requestFraming.extract_skip hskip
  rw [← hheld] at hextract
  match result with
  | (none, ctx') =>
    obtain ⟨h, hle⟩ := h
    exact ⟨hextract.trans h, by omega⟩
  | (some frameLen, ctx') =>
    obtain ⟨h, hle, hle'⟩ := h
    exact ⟨hextract.trans h, hle, by omega⟩

theorem resyncLoop_resynced (fuel : Nat) (ctx : ServerCtx) (hfuel : ctx.rxLen < fuel)
    (hlimit : ctx.rxLen < sizeLimit)
    : Resynced ctx (resyncLoop rtuMaxAduLength fuel ctx) := by
  induction fuel generalizing ctx with
  | zero => omega
  | succ fuel ih =>
    have hdrop : requestVerdict ctx.held = .skip
        → Resynced ctx (resyncLoop rtuMaxAduLength fuel (dropRxBytes ctx 1)) := by
      intro hskip
      apply resynced_drop hskip hlimit
      have hpos := List.length_pos_iff.mpr (requestFraming.ne_nil_of_skip hskip)
      rw [length_held] at hpos
      have hlen := (held_dropRxBytes ctx 1 hpos hlimit).2
      exact ih (dropRxBytes ctx 1) (by omega) (by omega)
    unfold resyncLoop
    rw [getCompleteRequestLen_eq]
    cases hreq : requestLen ctx.held with
    | incomplete =>
      rw [ServerCtx.held] at hreq
      rw [hreq]
      have hwait : requestFraming.verdict ctx.held = .wait := by
        simp [requestFraming, requestVerdict, ServerCtx.held, hreq]
      exact ⟨Framing.extract_wait hwait, Nat.le_refl _⟩
    | malformed =>
      rw [ServerCtx.held] at hreq
      rw [hreq]
      apply hdrop
      simp [requestVerdict, ServerCtx.held, hreq]
    | complete n =>
      have hle := requestLen_complete hreq
      rw [length_held] at hle
      have htake : ctx.held.take n = ctx.rxBuffer.slice 0 n := Mem.take_slice _ _ _ _ hle.2.2
      have hvalid := validateCrc_iff ctx.rxBuffer n
      rw [← htake] at hvalid
      have hverdict : requestVerdict ctx.held = if CrcValid (ctx.held.take n) then .take n else .skip := by
        simp [requestVerdict, hreq]
      rw [ServerCtx.held] at hreq
      rw [hreq]
      dsimp only
      split
      . next hok =>
        rw [if_pos (hvalid.mp hok.2)] at hverdict
        exact ⟨Framing.extract_take hverdict, hle.2.2, Nat.le_refl _⟩
      . next hok =>
        apply hdrop
        rw [hverdict, if_neg]
        intro hcrc
        exact hok ⟨hle.2.1, hvalid.mpr hcrc⟩

theorem held_clearIdle (ctx : ServerCtx)
    : (clearIdle ctx).held = ctx.held ∧ (clearIdle ctx).rxLen = ctx.rxLen := by
  unfold clearIdle
  split
  . exact ⟨rfl, rfl⟩
  . exact ⟨rfl, rfl⟩

-- One call of `extract_request_frame` is one extraction from what is held.
theorem extractRequestFrame_eq (ctx : ServerCtx) (adu : Mem UInt8) (hlimit : ctx.rxLen < sizeLimit)
    : (extractRequestFrame ctx adu rtuMaxAduLength).2.rxLen ≤ ctx.rxLen ∧
      requestFraming.extract ctx.held
        =
      ((extractRequestFrame ctx adu rtuMaxAduLength).1.map fun frame => frame.1.slice 0 frame.2,
        (extractRequestFrame ctx adu rtuMaxAduLength).2.held) := by
  have hsync := resyncLoop_resynced (ctx.rxLen + 1) ctx (by omega) hlimit
  unfold extractRequestFrame
  split
  . next ctx' heq =>
    rw [heq] at hsync
    obtain ⟨hheld, hlen⟩ := held_clearIdle ctx'
    refine ⟨hlen ▸ hsync.2, ?_⟩
    rw [hheld]
    exact hsync.1
  . next frameLen ctx' heq =>
    rw [heq] at hsync
    obtain ⟨hextract, hle, hle'⟩ := hsync
    obtain ⟨hheld, hlen⟩ := held_clearIdle (dropRxBytes ctx' frameLen)
    obtain ⟨hdrop, hdroplen⟩ := held_dropRxBytes ctx' frameLen hle (by omega)
    refine ⟨by dsimp only; omega, ?_⟩
    rw [hheld, hdrop, hextract]
    dsimp only [Option.map_some]
    have htake : ctx'.held.take frameLen = ctx'.rxBuffer.slice 0 frameLen :=
      Mem.take_slice _ _ _ _ hle
    rw [htake]
    have hlen' : frameLen = (ctx'.rxBuffer.slice 0 frameLen).length := by simp
    congr 2
    nth_rewrite 3 [hlen']
    rw [Mem.slice_write_same]

-- Reading moves bytes from the line to the end of what is held, and never more than there is room for. A read
-- that fails has not filled the buffer.
theorem readLoop_reads (nowUs fuel : Nat) (ctx : ServerCtx) (line : Line)
    (hfuel : line.effort < fuel) (hcap : ctx.rxLen ≤ rtuMaxAduLength)
    : ∃ chunk, Line.Took line chunk (readLoop nowUs fuel ctx line).2.2 ∧
      (readLoop nowUs fuel ctx line).2.1.held = ctx.held ++ chunk ∧
      (readLoop nowUs fuel ctx line).2.1.rxLen ≤ rtuMaxAduLength ∧
      ((readLoop nowUs fuel ctx line).1 = false →
        (readLoop nowUs fuel ctx line).2.1.rxLen < rtuMaxAduLength) := by
  induction fuel generalizing ctx line with
  | zero => omega
  | succ fuel ih =>
    have hread := Line.read_receives line (rtuMaxAduLength - ctx.rxLen)
    unfold readLoop
    split
    . next hroom =>
      split
      . next chunk line' heq =>
        rw [heq] at hread
        obtain ⟨htook, hle, hne⟩ := hread.bytes
        have hpos := List.length_pos_iff.mpr hne
        have heffort := htook.effort
        dsimp only at heffort
        have hheld := Mem.slice_write_append ctx.rxBuffer ctx.rxLen chunk
        obtain ⟨rest, hrest, happend, hlen⟩ := ih
          { ctx with
            rxBuffer := ctx.rxBuffer.write ctx.rxLen chunk
            rxLen := ctx.rxLen + chunk.length
            lastRxUs := nowUs } line' (by omega) (by dsimp only; omega)
        refine ⟨chunk ++ rest, htook.trans hrest, ?_, hlen⟩
        rw [happend]
        unfold ServerCtx.held
        rw [hheld, List.append_assoc]
      . next line' heq =>
        rw [heq] at hread
        exact ⟨[], hread.other (by simp), (List.append_nil _).symm, hcap, fun _ => hroom⟩
      . next line' heq =>
        rw [heq] at hread
        have htook := hread.other (by simp)
        have hlt := hread.intr rfl
        have hincoming := congrArg List.length htook.incoming
        obtain ⟨rest, hrest, happend, hlen⟩ := ih ctx line' (by
          simp [Line.effort] at hfuel hlt hincoming ⊢
          omega) hcap
        exact ⟨rest, htook.trans hrest, happend, hlen⟩
      all_goals
        next line' heq =>
          rw [heq] at hread
          exact ⟨[], hread.other (by simp), (List.append_nil _).symm, hcap, fun _ => hroom⟩
    . exact ⟨[], Line.Took.refl line, (List.append_nil _).symm, hcap, fun hfails => by contradiction⟩

theorem readAvailableBytes_reads (ctx : ServerCtx) (line : Line) (nowUs : Nat)
    (hcap : ctx.rxLen ≤ rtuMaxAduLength)
    : ∃ chunk, Line.Took line chunk (readAvailableBytes ctx line nowUs).2.2 ∧
      (readAvailableBytes ctx line nowUs).2.1.held = ctx.held ++ chunk ∧
      (readAvailableBytes ctx line nowUs).2.1.rxLen ≤ rtuMaxAduLength := by
  obtain ⟨chunk, htook, hheld, hlen, -⟩ := readLoop_reads nowUs (line.effort + 1) ctx line (by omega) hcap
  exact ⟨chunk, htook, hheld, hlen⟩

theorem readAvailableBytes_room (ctx : ServerCtx) (line : Line) (nowUs : Nat)
    (hcap : ctx.rxLen ≤ rtuMaxAduLength) (hfails : (readAvailableBytes ctx line nowUs).1 = false)
    : (readAvailableBytes ctx line nowUs).2.1.rxLen < rtuMaxAduLength := by
  obtain ⟨-, -, -, -, hroom⟩ := readLoop_reads nowUs (line.effort + 1) ctx line (by omega) hcap
  exact hroom hfails

end Rtu
