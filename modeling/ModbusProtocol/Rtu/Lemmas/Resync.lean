import ModbusProtocol.Pdu.Lemmas.Remote
import ModbusProtocol.Rtu.Lemmas.Client

/-!
This module contains what an RTU server makes of the responses of the other slaves on its bus: when it
finds the request behind such a response, and when it takes bytes of the response for a request.
-/

open Modbus Posix

namespace Pdu

-- The response PDUs a slave can send.
inductive ResponsePdu : List UInt8 → Prop where
  | bits (fc byteCount : UInt8) (data : List UInt8)
      (hfc : fc = funcReadCoils ∨ fc = funcReadDiscreteInputs)
      (hcount : byteCount.toNat = data.length) (hpos : 1 ≤ data.length) (hmax : data.length ≤ 250)
      : ResponsePdu (fc :: byteCount :: data)
  | registers (fc byteCount : UInt8) (data : List UInt16)
      (hfc : fc = funcReadHoldingRegisters ∨ fc = funcReadInputRegisters)
      (hcount : byteCount.toNat = data.length * 2) (hpos : 1 ≤ data.length)
      (hmax : data.length ≤ 125)
      : ResponsePdu (fc :: byteCount :: data.flatMap u16Bytes)
  | echo (fc : UInt8) (addr qty : UInt16) (hfc : isWrite fc = true)
      : ResponsePdu (header fc addr qty)
  | exception (fc code : UInt8) (hfc : isRead fc = true ∨ isWrite fc = true) (hcode : code ≠ 0)
      : ResponsePdu [fc ||| exceptionFlag, code]

end Pdu

namespace Rtu

variable {σ : Type}

-- The response ADUs of the slaves at other addresses than that of a server.
def ForeignResponse (cfg : ServerConfig σ) (adu : List UInt8) : Prop :=
  ∃ unitId pdu, adu = withCrc (unitId :: pdu) ∧ Pdu.ResponsePdu pdu ∧
    unitId ≠ rtuBroadcastAddress ∧ unitId ≠ cfg.unitId

def requestAdu (unitId : UInt8) (op : Pdu.Operation) : List UInt8 :=
  withCrc (unitId :: op.bytes)

theorem fixesLength_of_fixed {pdu : List UInt8} (hlen : pdu.length = 5)
    (hfc : ¬(pdu.getD 0 0 = funcWriteMultipleCoils ∨ pdu.getD 0 0 = funcWriteMultipleRegisters))
    : FixesLength pdu ∧ pdu.length ≤ 253 := by
  refine ⟨?_, by omega⟩
  unfold FixesLength
  rw [if_neg hfc]
  exact hlen

theorem fixesLength_of_multiple {pdu : List UInt8} {n : Nat} (hlen : pdu.length = 6 + n)
    (hpos : 1 ≤ n) (hmax : n ≤ 246) (hcount : pdu.getD 5 0 = UInt8.ofNat n)
    (hfc : pdu.getD 0 0 = funcWriteMultipleCoils ∨ pdu.getD 0 0 = funcWriteMultipleRegisters)
    : FixesLength pdu ∧ pdu.length ≤ 253 := by
  have hbyte : (pdu.getD 5 0).toNat = n := by
    rw [hcount, UInt8.toNat_ofNat']
    apply Nat.mod_eq_of_lt
    omega
  refine ⟨?_, by omega⟩
  unfold FixesLength
  rw [if_pos hfc, hbyte]
  refine ⟨?_, hlen⟩
  intro hzero
  rw [hzero] at hbyte
  simp at hbyte
  omega

theorem fixesLength_bytes (op : Pdu.Operation)
    : FixesLength op.bytes ∧ op.bytes.length ≤ 253 := by
  have hlen : op.bytes.length = 5 + op.payload.length := by
    unfold Pdu.Operation.bytes
    rw [List.length_append, Pdu.Operation.length_header]
  have hfc : op.bytes.getD 0 0 = op.fc := by
    rfl
  cases op with
  | readBits fc addr qty hops hpos hmax =>
    apply fixesLength_of_fixed hlen
    rw [hfc]
    rcases hops with rfl | rfl <;> simp [Pdu.Operation.fc]
  | readRegisters fc addr qty hops hpos hmax =>
    apply fixesLength_of_fixed hlen
    rw [hfc]
    rcases hops with rfl | rfl <;> simp [Pdu.Operation.fc]
  | writeSingleCoil addr value =>
    apply fixesLength_of_fixed hlen
    rw [hfc]
    simp [Pdu.Operation.fc]
  | writeSingleRegister addr value =>
    apply fixesLength_of_fixed hlen
    rw [hfc]
    simp [Pdu.Operation.fc]
  | writeMultipleCoils addr qty values hpos hmax =>
    apply fixesLength_of_multiple (n := Pdu.bitByteCount qty) ?_ ?_ ?_ rfl (.inl rfl)
    . rw [hlen]
      simp [Pdu.Operation.payload, Pdu.boolsOf, Pdu.bitByteCount]
      omega
    . unfold Pdu.bitByteCount
      omega
    . unfold Pdu.bitByteCount
      simp at hmax
      omega
  | writeMultipleRegisters addr qty data hpos hmax =>
    apply fixesLength_of_multiple (n := qty.toNat * 2) ?_ ?_ ?_ rfl (.inr rfl)
    . rw [hlen]
      simp [Pdu.Operation.payload]
      omega
    . omega
    . simp at hmax
      omega

theorem validRequest_requestAdu (unitId : UInt8) (op : Pdu.Operation)
    : ValidRequest (requestAdu unitId op) := by
  obtain ⟨hfixes, hmax⟩ := fixesLength_bytes op
  apply validRequest_withCrc unitId hmax hfixes

def readOperation : Pdu.Operation :=
  Client.readOne

-- No contiguous part of `l` is a complete request that the server would carry out.
def Harmless (cfg : ServerConfig σ) (l : List UInt8) : Prop :=
  ∀ front frame back, l = front ++ frame ++ back → ValidRequest frame →
    ¬cfg.accepts (frame.getD 0 0) (frame.getD 1 0)

theorem Harmless.suffix {cfg : ServerConfig σ} {l l' : List UInt8} (h : Harmless cfg l)
    (hsuffix : l' <:+ l)
    : Harmless cfg l' := by
  intro front frame back heq
  obtain ⟨skipped, rfl⟩ := hsuffix
  apply h (skipped ++ front) frame back
  simp [heq]

theorem serveFrame_refused {cfg : ServerConfig σ} {locals : σ → Pdu.Locals} {frame : List UInt8} {s : σ}
    (h : ¬cfg.accepts (frame.getD 0 0) (frame.getD 1 0))
    : serveFrame cfg locals frame s = (s, [.frame frame]) := by
  unfold serveFrame
  rw [if_neg h]

-- A call that finds nothing to carry out changes nothing but what the server holds.
structure Overhears (srv : Server σ) (p : Processed σ) : Prop where
  state : p.server.state = srv.state
  events : ∀ event ∈ p.events, ∃ frame, event = .frame frame
  suffix : p.server.ctx.held ++ p.server.line.bytes <:+ srv.ctx.held ++ srv.line.bytes
  room : p.server.ctx.rxLen ≤ rtuMaxAduLength

theorem serve_harmless {cfg : ServerConfig σ} {locals : σ → Pdu.Locals} {l rest : List UInt8}
    {frame : Option (List UInt8)} {s : σ} (hharmless : Harmless cfg l)
    (hextract : requestFraming.extract l = (frame, rest))
    : transduce (serveFrame cfg locals) frame.toList s = (s, frame.toList.map .frame) := by
  cases frame with
  | none => rfl
  | some frame =>
    obtain ⟨hvalid, skipped, heq⟩ := ValidRequest.of_extract hextract
    have hrefused := hharmless skipped frame rest heq hvalid
    rw [Option.toList_some, transduce_singleton, serveFrame_refused hrefused]
    rfl

theorem Called.overhears {cfg : ServerConfig σ} {locals : σ → Pdu.Locals} {srv : Server σ}
    {chunk : List UInt8} {p : Processed σ} (h : Called cfg locals srv chunk p)
    (hchunk : chunk <+: srv.line.bytes)
    (hharmless : Harmless cfg (srv.ctx.held ++ srv.line.bytes))
    : Overhears srv p := by
  have hsilent : p.server.state = srv.state ∧ ∃ frames : List (List UInt8), p.events = frames.map .frame := by
    have hserved := h.served
    obtain ⟨-, hevents, -⟩ | ⟨frame, hextract, hframes⟩ := h.extracted
    . rw [hevents] at hserved ⊢
      injection hserved with hstate
      exact ⟨hstate.symm, [], rfl⟩
    . have hprefix : Harmless cfg (srv.ctx.held ++ chunk) := by
        obtain ⟨later, hbytes⟩ := hchunk
        intro front frame back heq
        apply hharmless front frame (back ++ later)
        rw [← hbytes, ← List.append_assoc, heq]
        simp
      rw [hframes, serve_harmless hprefix hextract] at hserved
      injection hserved with hstate hevents
      exact ⟨hstate.symm, _, hevents.symm⟩
  obtain ⟨hstate, frames, hevents⟩ := hsilent
  have hfree : EchoFree cfg p.events := by
    intro hecho adu hmem
    simp [hevents] at hmem
  have hbytes := (h.line hfree).1
  refine ⟨hstate, ?_, ?_, h.room⟩
  . intro event hmem
    rw [hevents, List.mem_map] at hmem
    obtain ⟨frame, -, heq⟩ := hmem
    exact ⟨frame, heq.symm⟩
  . rw [hbytes, ← List.append_assoc]
    obtain ⟨-, -, hheld⟩ | ⟨frame, hextract, -⟩ := h.extracted
    . exact ⟨[], congrArg (· ++ p.server.line.bytes) hheld⟩
    . have hsuffix := Framing.extract_suffix (F := requestFraming) (srv.ctx.held ++ chunk)
      rw [hextract] at hsuffix
      obtain ⟨skipped, heq⟩ := hsuffix
      refine ⟨skipped, ?_⟩
      rw [← heq, List.append_assoc]

theorem serverOnProcess_overhears (cfg : ServerConfig σ) (stack : Stack σ) (srv : Server σ)
    (hroom : srv.ctx.rxLen ≤ rtuMaxAduLength)
    (hharmless : Harmless cfg (srv.ctx.held ++ srv.line.bytes))
    : Overhears srv (serverOnProcess cfg stack srv) := by
  cases htimeout : assemblyTimedOut cfg srv.ctx (currentTimeUs srv.line).1 with
  | false =>
    obtain ⟨chunk, htook, hcalled⟩ := serverOnProcess_called cfg stack srv hroom htimeout
    exact hcalled.overhears ⟨_, htook.bytes.symm⟩ hharmless
  | true =>
    rw [serverOnProcess_timedOut cfg stack srv htimeout]
    generalize hreset : { srv with ctx := resetRxState srv.ctx } = srv'
    have hheld : srv'.ctx.held = [] := by
      rw [← hreset]
      rfl
    have hline : srv'.line = srv.line := by rw [← hreset]
    have hquiet : assemblyTimedOut cfg srv'.ctx (currentTimeUs srv'.line).1 = false := by
      rw [← hreset]
      exact not_assemblyTimedOut_reset _ _ _
    have hroom' : srv'.ctx.rxLen ≤ rtuMaxAduLength := by
      rw [← hreset]
      exact Nat.zero_le _
    have hsuffix : srv'.ctx.held ++ srv'.line.bytes <:+ srv.ctx.held ++ srv.line.bytes := by
      rw [hheld, hline]
      exact List.suffix_append _ _
    obtain ⟨chunk, htook, hcalled⟩ := serverOnProcess_called cfg stack srv' hroom' hquiet
    have hoverhears := hcalled.overhears ⟨_, htook.bytes.symm⟩ (hharmless.suffix hsuffix)
    refine ⟨?_, hoverhears.events, hoverhears.suffix.trans hsuffix, hoverhears.room⟩
    rw [hoverhears.state, ← hreset]

theorem runServer_overhears (cfg : ServerConfig σ) (stack : Stack σ) (pauses : List Nat)
    (srv : Server σ) (hroom : srv.ctx.rxLen ≤ rtuMaxAduLength)
    (hharmless : Harmless cfg (srv.ctx.held ++ srv.line.bytes))
    : (runServer cfg stack pauses srv).server.state = srv.state ∧
      ∀ event ∈ (runServer cfg stack pauses srv).events, ∃ frame, event = .frame frame := by
  induction pauses generalizing srv with
  | nil => exact ⟨rfl, by simp [runServer]⟩
  | cons pause pauses ih =>
    have hstep := serverOnProcess_overhears cfg stack (srv.pass pause) hroom hharmless
    obtain ⟨hstate, hevents⟩ := ih _ hstep.room (Harmless.suffix hharmless hstep.suffix)
    unfold runServer
    refine ⟨hstate.trans hstep.state, ?_⟩
    intro event hmem
    rw [List.mem_append] at hmem
    cases hmem with
    | inl hmem => exact hstep.events event hmem
    | inr hmem => exact hevents event hmem

-- A response of another slave makes the server do nothing, unless a part of it that begins behind its
-- first byte is itself a request to the server.
theorem response_not_executed (cfg : ServerConfig σ) (stack : Stack σ) (pauses : List Nat)
    (srv : Server σ) (response : List UInt8) (hforeign : ForeignResponse cfg response)
    (hany : cfg.unitId ≠ serverUnitIdAny) (hempty : srv.ctx.rxLen = 0)
    (hstream : srv.line.bytes = response)
    (hembedded : ∀ front frame back, response = front ++ frame ++ back → front ≠ [] →
      ValidRequest frame → ¬cfg.accepts (frame.getD 0 0) (frame.getD 1 0))
    : (runServer cfg stack pauses srv).server.state = srv.state ∧
      ∀ event ∈ (runServer cfg stack pauses srv).events, ∃ frame, event = .frame frame := by
  apply runServer_overhears cfg stack pauses srv (by simp [hempty])
  have hheld : srv.ctx.held = [] := by simp [ServerCtx.held, hempty]
  rw [hheld, hstream, List.nil_append]
  intro front frame back heq hvalid
  cases front with
  | cons byte front => exact hembedded (byte :: front) frame back heq (by simp) hvalid
  | nil =>
    -- the unit id of the response is in front
    obtain ⟨unitId, pdu, hresponse, -, hbroadcast, hforeign⟩ := hforeign
    have hpos := requestLen_complete hvalid.1
    have hunit : frame.getD 0 0 = unitId := by
      rw [← List.getD_append frame back 0 0 (by omega), ← List.nil_append frame, ← heq, hresponse]
      rfl
    unfold ServerConfig.accepts
    rw [hunit, if_neg hbroadcast]
    simp [hany, hforeign]

theorem readResponse_not_executed
    : (runServer (sampleConfig 1) sampleStack [0, 0] (sampleServer
        ((withCrc [2, 3, 4, 0, 10, 0, 11]).map fun byte => ⟨0, byte⟩))).server.state = () ∧
      ∀ event ∈ (runServer (sampleConfig 1) sampleStack [0, 0] (sampleServer
        ((withCrc [2, 3, 4, 0, 10, 0, 11]).map fun byte => ⟨0, byte⟩))).events,
        ∃ frame, event = .frame frame := by
  apply response_not_executed (sampleConfig 1) sampleStack [0, 0] _ (withCrc [2, 3, 4, 0, 10, 0, 11])
  . exact ⟨2, _, rfl, .registers 3 4 [10, 11] (.inl rfl) rfl (by decide) (by decide), by decide,
      by decide⟩
  . decide
  . rfl
  . rfl
  . intro front frame back heq hfront hvalid
    have hlen := congrArg List.length heq
    have hmin := requestLen_complete hvalid.1
    have hpos := List.length_pos_iff.mpr hfront
    simp only [length_withCrc, List.length_append, List.length_cons, List.length_nil] at hlen
    -- only what lies behind the unit id is long enough
    obtain ⟨byte, rfl⟩ : ∃ byte, front = [byte] := List.length_eq_one_iff.mp (by omega)
    have htail : [3, 4, 0, 10, 0, 11] ++ crcBytes (crcOf [2, 3, 4, 0, 10, 0, 11]) = frame ++ back :=
      congrArg List.tail heq
    have hunit : frame.getD 0 0 = 3 := by
      rw [← List.getD_append frame back 0 0 (by omega), ← htail]
      rfl
    rw [hunit]
    simp [ServerConfig.accepts, sampleConfig]

-- Slave 2's answer to a read of four registers, which hold a write request to slave 1.
def embeddingResponse : List UInt8 :=
  withCrc [2, 3, 8, 1, 6, 0, 0, 0, 7, 0xC8, 8]

theorem embedded_request_executed
    : ForeignResponse (sampleConfig 1) embeddingResponse ∧
      (runServer (sampleConfig 1) sampleStack [0]
          (sampleServer (embeddingResponse.map fun byte => ⟨0, byte⟩))).events
        =
      [.frame [1, 6, 0, 0, 0, 7, 0xC8, 8], .call (.writeRegisters 0 1 [7]),
        .send [1, 6, 0, 0, 0, 7, 0xC8, 8]] := by
  refine ⟨⟨2, _, rfl, ?_, by decide, by decide⟩, by decide +kernel⟩
  exact .registers 3 8 [0x0106, 0, 7, 0xC808] (.inl rfl) rfl (by decide) (by decide)

end Rtu
