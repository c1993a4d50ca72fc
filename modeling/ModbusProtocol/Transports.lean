import ModbusProtocol.Rtu.Lemmas.Request
import ModbusProtocol.Tcp.Lemmas.Server

/-!
This module contains the comparison of the two servers: which request PDUs an RTU server makes of a frame
what a TCP server makes of them.
-/

open Modbus Posix

variable {σ : Type}

namespace Rtu

-- What the server has done once it has found the request with this PDU.
theorem serveFrame_unicast {cfg : ServerConfig σ} {unitId : UInt8} {pdu : List UInt8}
    (hpos : 0 < pdu.length) (hunit : cfg.unitId = unitId) (hunicast : unitId ≠ rtuBroadcastAddress)
    (locals : σ → Pdu.Locals) (s : σ)
    : let reply := Pdu.respond cfg.handlers (locals s) pdu s
      let served := serveFrame cfg locals (withCrc (unitId :: pdu)) s
      served.1 = reply.state ∧ callsOf served.2 = reply.calls ∧
        adusOf served.2 = [withCrc (unitId :: reply.bytes)] := by
  have haccepts : cfg.accepts unitId (pdu.getD 0 0) := by
    unfold ServerConfig.accepts
    rw [if_neg hunicast]
    exact .inr hunit.symm
  intro reply served
  have hserve : served = _ := serveFrame_withCrc hpos haccepts locals s
  obtain ⟨hcalls, hadus⟩ := callsOf_sendEvents cfg (withCrc (unitId :: reply.bytes))
  rw [if_neg hunicast] at hserve
  rw [hserve, ← List.singleton_append]
  refine ⟨rfl, ?_, ?_⟩
  . rw [callsOf_append, callsOf_append, callsOf_calls, hcalls, List.append_nil]
    rfl
  . rw [adusOf_append, adusOf_append, adusOf_calls, hadus]
    rfl

theorem runServer_unicast {cfg : ServerConfig σ} {stack : Stack σ} {pauses : List Nat}
    {srv : Server σ} {unitId : UInt8} {pdu : List UInt8} (hunit : cfg.unitId = unitId)
    (hunicast : unitId ≠ rtuBroadcastAddress) (hmax : pdu.length ≤ 253) (hfixes : FixesLength pdu)
    (hempty : srv.ctx.rxLen = 0) (hstream : srv.line.bytes = withCrc (unitId :: pdu))
    (htimeout : NoTimeout cfg stack pauses srv)
    (hread : (runServer cfg stack pauses srv).server.line.bytes = [])
    (hdone : (extractRequestFrame (runServer cfg stack pauses srv).server.ctx
      (stack.adu (runServer cfg stack pauses srv).server.state) rtuMaxAduLength).1 = none)
    : let reply := Pdu.respond cfg.handlers (stack.locals srv.state) pdu srv.state
      let run := runServer cfg stack pauses srv
      run.server.state = reply.state ∧ callsOf run.events = reply.calls ∧
        adusOf run.events = [withCrc (unitId :: reply.bytes)] := by
  have hroom : srv.ctx.rxLen ≤ rtuMaxAduLength := by simp [hempty]
  have hheld : srv.ctx.held = [] := by simp [ServerCtx.held, hempty]
  have hvalid := validRequest_withCrc unitId hmax hfixes
  have hpos : 0 < pdu.length := Nat.lt_of_lt_of_le (by simp) hfixes.five_le
  have hbound := runServer_room cfg stack pauses srv hroom
  have hrun := runServer_request cfg stack pauses srv _ hroom htimeout hvalid
    (by rw [hheld, hstream]; rfl)
  dsimp only at hrun ⊢
  generalize runServer cfg stack pauses srv = run at *
  obtain hkept | ⟨hserved, -⟩ := hrun
  . -- the request would still be there to be extracted
    rw [hread, List.append_nil] at hkept
    have hlimit : run.server.ctx.rxLen < sizeLimit := Nat.lt_of_le_of_lt hbound (by decide)
    have hextract := (extractRequestFrame_eq run.server.ctx (stack.adu run.server.state) hlimit).2
    rw [hdone, Option.map_none, hkept, Framing.extract_take hvalid.verdict] at hextract
    injection hextract with hextract
    contradiction
  . have hstate : run.server.state = _ := congrArg Prod.fst hserved
    have hevents : run.events = _ := congrArg Prod.snd hserved
    rw [hstate, hevents]
    apply serveFrame_unicast hpos hunit hunicast

end Rtu

namespace Tcp

theorem serverOnProcess_unicast {cfg : ServerConfig σ} {stack : Stack σ} {srv : Server σ}
    {unitId : UInt8} {tid pdu : List UInt8} (hunit : cfg.unitId = unitId) (htid : tid.length = 2)
    (hpos : 1 ≤ pdu.length) (hmax : pdu.length ≤ 253)
    (hstream : srv.line.bytes = mbapAdu tid unitId pdu) (hcalm : srv.line.Calm)
    : let reply := Pdu.respond cfg.handlers (stack.locals srv.state) pdu srv.state
      let p := serverOnProcess cfg stack srv
      p.server.state = reply.state ∧ callsOf p.events = reply.calls ∧
        adusOf p.events = [mbapAdu tid unitId reply.bytes] := by
  have htake := mbapVerdict_mbapAdu htid unitId hpos hmax
  intro reply p
  cases serverOnProcess_step cfg stack srv with
  | served n line hverdict htook hserves =>
    rw [hstream, htake] at hverdict
    injection hverdict with hn
    rw [hstream, ← hn, List.take_length] at hserves
    have hserved := hserves.served
    have haccepts : cfg.accepts unitId := .inr hunit.symm
    have hserve := serveFrame_mbapAdu htid haccepts stack.locals pdu srv.state
    have hstate : p.server.state = _ := congrArg Prod.fst (hserved.trans hserve)
    have hevents : p.events = _ := congrArg Prod.snd (hserved.trans hserve)
    rw [hstate, hevents, ← List.singleton_append]
    refine ⟨rfl, ?_, ?_⟩
    . rw [callsOf_append, callsOf_append, callsOf_calls]
      apply List.append_nil
    . rw [adusOf_append, adusOf_append, adusOf_calls]
      rfl
  | closed hserver hevents hrc hnone =>
    rw [hstream] at hnone
    exact absurd htake (hnone hcalm _)

end Tcp

theorem servers_alike (rtuCfg : Rtu.ServerConfig σ) (tcpCfg : Tcp.ServerConfig σ)
    (rtuStack tcpStack : Stack σ) (rtu : Rtu.Server σ) (tcp : Tcp.Server σ) (unitId : UInt8)
    (tid pdu : List UInt8) (pauses : List Nat)
    (hhandlers : rtuCfg.handlers = tcpCfg.handlers) (hfills : tcpCfg.handlers.Fills)
    (hstate : rtu.state = tcp.state)
    (hrtuUnit : rtuCfg.unitId = unitId) (htcpUnit : tcpCfg.unitId = unitId)
    (hunicast : unitId ≠ rtuBroadcastAddress) (htid : tid.length = 2)
    (hmax : pdu.length ≤ 253) (hfixes : Rtu.FixesLength pdu)
    (hempty : rtu.ctx.rxLen = 0) (hrtu : rtu.line.bytes = Rtu.withCrc (unitId :: pdu))
    (htimeout : Rtu.NoTimeout rtuCfg rtuStack pauses rtu)
    (hread : (Rtu.runServer rtuCfg rtuStack pauses rtu).server.line.bytes = [])
    (hdone : (Rtu.extractRequestFrame (Rtu.runServer rtuCfg rtuStack pauses rtu).server.ctx
      (rtuStack.adu (Rtu.runServer rtuCfg rtuStack pauses rtu).server.state) rtuMaxAduLength).1 = none)
    (htcp : tcp.line.bytes = Tcp.mbapAdu tid unitId pdu) (hcalm : tcp.line.Calm)
    : let run := Rtu.runServer rtuCfg rtuStack pauses rtu
      let p := Tcp.serverOnProcess tcpCfg tcpStack tcp
      run.server.state = p.server.state ∧ callsOf run.events = callsOf p.events ∧
      ∃ resp, adusOf run.events = [Rtu.withCrc (unitId :: resp)] ∧
        adusOf p.events = [Tcp.mbapAdu tid unitId resp] ∧
        (Pdu.isRead (pdu.getD 0 0) = false → Pdu.isWrite (pdu.getD 0 0) = false →
          resp = [pdu.getD 0 0 ||| exceptionFlag, exIllegalFunction]) := by
  have hpos : 1 ≤ pdu.length := Nat.le_trans (by simp) hfixes.five_le
  obtain ⟨hrtuState, hrtuCalls, hrtuAdus⟩ := Rtu.runServer_unicast hrtuUnit hunicast hmax hfixes hempty
    hrtu htimeout hread hdone
  obtain ⟨htcpState, htcpCalls, htcpAdus⟩ :=
    Tcp.serverOnProcess_unicast htcpUnit htid hpos hmax htcp hcalm
  rw [hhandlers, hstate, hfills.respond _ (tcpStack.locals tcp.state)] at hrtuState hrtuCalls hrtuAdus
  intro run p
  refine ⟨hrtuState.trans htcpState.symm, hrtuCalls.trans htcpCalls.symm, _, hrtuAdus, htcpAdus, ?_⟩
  intro hread hwrite
  unfold Pdu.respond Pdu.fcOf
  dsimp only
  rw [hread, hwrite]
  rfl

-- The bytes of one request are there, nothing follows.
def rtuSample (unitId : UInt8) (pdu : List UInt8) : Rtu.Server Unit :=
  Rtu.sampleServer ((Rtu.withCrc (unitId :: pdu)).map fun byte => ⟨0, byte⟩)

def tcpSample (unitId : UInt8) (pdu : List UInt8) : Tcp.Server Unit :=
  ⟨(), ⟨0, (Tcp.mbapAdu [0, 1] unitId pdu).map fun byte => ⟨0, byte⟩, [], [], none⟩⟩

theorem sampleConfig_fills
    : Tcp.sampleConfig.handlers.Fills := by
  constructor
  . intro readRegisters hread
    cases hread
    intro _ _ _ _ _ _
    exact ⟨rfl, rfl, fun _ => rfl⟩
  . intro readBits hread
    cases hread
    intro _ _ _ _ _ _ hout
    exact ⟨rfl, rfl, fun _ => hout⟩

theorem servers_alike_unsupported
    : ∃ resp, adusOf (Rtu.runServer (Rtu.sampleConfig 1) Rtu.sampleStack [0]
          (rtuSample 1 [0x2B, 14, 1, 0, 0])).events = [Rtu.withCrc (1 :: resp)] ∧
        adusOf (Tcp.serverOnProcess Tcp.sampleConfig Tcp.sampleStack
          (tcpSample 1 [0x2B, 14, 1, 0, 0])).events = [Tcp.mbapAdu [0, 1] 1 resp] ∧
        (Pdu.isRead 0x2B = false → Pdu.isWrite 0x2B = false → resp = [0xAB, 1]) := by
  have hcalm : (tcpSample 1 [0x2B, 14, 1, 0, 0]).line.Calm := ⟨by decide, rfl⟩
  have hdone : (Rtu.extractRequestFrame (Rtu.runServer (Rtu.sampleConfig 1) Rtu.sampleStack [0]
      (rtuSample 1 [0x2B, 14, 1, 0, 0])).server.ctx (fun _ => 0) rtuMaxAduLength).1 = none :=
    Option.isNone_iff_eq_none.mp (by decide +kernel)
  apply (servers_alike (Rtu.sampleConfig 1) Tcp.sampleConfig Rtu.sampleStack Tcp.sampleStack
    (rtuSample 1 [0x2B, 14, 1, 0, 0]) (tcpSample 1 [0x2B, 14, 1, 0, 0]) 1 [0, 1]
    [0x2B, 14, 1, 0, 0] [0] rfl sampleConfig_fills rfl rfl rfl (by decide) rfl (by decide) rfl rfl rfl ?_ ?_
    hdone rfl hcalm).2.2
  . decide +kernel
  . decide +kernel

-- A request without data for an unsupported function code is too short to be a frame for the RTU server.
theorem short_request_unanswered
    : (∀ pauses, Rtu.NoTimeout (Rtu.sampleConfig 1) Rtu.sampleStack pauses (rtuSample 1 [0x07]) →
        adusOf (Rtu.runServer (Rtu.sampleConfig 1) Rtu.sampleStack pauses
          (rtuSample 1 [0x07])).events = []) ∧
      Rtu.NoTimeout (Rtu.sampleConfig 1) Rtu.sampleStack (List.replicate 8 0) (rtuSample 1 [0x07]) ∧
      adusOf (Tcp.serverOnProcess Tcp.sampleConfig Tcp.sampleStack (tcpSample 1 [0x07])).events
        = [Tcp.mbapAdu [0, 1] 1 [0x87, 1]] := by
  refine ⟨?_, by decide +kernel, by decide +kernel⟩
  intro pauses htimeout
  have hstep := Rtu.runServer_steps _ _ _ _ rfl (by decide) htimeout
  have hscan := hstep.scan
  have hserved := hstep.served
  have hwait : Rtu.requestFraming.verdict
      ((rtuSample 1 [0x07]).ctx.held ++ (rtuSample 1 [0x07]).line.bytes) = .wait := by
    decide +kernel
  rw [Framing.scan_wait hwait] at hscan
  have hframes := (List.append_eq_nil_iff.mp (congrArg Prod.fst hscan).symm).1
  rw [hframes] at hserved
  have hevents := congrArg Prod.snd hserved
  rw [← show [] = (Rtu.runServer _ _ _ _).events by exact hevents]
  rfl
