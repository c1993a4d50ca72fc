import ModbusProtocol.Pdu.Lemmas.Checked
import ModbusProtocol.Rtu.Impl.Server
import ModbusProtocol.Rtu.Lemmas.Crc
import ModbusProtocol.Tcp.Lemmas.Server

/-!
This module contains the bounds of request dispatch on both servers: no access of the dispatch leaves its
array or meets a byte without a value, and what it reports fits under either framing.
-/

open Modbus Posix

variable {σ : Type}

theorem Tcp.serverOnProcess_sends {cfg : ServerConfig σ} {stack : Stack σ} {srv : Server σ}
    {adu : List UInt8} (h : .send adu ∈ (serverOnProcess cfg stack srv).events)
    : adu.length = tcpMbapHeaderLen + mbapLen adu ∧ adu.length ≤ tcpMaxAduLength := by
  cases serverOnProcess_step cfg stack srv with
  | served n line hverdict htook hserves =>
    have hframe := mbapVerdict_take hverdict
    have hevents := congrArg Prod.snd hserves.served
    dsimp only at hevents
    rw [hevents] at h
    have hlen : 2 ≤ (srv.line.bytes.take n).length := by
      rw [List.length_take]
      omega
    have hsent := mbapVerdict_take (send_mem_serveFrame hlen h)
    constructor
    . exact hsent.1
    . show adu.length ≤ 260
      omega
  | closed hserver hevents hrc hcalm =>
    rw [hevents] at h
    contradiction

-- The checked dispatch of the first `reqLen` bytes makes no fault and comes to what the dispatch does,
-- whatever stands behind them, and neither server has to refuse its result.
theorem dispatch_in_bounds (h : Pdu.Handlers σ) (locals : Pdu.Locals) (req resp : Mem UInt8)
    (reqLen : Nat) (s : σ) (hpos : 1 ≤ reqLen)
    : let out := Pdu.handleRequest h locals req reqLen resp s
      (∃ checked, Pdu.Checked.handleRequest h locals (.ofMem req reqLen) reqLen (.fresh maxPduLength) s
            = .ok ⟨checked, out.len, out.state, out.calls⟩ ∧
          ∀ i < out.len, checked.cell i = some (out.resp i)) ∧
        2 ≤ out.len ∧ out.len ≤ 253 ∧
        (∀ req' : Mem UInt8, req'.slice 0 reqLen = req.slice 0 reqLen →
          Pdu.handleRequest h locals req' reqLen resp s = out) ∧
        (∀ frame : Mem UInt8,
          (Rtu.appendCrc frame (Rtu.offsetPdu + out.len) rtuMaxAduLength).isSome) ∧
        ∀ (cfg : Tcp.ServerConfig σ) (stack : Stack σ) (srv : Tcp.Server σ) (adu : List UInt8),
          .send adu ∈ (Tcp.serverOnProcess cfg stack srv).events →
          adu.length = tcpMbapHeaderLen + Tcp.mbapLen adu ∧ adu.length ≤ tcpMaxAduLength := by
  obtain ⟨checked, hrun, hknown, hmin, hmax⟩ := @Pdu.Checked.handleRequest_refines _ h locals
    (.ofMem req reqLen) (.fresh maxPduLength) req reqLen (Object.known_ofMem req reqLen) hpos rfl resp s
  intro out
  refine ⟨⟨checked, hrun, hknown.cell⟩, hmin, hmax, ?_, ?_, ?_⟩
  . intro req' hsame
    have hout := Pdu.handleRequest_eq_respond h locals req resp reqLen s hpos
    rw [Pdu.handleRequest_eq_respond h locals req' resp reqLen s hpos, hsame]
    exact hout.symm
  . intro frame
    have hle : out.len ≤ 253 := hmax
    have hfits : Rtu.offsetPdu + out.len + 2 ≤ rtuMaxAduLength := by
      show 1 + out.len + 2 ≤ 256
      omega
    rw [Rtu.appendCrc_eq _ _ _ hfits]
    rfl
  . intro cfg stack srv adu hsend
    apply Tcp.serverOnProcess_sends hsend

-- The longest response, to a read of 125 registers.
theorem longest_dispatch_in_bounds
    : let out := Pdu.handleRequest Tcp.sampleConfig.handlers (Tcp.sampleStack.locals ())
        (Mem.write (fun _ => 0) 0 [3, 0, 0, 0, 125]) 5 (fun _ => 0) ()
      2 ≤ out.len ∧ out.len ≤ 253 := by
  have hbounds := dispatch_in_bounds Tcp.sampleConfig.handlers (Tcp.sampleStack.locals ())
    (Mem.write (fun _ => 0) 0 [3, 0, 0, 0, 125]) (fun _ => 0) 5 () (by decide)
  exact ⟨hbounds.2.1, hbounds.2.2.1⟩
