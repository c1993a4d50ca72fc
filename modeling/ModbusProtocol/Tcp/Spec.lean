import Mathlib.Data.List.GetD
import ModbusProtocol.Data.Scan
import ModbusProtocol.Pdu.Spec
import ModbusProtocol.Tcp.Impl.Server

/-!
This module contains what a TCP server is for: the MBAP frames of a byte stream, and what becomes of each
of them. No buffer and no system call is left here.
-/

open Modbus

namespace Tcp

-- The length field of the frame whose first bytes these are.
def mbapLen (l : List UInt8) : Nat :=
  (Pdu.u16Of (l.getD 4 0) (l.getD 5 0)).toNat

-- The two ends of a connection differ in the least length they take.
def mbapVerdict (minLen : Nat) (l : List UInt8) : Verdict :=
  if l.length < tcpMbapHeaderLen then
    .wait
  else if mbapLen l < minLen ∨ mbapLen l > tcpMaxAduLength - tcpMbapHeaderLen then
    .halt
  else if l.length < tcpMbapHeaderLen + mbapLen l then
    .wait
  else
    .take (tcpMbapHeaderLen + mbapLen l)

theorem mbapLen_append {l : List UInt8} (h : 6 ≤ l.length) (l' : List UInt8)
    : mbapLen (l ++ l') = mbapLen l := by
  unfold mbapLen
  rw [List.getD_append _ _ _ _ (by omega)]
  rw [List.getD_append _ _ _ _ (by omega)]

theorem mbapVerdict_take {minLen : Nat} {l : List UInt8} {n : Nat}
    (h : mbapVerdict minLen l = .take n)
    : n = 6 + mbapLen l ∧ n ≤ l.length ∧ minLen ≤ mbapLen l ∧ mbapLen l ≤ 254 := by
  unfold mbapVerdict at h
  grind

def mbapFraming (minLen : Nat) : Framing UInt8 where
  verdict := mbapVerdict minLen
  ne_nil_of_skip := by
    intro l h
    unfold mbapVerdict at h
    grind
  take_pos := by
    intro l n h
    have := mbapVerdict_take h
    omega
  take_le := by
    intro l n h
    apply (mbapVerdict_take h).2.1
  stable := by
    intro l h l'
    have hlen : (l ++ l').length = l.length + l'.length := List.length_append
    have happend : 6 ≤ l.length → mbapLen (l ++ l') = mbapLen l := fun h => mbapLen_append h l'
    unfold mbapVerdict at h ⊢
    grind

-- A PDU under an MBAP header.
def mbapAdu (tid : List UInt8) (unitId : UInt8) (pdu : List UInt8) : List UInt8 :=
  tid ++ [0, 0] ++ Pdu.u16Bytes (UInt16.ofNat (1 + pdu.length)) ++ unitId :: pdu

variable {σ : Type}

def ServerConfig.accepts (cfg : ServerConfig σ) (unitId : UInt8) : Prop :=
  cfg.unitId = serverUnitIdAny ∨ unitId = cfg.unitId

instance (cfg : ServerConfig σ) (unitId : UInt8) : Decidable (cfg.accepts unitId) := by
  unfold ServerConfig.accepts
  infer_instance

-- What one frame makes the server do to an application in state `s`.
def serveFrame (cfg : ServerConfig σ) (locals : σ → Pdu.Locals) (frame : List UInt8) (s : σ)
    : σ × List Event :=
  let protocolId := (frame.drop 2).take 2
  let unitId := frame.getD 6 0
  if protocolId = [0, 0] ∧ cfg.accepts unitId then
    let reply := Pdu.respond cfg.handlers (locals s) (frame.drop 7) s
    (reply.state, .frame frame :: reply.calls.map .call ++
      [.send (mbapAdu (frame.take 2) unitId reply.bytes)])
  else
    (s, [.frame frame])

end Tcp
