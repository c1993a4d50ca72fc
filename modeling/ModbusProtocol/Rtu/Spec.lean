import Mathlib.Data.List.GetD
import ModbusProtocol.Data.Scan
import ModbusProtocol.Pdu.Spec
import ModbusProtocol.Rtu.Impl.Server
import ModbusProtocol.Rtu.Lemmas.Crc

/-!
This module contains what an RTU server is for: the request frames of a byte stream, and what becomes of
each of them. No buffer and no system call is left here.
-/

open Modbus

namespace Rtu

-- The length of the request whose first bytes these are.
def requestLen (l : List UInt8) : RequestLen :=
  if l.length < 2 then
    .incomplete
  else if l.getD 1 0 = funcWriteMultipleCoils ∨ l.getD 1 0 = funcWriteMultipleRegisters then
    if l.length ≤ 6 then
      .incomplete
    else if l.getD 6 0 = 0 ∨ 9 + (l.getD 6 0).toNat > rtuMaxAduLength then
      .malformed
    else if l.length < 9 + (l.getD 6 0).toNat then
      .incomplete
    else
      .complete (9 + (l.getD 6 0).toNat)
  else if l.length < rtuMinReqLength then
    .incomplete
  else
    .complete rtuMinReqLength

def requestVerdict (l : List UInt8) : Verdict :=
  match requestLen l with
  | .incomplete => .wait
  | .malformed => .skip
  | .complete n => if CrcValid (l.take n) then .take n else .skip

theorem requestLen_complete {l : List UInt8} {n : Nat} (h : requestLen l = .complete n)
    : 8 ≤ n ∧ n ≤ 256 ∧ n ≤ l.length := by
  unfold requestLen at h
  grind

theorem requestLen_append {l : List UInt8} (l' : List UInt8) (h : requestLen l ≠ .incomplete)
    : requestLen (l ++ l') = requestLen l := by
  have h1 : 1 < l.length → (l ++ l').getD 1 0 = l.getD 1 0 := List.getD_append l l' 0 _
  have h6 : 6 < l.length → (l ++ l').getD 6 0 = l.getD 6 0 := List.getD_append l l' 0 _
  have hlen : (l ++ l').length = l.length + l'.length := List.length_append
  unfold requestLen at h ⊢
  grind

theorem getD_take_of_lt {l : List UInt8} {n i : Nat} (h : i < n)
    : (l.take n).getD i 0 = l.getD i 0 := by
  rw [List.getD_eq_getElem?_getD, List.getElem?_take_of_lt h, List.getD_eq_getElem?_getD]

theorem requestLen_take {l : List UInt8} {n : Nat} (h : requestLen l = .complete n)
    : requestLen (l.take n) = .complete n := by
  obtain ⟨hmin, -, hle⟩ := requestLen_complete h
  have hlen : (l.take n).length = n := List.length_take_of_le hle
  have hfc : (l.take n).getD 1 0 = l.getD 1 0 := getD_take_of_lt (by omega)
  have hcount : (l.take n).getD 6 0 = l.getD 6 0 := getD_take_of_lt (by omega)
  unfold requestLen at h ⊢
  rw [hlen, hfc, hcount]
  grind

theorem requestVerdict_take {l : List UInt8} {n : Nat} (h : requestVerdict l = .take n)
    : requestLen l = .complete n ∧ CrcValid (l.take n) := by
  unfold requestVerdict at h
  split at h
  . contradiction
  . contradiction
  . next n' hlen =>
    split at h
    . next hcrc =>
      injection h with h
      subst h
      exact ⟨hlen, hcrc⟩
    . contradiction

def requestFraming : Framing UInt8 where
  verdict := requestVerdict
  ne_nil_of_skip := by
    intro l h hnil
    subst hnil
    contradiction
  take_pos := by
    intro l n h
    have := requestLen_complete (requestVerdict_take h).1
    omega
  take_le := by
    intro l n h
    exact (requestLen_complete (requestVerdict_take h).1).2.2
  stable := by
    intro l h l'
    unfold requestVerdict at h ⊢
    cases hlen : requestLen l with
    | incomplete => simp [hlen] at h
    | malformed => rw [requestLen_append l' (by simp [hlen]), hlen]
    | complete n =>
      have hle := requestLen_complete hlen
      rw [requestLen_append l' (by simp [hlen]), hlen]
      dsimp only
      rw [List.take_append_of_le_length hle.2.2]

theorem scan_nil
    : requestFraming.scan [] = ([], []) := by
  exact Framing.scan_wait (by rfl)

-- The bytes the server holds.
def ServerCtx.held (ctx : ServerCtx) : List UInt8 :=
  ctx.rxBuffer.slice 0 ctx.rxLen

def pduOf (frame : List UInt8) : List UInt8 :=
  (frame.drop 1).take (frame.length - 3)

variable {σ : Type}

-- Whether a request frame addressed to `unitId` reaches the dispatcher.
def ServerConfig.accepts (cfg : ServerConfig σ) (unitId fc : UInt8) : Prop :=
  if unitId = rtuBroadcastAddress then
    Pdu.isWrite fc = true
  else
    cfg.unitId = serverUnitIdAny ∨ unitId = cfg.unitId

instance (cfg : ServerConfig σ) (unitId fc : UInt8) : Decidable (cfg.accepts unitId fc) := by
  unfold ServerConfig.accepts
  infer_instance

def ServerConfig.sendEvents (cfg : ServerConfig σ) (adu : List UInt8) : List Event :=
  if cfg.onTxEnable then
    [.txEnable true, .send adu, .txEnable false]
  else
    [.send adu]

-- What one extracted frame makes the server do to an application in state `s`.
def serveFrame (cfg : ServerConfig σ) (locals : σ → Pdu.Locals) (frame : List UInt8) (s : σ)
    : σ × List Event :=
  let unitId := frame.getD 0 0
  if cfg.accepts unitId (frame.getD 1 0) then
    let reply := Pdu.respond cfg.handlers (locals s) (pduOf frame) s
    let sent :=
      if unitId = rtuBroadcastAddress then
        []
      else
        cfg.sendEvents (withCrc (unitId :: reply.bytes))
    (reply.state, .frame frame :: reply.calls.map .call ++ sent)
  else
    (s, [.frame frame])

-- A complete request ADU, with the length its own bytes give it.
def ValidRequest (frame : List UInt8) : Prop :=
  requestLen frame = .complete frame.length ∧ CrcValid frame

theorem ValidRequest.of_extract {l frame rest : List UInt8}
    (h : requestFraming.extract l = (some frame, rest))
    : ValidRequest frame ∧ ∃ skipped, l = skipped ++ frame ++ rest := by
  obtain ⟨skipped, heq, htake⟩ := Framing.extract_some h
  obtain ⟨hlen, hcrc⟩ := requestVerdict_take htake
  have hframe := requestLen_take hlen
  rw [List.take_left] at hcrc hframe
  exact ⟨⟨hframe, hcrc⟩, skipped, heq⟩

theorem scan_validRequests (reqs : List (List UInt8)) (h : ∀ req ∈ reqs, ValidRequest req)
    : requestFraming.scan reqs.flatten = (reqs, []) := by
  induction reqs with
  | nil => exact scan_nil
  | cons req reqs ih =>
    obtain ⟨hlen, hcrc⟩ := h req (by simp)
    have htake : requestFraming.verdict req = .take req.length := by
      simp [requestFraming, requestVerdict, hlen, hcrc]
    rw [List.flatten_cons, Framing.scan_take (Framing.verdict_append_take htake _)]
    rw [List.take_left, List.drop_left, ih fun req' hreq' => h req' (by simp [hreq'])]

end Rtu
