import ModbusProtocol.Rtu.Lemmas.Server

/-!
This module contains the request PDUs whose ADUs an RTU server can tell from their own bytes, and what
it makes of a single request with nothing behind it.
-/

open Modbus Posix

namespace Rtu

variable {σ : Type}

-- The ADU of the request has the length that an RTU server gives it: the byte count of FC15 and FC16
-- counts the bytes behind it, every other request is as long as FC01 to FC06.
def FixesLength (pdu : List UInt8) : Prop :=
  if pdu.getD 0 0 = funcWriteMultipleCoils ∨ pdu.getD 0 0 = funcWriteMultipleRegisters then
    pdu.getD 5 0 ≠ 0 ∧ pdu.length = 6 + (pdu.getD 5 0).toNat
  else
    pdu.length = 5

theorem FixesLength.five_le {pdu : List UInt8} (h : FixesLength pdu)
    : 5 ≤ pdu.length := by
  unfold FixesLength at h
  split at h
  . omega
  . omega

theorem getD_withCrc (unitId : UInt8) {pdu : List UInt8} {i : Nat} (hi : i < pdu.length)
    : (withCrc (unitId :: pdu)).getD (i + 1) 0 = pdu.getD i 0 := by
  unfold withCrc
  rw [List.cons_append, List.getD_cons_succ, List.getD_append _ _ _ _ hi]

theorem validRequest_withCrc (unitId : UInt8) {pdu : List UInt8} (hmax : pdu.length ≤ 253)
    (hfixes : FixesLength pdu)
    : ValidRequest (withCrc (unitId :: pdu)) := by
  refine ⟨?_, _, rfl⟩
  have hlen : (withCrc (unitId :: pdu)).length = pdu.length + 3 := length_withCrc _
  have hmin := hfixes.five_le
  have hfc := @getD_withCrc unitId pdu 0 (by omega)
  unfold FixesLength at hfixes
  unfold requestLen
  rw [hlen, hfc, if_neg (by omega)]
  split
  . next hmultiple =>
    rw [if_pos hmultiple] at hfixes
    obtain ⟨hne, heq⟩ := hfixes
    rw [@getD_withCrc unitId pdu 5 (by omega)]
    generalize pdu.getD 5 0 = byteCount at hne heq
    rw [if_neg (by omega), if_neg, if_neg (by omega)]
    . congr 1
      omega
    . simp only [hne, false_or, rtuMaxAduLength]
      omega
  . next hfixed =>
    rw [if_neg hfixed] at hfixes
    rw [hfixes]
    rfl

theorem pduOf_withCrc (unitId : UInt8) (pdu : List UInt8)
    : pduOf (withCrc (unitId :: pdu)) = pdu := by
  unfold pduOf
  rw [length_withCrc]
  unfold withCrc
  simp

theorem serveFrame_withCrc {cfg : ServerConfig σ} {unitId : UInt8} {pdu : List UInt8}
    (hpos : 0 < pdu.length) (haccepts : cfg.accepts unitId (pdu.getD 0 0)) (locals : σ → Pdu.Locals)
    (s : σ)
    : let reply := Pdu.respond cfg.handlers (locals s) pdu s
      serveFrame cfg locals (withCrc (unitId :: pdu)) s
        =
      (reply.state, .frame (withCrc (unitId :: pdu)) :: reply.calls.map .call ++
        (if unitId = rtuBroadcastAddress then [] else
          cfg.sendEvents (withCrc (unitId :: reply.bytes)))) := by
  have hunit : (withCrc (unitId :: pdu)).getD 0 0 = unitId := rfl
  unfold serveFrame
  dsimp only
  rw [hunit, getD_withCrc unitId hpos, if_pos haccepts, pduOf_withCrc]

theorem ValidRequest.verdict {frame : List UInt8} (h : ValidRequest frame)
    : requestFraming.verdict frame = .take frame.length := by
  simp [requestFraming, requestVerdict, h.1, h.2]

theorem serverOnProcess_idle {cfg : ServerConfig σ} {locals : σ → Pdu.Locals} {srv : Server σ}
    {chunk : List UInt8} {p : Processed σ} (h : Called cfg locals srv chunk p)
    (hchunk : chunk <+: srv.line.bytes) (hheld : srv.ctx.held = []) (hread : srv.line.bytes = [])
    : p.server.state = srv.state ∧ p.events = [] ∧ p.server.ctx.held = [] ∧
      p.server.line.bytes = [] := by
  rw [hread, List.prefix_nil] at hchunk
  subst hchunk
  have hrest := h.rest
  rw [hread, List.drop_nil, List.suffix_nil] at hrest
  have hserved := h.served
  obtain ⟨-, hevents, hheld'⟩ | ⟨frame, hextract, hframes⟩ := h.extracted
  . rw [hevents] at hserved
    injection hserved with hstate
    exact ⟨hstate.symm, hevents, by rw [hheld', hheld]; rfl, hrest⟩
  . rw [hheld, List.append_nil, Framing.extract_wait (by rfl)] at hextract
    injection hextract with hnone hheld'
    subst hnone
    rw [hframes] at hserved
    injection hserved with hstate hevents
    exact ⟨hstate.symm, hevents.symm, hheld'.symm, hrest⟩

theorem runServer_idle (cfg : ServerConfig σ) (stack : Stack σ) (pauses : List Nat) (srv : Server σ)
    (hroom : srv.ctx.rxLen ≤ rtuMaxAduLength) (htimeout : NoTimeout cfg stack pauses srv)
    (hheld : srv.ctx.held = []) (hread : srv.line.bytes = [])
    : let run := runServer cfg stack pauses srv
      run.server.state = srv.state ∧ run.events = [] ∧ run.server.ctx.held = [] := by
  induction pauses generalizing srv with
  | nil => exact ⟨rfl, rfl, hheld⟩
  | cons pause pauses ih =>
    obtain ⟨hquiet, hlater⟩ := htimeout
    obtain ⟨chunk, htook, hcalled⟩ := serverOnProcess_called cfg stack (srv.pass pause) hroom hquiet
    obtain ⟨hstate, hevents, hheld', hread'⟩ :=
      serverOnProcess_idle hcalled ⟨_, htook.bytes.symm⟩ hheld hread
    unfold runServer
    dsimp only
    obtain ⟨hstate', hevents', hheld''⟩ := ih _ hcalled.room hlater hheld' hread'
    exact ⟨hstate'.trans hstate, by rw [hevents, hevents']; rfl, hheld''⟩

-- A call either leaves the request where it is or serves it.
theorem Called.request {cfg : ServerConfig σ} {locals : σ → Pdu.Locals} {srv : Server σ}
    {chunk : List UInt8} {p : Processed σ} {frame : List UInt8} (h : Called cfg locals srv chunk p)
    (hchunk : chunk <+: srv.line.bytes) (hvalid : ValidRequest frame)
    (hstream : srv.ctx.held ++ srv.line.bytes = frame)
    : p.server.state = srv.state ∧ p.events = [] ∧ p.server.ctx.held ++ p.server.line.bytes = frame ∨
      (p.server.state, p.events) = serveFrame cfg locals frame srv.state ∧
        p.server.ctx.held = [] ∧ p.server.line.bytes = [] := by
  have hserved := h.served
  have hkept : p.events = [] → srv.line.bytes = chunk ++ p.server.line.bytes := by
    intro hevents
    apply (h.line _).1
    intro
    simp [hevents]
  obtain ⟨later, hlater⟩ := hchunk
  obtain ⟨-, hevents, hheld⟩ | ⟨extracted, hextract, hframes⟩ := h.extracted
  . left
    rw [hevents] at hserved
    injection hserved with hstate
    refine ⟨hstate.symm, hevents, ?_⟩
    rw [hheld, List.append_assoc, ← hkept hevents, hstream]
  . have hverdict := hvalid.verdict
    rw [← hstream, ← hlater, ← List.append_assoc] at hverdict
    by_cases hnil : later = []
    . right
      rw [hnil, List.append_nil] at hverdict hlater
      rw [Framing.extract_take hverdict, List.take_length, List.drop_length] at hextract
      injection hextract with hsome hheld
      rw [← hsome, hlater, hstream, Option.toList_some] at hframes
      rw [hframes, transduce_singleton] at hserved
      have hrest := h.rest
      rw [hlater, List.drop_length, List.suffix_nil] at hrest
      exact ⟨hserved.symm, hheld.symm, hrest⟩
    . left
      rw [Framing.extract_wait (Framing.verdict_prefix hverdict hnil)] at hextract
      injection hextract with hnone hheld
      subst hnone
      rw [hframes] at hserved
      injection hserved with hstate hevents
      refine ⟨hstate.symm, hevents.symm, ?_⟩
      rw [← hheld, List.append_assoc, ← hkept hevents.symm, hstream]

theorem runServer_request (cfg : ServerConfig σ) (stack : Stack σ) (pauses : List Nat)
    (srv : Server σ) (frame : List UInt8) (hroom : srv.ctx.rxLen ≤ rtuMaxAduLength)
    (htimeout : NoTimeout cfg stack pauses srv) (hvalid : ValidRequest frame)
    (hstream : srv.ctx.held ++ srv.line.bytes = frame)
    : let run := runServer cfg stack pauses srv
      run.server.ctx.held ++ run.server.line.bytes = frame ∨
        (run.server.state, run.events) = serveFrame cfg stack.locals frame srv.state ∧
          run.server.ctx.held = [] := by
  induction pauses generalizing srv with
  | nil => exact .inl hstream
  | cons pause pauses ih =>
    obtain ⟨hquiet, hlater⟩ := htimeout
    obtain ⟨chunk, htook, hcalled⟩ := serverOnProcess_called cfg stack (srv.pass pause) hroom hquiet
    unfold runServer
    dsimp only
    obtain ⟨hstate, hevents, hstream'⟩ | ⟨hserved, hheld, hread⟩ :=
      hcalled.request ⟨_, htook.bytes.symm⟩ hvalid hstream
    . obtain hleft | ⟨hserved, hheld⟩ := ih _ hcalled.room hlater hstream'
      . exact .inl hleft
      . right
        rw [hevents]
        rw [hstate] at hserved
        exact ⟨hserved, hheld⟩
    . obtain ⟨hstate, hevents, hheld'⟩ := runServer_idle cfg stack pauses _ hcalled.room hlater hheld hread
      right
      rw [hstate, hevents, List.append_nil]
      exact ⟨hserved, hheld'⟩

end Rtu
