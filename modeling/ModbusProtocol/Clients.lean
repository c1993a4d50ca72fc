import ModbusProtocol.Rtu.Lemmas.Deadline
import ModbusProtocol.Rtu.Lemmas.Read
import ModbusProtocol.Tcp.Lemmas.Deadline
import ModbusProtocol.Tcp.Lemmas.Read
import ModbusProtocol.Tcp.Lemmas.Replies

/-!
This module contains the comparison of the two clients: what a read may do to the buffer of its caller, and
on which schedules the response timeout bounds the whole response.
-/

open Modbus Posix

-- Whatever the session has come to and the peer does: the caller's buffer changes only on success, to the
-- values of an accepted response.
theorem reads_only_answers
    : ReadsOnlyAnswers funcReadCoils bitValues (Rtu.Client.AcceptedBehind funcReadCoils)
          Rtu.Client.errArg Rtu.Client.readCoils ∧
      ReadsOnlyAnswers funcReadDiscreteInputs bitValues
          (Rtu.Client.AcceptedBehind funcReadDiscreteInputs) Rtu.Client.errArg
          Rtu.Client.readDiscreteInputs ∧
      ReadsOnlyAnswers funcReadHoldingRegisters registerValues
          (Rtu.Client.AcceptedBehind funcReadHoldingRegisters) Rtu.Client.errArg
          Rtu.Client.readHoldingRegisters ∧
      ReadsOnlyAnswers funcReadInputRegisters registerValues
          (Rtu.Client.AcceptedBehind funcReadInputRegisters) Rtu.Client.errArg
          Rtu.Client.readInputRegisters ∧
      ReadsOnlyAnswers funcReadCoils bitValues (fun ses _ _ => Tcp.Client.AcceptedReply ses)
          Tcp.Client.errArg Tcp.Client.readCoils ∧
      ReadsOnlyAnswers funcReadDiscreteInputs bitValues (fun ses _ _ => Tcp.Client.AcceptedReply ses)
          Tcp.Client.errArg Tcp.Client.readDiscreteInputs ∧
      ReadsOnlyAnswers funcReadHoldingRegisters registerValues
          (fun ses _ _ => Tcp.Client.AcceptedReply ses) Tcp.Client.errArg
          Tcp.Client.readHoldingRegisters ∧
      ReadsOnlyAnswers funcReadInputRegisters registerValues
          (fun ses _ _ => Tcp.Client.AcceptedReply ses) Tcp.Client.errArg
          Tcp.Client.readInputRegisters := by
  apply And.intro (Rtu.Client.readBits_answers (.inl rfl))
  apply And.intro (Rtu.Client.readBits_answers (.inr rfl))
  apply And.intro (Rtu.Client.readRegisters_answers (.inl rfl))
  apply And.intro (Rtu.Client.readRegisters_answers (.inr rfl))
  apply And.intro (Tcp.Client.readBits_answers (.inl rfl))
  apply And.intro (Tcp.Client.readBits_answers (.inr rfl))
  apply And.intro (Tcp.Client.readRegisters_answers (.inl rfl))
  apply Tcp.Client.readRegisters_answers (.inr rfl)

namespace Tcp.Client

theorem transact_sent {ses : Session} {req pdu resp : Mem UInt8} {pduLen : Nat} {line : Line}
    (hinit : ses.ctx.initialized = true) (hsock : 0 ≤ ses.ctx.sock)
    (hsend : sendAll ses.line
      (frameRequest (nextTid ses.ctx.tid) ses.ctx.cfg.unitId req pdu pduLen) = (true, line))
    : transact ses req pdu pduLen resp
        =
      awaitReply { ses.ctx with tid := nextTid ses.ctx.tid } (nextTid ses.ctx.tid) pdu resp line
        [.send (frameRequest (nextTid ses.ctx.tid) ses.ctx.cfg.unitId req pdu pduLen)] := by
  unfold transact
  rw [if_neg (by simp [hinit]), if_neg (by omega)]
  dsimp only
  rw [hsend]

end Tcp.Client

-- From the sent request on, both clients keep to the deadline on exactly these schedules.
theorem response_timeout_bounds_iff (tcp : Tcp.Client.ClientCtx) (tcpLine : Line)
    (hprompt : Line.Prompt tcpLine)
    (htimeout : tcpLine.recvTimeout
      = some (1000000 * Tcp.Client.effectiveResponseTimeoutMs tcp.cfg))
    (tid : UInt16) (rtu : Rtu.Client.Session) (rtuLine : Line) (req : List UInt8)
    (pdu resp : Mem UInt8) (events : List Event)
    : (Line.Punctual 1000000
          (tcpLine.now / 1000000 + Tcp.Client.effectiveResponseTimeoutMs tcp.cfg) tcpLine
          (Tcp.Client.awaitReply tcp tid pdu resp tcpLine events).rc
          (Tcp.Client.awaitReply tcp tid pdu resp tcpLine events).ses.line ↔
        Tcp.Client.OnTime tid (Tcp.Client.effectiveResponseTimeoutMs tcp.cfg)
          (tcpLine.now / 1000000 + Tcp.Client.effectiveResponseTimeoutMs tcp.cfg) tcpLine.now
          tcpLine.incoming) ∧
      ((∀ turns, Line.Prompt { rtuLine with turns := turns } →
          Line.Punctual 1000 (Rtu.Client.deadlineFrom rtu rtuLine.now) { rtuLine with turns := turns }
            (Rtu.Client.awaitResponse rtu pdu resp req { rtuLine with turns := turns } events).rc
            (Rtu.Client.awaitResponse rtu pdu resp req { rtuLine with turns := turns } events).ses.line) ↔
        Rtu.Client.EchoOnTime rtu (pdu 0) req rtuLine.now rtuLine.incoming) := by
  constructor
  . exact Tcp.Client.awaitReply_punctual_iff hprompt htimeout tid pdu resp events
  . exact Rtu.Client.awaitResponse_punctual_iff

namespace Tcp.Client

-- The reply comes one byte every 900 milliseconds.
def dripSample : Line where
  now := 0
  incoming := (mbapAdu [0, 1] 1 [6, 0, 0, 0, 5]).mapIdx fun i byte => ⟨900000000 * (i + 1), byte⟩
  outgoing := []
  turns := []
  recvTimeout := some 1000000000

def dripRequest : Mem UInt8 × Nat :=
  (Pdu.Operation.writeSingleRegister 0 5).build fun _ => 0

def dripped : Transacted :=
  transact ⟨⟨3, 0, true, ⟨"10.0.0.1", 502, "", 1, 1000⟩⟩, dripSample⟩ (fun _ => 0) dripRequest.1
    dripRequest.2 fun _ => 0

theorem drip_unbounded
    : dripped.rc = ok ∧ dripped.ses.line.now = 10800000000 ∧
      ¬Line.Punctual 1000000 1000 dripSample dripped.rc dripped.ses.line := by
  have hend : dripped.ses.line.now = 10800000000 := by
    decide +kernel
  refine ⟨by decide +kernel, hend, ?_⟩
  intro hpunctual
  have hbound := hpunctual.waited
  rw [hend] at hbound
  contradiction

-- The reply comes byte by byte within the timeout, behind a late one, and calls are interrupted.
def staleArrivals : List Arrival :=
  (mbapAdu [0, 7] 1 [6, 0, 0, 0, 5]).map (⟨300000000, ·⟩)

def timelyArrivals : List Arrival :=
  (mbapAdu [0, 1] 1 [6, 0, 0, 0, 5]).mapIdx fun i byte => ⟨600000000 + 10000000 * i, byte⟩

def promptSample : Line where
  now := 0
  incoming := staleArrivals ++ timelyArrivals
  outgoing := []
  turns := [⟨0, 0, .done⟩, ⟨0, 0, .intr⟩, ⟨0, 0, .done⟩, ⟨0, 3, .done⟩, ⟨0, 0, .intr⟩]
  recvTimeout := some 1000000000

theorem begins_sample (now : Nat) (arrivals : List Arrival) (hlt : now / 1000000 < 1000)
    (hready : (await (pollTimeout (1000 - now / 1000000)) now arrivals).1 = true)
    (hend : (gather 1000000000 (wanted (arrivals.map Arrival.byte))
      (await (pollTimeout (1000 - now / 1000000)) now arrivals).2 arrivals).2.1 / 1000000 ≤ 1000)
    : Begins 1000 1000 now arrivals := by
  exact (begins_iff 1000 (by omega) rfl hready).mpr hend

theorem onTime_sample
    : OnTime 1 1000 1000 0 (staleArrivals ++ timelyArrivals) := by
  have hstale : MbapFrame (staleArrivals.map Arrival.byte) := by
    unfold MbapFrame
    decide +kernel
  have htimely : MbapFrame (timelyArrivals.map Arrival.byte) := by
    unfold MbapFrame
    decide +kernel
  have hlast := @onTime_frame 1 1000 1000 (due 0 staleArrivals) timelyArrivals [] htimely
  rw [List.append_nil] at hlast
  rw [onTime_frame hstale, hlast]
  refine ⟨fun hlt => ?_, fun _ => ⟨fun hlt => ?_, fun hother => ?_⟩⟩
  . apply begins_sample _ _ hlt
    . decide +kernel
    . decide +kernel
  . apply begins_sample _ _ hlt
    . decide +kernel
    . decide +kernel
  . exact absurd (by decide) hother.tid

end Tcp.Client

namespace Rtu.Client

-- A port that echoes: the request comes back after 5 ms, the response after 20 ms.
def echoingSample : Session :=
  let ses := receiving []
  { ses with
    ctx := { ses.ctx with cfg := { ses.ctx.cfg with localEcho := true } }
    line := { ses.line with
      incoming := (withCrc [0x11, 3, 0, 0, 0, 1]).map (⟨5000000, ·⟩) ++
        (withCrc [0x11, 3, 2, 0x12, 0x34]).map (⟨20000000, ·⟩)
      turns := [⟨0, 2, .done⟩, ⟨0, 0, .intr⟩, ⟨0, 0, .done⟩, ⟨0, 0, .intr⟩] } }

end Rtu.Client

-- A TCP client that passes over a late reply, and an RTU client that reads its own request back first.
theorem response_timeout_bounds_late
    : let reply := Tcp.Client.awaitReply ⟨3, 1, true, Tcp.Client.clientSample⟩ 1 Tcp.Client.dripRequest.1
        (fun _ => 0) Tcp.Client.promptSample []
      let ses := Rtu.Client.echoingSample
      let response := fun line => Rtu.Client.awaitResponse ses (Rtu.Client.readOne.build fun _ => 0).1
        (fun _ => 0) (Rtu.withCrc [0x11, 3, 0, 0, 0, 1]) line []
      reply.rc = Tcp.Client.ok ∧
      Line.Punctual 1000000 1000 Tcp.Client.promptSample reply.rc reply.ses.line ∧
      (response ses.line).rc = Rtu.Client.ok ∧ (response ses.line).ses.line.now = 20000000 ∧
      Line.Punctual 1000 (Rtu.Client.deadlineFrom ses 0) ses.line (response ses.line).rc
        (response ses.line).ses.line := by
  intro reply ses response
  have hprompt : Line.Prompt Tcp.Client.promptSample := ⟨by decide, by decide⟩
  have hbounds := fun pdu => response_timeout_bounds_iff ⟨3, 1, true, Tcp.Client.clientSample⟩
    Tcp.Client.promptSample hprompt rfl 1 ses ses.line (Rtu.withCrc [0x11, 3, 0, 0, 0, 1]) pdu
    (fun _ => 0) []
  refine ⟨by decide +kernel, ?_, by decide +kernel, by decide +kernel, ?_⟩
  . exact (hbounds Tcp.Client.dripRequest.1).1.mpr Tcp.Client.onTime_sample
  . have hecho : Rtu.Client.EchoOnTime ses ((Rtu.Client.readOne.build fun _ => 0).1 0)
        (Rtu.withCrc [0x11, 3, 0, 0, 0, 1]) 0 ses.line.incoming := by
      intro _ _ _ _ _
      exact ⟨by decide +kernel, by decide +kernel⟩
    exact (hbounds (Rtu.Client.readOne.build fun _ => 0).1).2.mpr hecho ses.line.turns ⟨by decide, by decide⟩
