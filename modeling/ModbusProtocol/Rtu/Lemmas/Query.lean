import ModbusProtocol.Pdu.Lemmas.Direct
import ModbusProtocol.Rtu.Lemmas.Accept
import ModbusProtocol.Rtu.Lemmas.Resync
import ModbusProtocol.Rtu.System

/-!
This module contains what becomes of a call of an RTU client, once it is known what it finds behind its
request, and that what has come before the request does not count.
-/

open Modbus Posix

namespace Rtu.Client

theorem waitBusSilence_put (bus : SharedBus) (line : Line) (unitId : UInt8) (interFrameUs handoffMs : UInt32)
    : Line.Put line [] (waitBusSilence bus line unitId interFrameUs handoffMs) := by
  have hclock : Line.Put line [] (clockGettime line).2 := Line.turn_put line
  unfold waitBusSilence
  split
  . apply Line.Put.refl
  . dsimp only
    split
    . apply Line.Put.refl
    . split
      . exact hclock
      . exact hclock.trans ((Line.turn_put _).trans (Line.pass_put _ _))

theorem waitBusSilence_feed (bus : SharedBus) (line : Line) (unitId : UInt8)
    (interFrameUs handoffMs : UInt32) (times : Nat → Nat) (bytes : List UInt8)
    : waitBusSilence bus (line.feed times bytes) unitId interFrameUs handoffMs
        = (waitBusSilence bus line unitId interFrameUs handoffMs).feed times bytes := by
  have hclock : clockGettime (line.feed times bytes)
      = ((clockGettime line).1, (clockGettime line).2.feed times bytes) := by
    unfold clockGettime
    rw [Line.clock_feed]
    rfl
  unfold waitBusSilence
  rw [hclock]
  dsimp only
  split
  . rfl
  . split
    . rfl
    . split
      . rfl
      . apply Line.sleep_feed

theorem sendFrame_feed (cfg : ClientConfig) (line : Line) (buf : List UInt8) (times : Nat → Nat)
    (bytes : List UInt8)
    : sendFrame cfg (line.feed times bytes) buf
        =
      ((sendFrame cfg line buf).1, (sendFrame cfg line buf).2.1.feed times bytes,
        (sendFrame cfg line buf).2.2) := by
  unfold sendFrame writeAll
  rw [Line.writeAll_feed]
  generalize line.writeAll false buf = result
  obtain ⟨written, line'⟩ := result
  cases written with
  | true =>
    dsimp only
    rw [Line.drain_feed]
    split
    . rfl
    . rfl
  | false =>
    dsimp only
    split
    . rfl
    . rfl

theorem sendFrame_all (cfg : ClientConfig) (line : Line) (buf : List UInt8)
    (h : (sendFrame cfg line buf).1 = true)
    : Line.Put line buf (sendFrame cfg line buf).2.1 := by
  have hwrite := Line.writeAll_put false line buf
  unfold sendFrame writeAll at h ⊢
  generalize line.writeAll false buf = result at hwrite h ⊢
  obtain ⟨written, line'⟩ := result
  obtain ⟨sent, hput, -, hall⟩ := hwrite
  cases written with
  | true =>
    have hdrain := hput.trans (Line.turn_put line')
    rw [List.append_nil, hall rfl] at hdrain
    dsimp only
    split
    . exact hdrain
    . exact hdrain
  | false =>
    dsimp only at h
    split at h
    . contradiction
    . contradiction

-- The bytes that come until the port is flushed are gone, those behind are kept.
theorem flushed_feed {ses : Session} {times : Nat → Nat} {bytes : List UInt8}
    (hstale : ∀ arrival ∈ ses.line.incoming, arrival.time ≤ ses.flushed.now)
    (hfresh : ∀ i < bytes.length, ses.flushed.now < times i)
    : { ses with line := ses.line.feed times bytes : Session }.flushed = ses.flushed.feed times bytes ∧
      ses.flushed.incoming = [] := by
  have hput := waitBusSilence_put ses.bus ses.line ses.unitId (effectiveInterFrameUs ses.ctx.cfg ses.bus)
    (effectiveHandoffSilenceMs ses.ctx.cfg)
  have hfeed := waitBusSilence_feed ses.bus ses.line ses.unitId
    (effectiveInterFrameUs ses.ctx.cfg ses.bus) (effectiveHandoffSilenceMs ses.ctx.cfg) times bytes
  unfold Session.flushed busTransactionBegin at hstale hfresh ⊢
  unfold Session.unitId at hfeed hput hstale hfresh ⊢
  dsimp only
  rw [hfeed]
  apply Line.flush_feed
  . rw [hput.incoming]
    exact hstale
  . exact hfresh

theorem flushed_outgoing (ses : Session)
    : ses.flushed.outgoing = ses.line.outgoing := by
  have hput := waitBusSilence_put ses.bus ses.line ses.unitId (effectiveInterFrameUs ses.ctx.cfg ses.bus)
    (effectiveHandoffSilenceMs ses.ctx.cfg)
  have hbegin := hput.outgoing
  rw [List.append_nil] at hbegin
  rw [← hbegin]
  apply (Line.turn_took _).outgoing

section

variable {ses : Session} {op : Pdu.Operation} {buf req resp : Mem UInt8} {out : Pdu.Out}

-- The port behind the request, where that has been sent.
def Session.behind (ses : Session) (op : Pdu.Operation) : Line :=
  (sendFrame ses.ctx.cfg ses.flushed (requestAdu ses.unitId op)).2.1

structure Sends (ses : Session) (op : Pdu.Operation) : Prop where
  connected : ses.ctx.initialized = true
  plain : ses.ctx.cfg.localEcho = false
  sent : (sendFrame ses.ctx.cfg ses.flushed (requestAdu ses.unitId op)).1 = true

instance (ses : Session) (op : Pdu.Operation) : Decidable (Sends ses op) :=
  decidable_of_iff
    (ses.ctx.initialized = true ∧ ses.ctx.cfg.localEcho = false ∧
      (sendFrame ses.ctx.cfg ses.flushed (requestAdu ses.unitId op)).1 = true)
    ⟨fun ⟨connected, plain, sent⟩ => ⟨connected, plain, sent⟩, fun h => ⟨h.connected, h.plain, h.sent⟩⟩

theorem Sends.transact (h : Sends ses op)
    (hwrite : ses.unitId = rtuBroadcastAddress → Pdu.isWrite op.fc = true)
    : ∃ events, transact ses req (op.build buf).1 (op.build buf).2 resp
        = awaitResponse ses (op.build buf).1 resp (requestAdu ses.unitId op) (ses.behind op) events := by
  have hsent := h.sent
  have hinit := h.connected
  have hrefused : ¬(ses.unitId = rtuBroadcastAddress ∧ (!Pdu.isWrite op.fc) = true) := by
    intro ⟨hbroadcast, hread⟩
    rw [hwrite hbroadcast] at hread
    contradiction
  refine ⟨(sendFrame ses.ctx.cfg ses.flushed (requestAdu ses.unitId op)).2.2, ?_⟩
  unfold Session.behind
  unfold requestAdu at hsent ⊢
  unfold Client.transact
  dsimp only
  rw [slice_frameRequest, build_zero, if_neg (by simp [hinit]), if_neg hrefused]
  generalize sendFrame ses.ctx.cfg ses.flushed (withCrc (ses.unitId :: op.bytes)) = result at hsent ⊢
  obtain ⟨ok, line, events⟩ := result
  dsimp only at hsent
  subst hsent
  rfl

theorem Sends.outgoing (h : Sends ses op)
    : (ses.behind op).outgoing = ses.line.outgoing ++ requestAdu ses.unitId op := by
  have hput := sendFrame_all ses.ctx.cfg ses.flushed _ h.sent
  unfold Session.behind
  rw [hput.outgoing, flushed_outgoing]

theorem awaitResponse_outgoing (hecho : ses.ctx.cfg.localEcho = false) (pdu resp : Mem UInt8)
    (req : List UInt8) (line : Line) (events : List Event)
    : (awaitResponse ses pdu resp req line events).ses.line.outgoing = line.outgoing := by
  by_cases hbroadcast : ses.unitId = rtuBroadcastAddress
  . unfold awaitResponse
    rw [recvEcho_none hecho]
    dsimp only
    rw [if_pos hbroadcast]
    apply (busTransactionEnd_took ses line).outgoing
  . obtain ⟨⟨taken, htook, -⟩, -⟩ := @awaitResponse_within ses pdu resp req line events hecho hbroadcast
    apply htook.outgoing

-- A call writes its request, and nothing where it is refused.
theorem Sends.written (h : Sends ses op)
    (hwrite : ses.unitId = rtuBroadcastAddress → Pdu.isWrite op.fc = true)
    : (perform ses op buf req resp out).ses.line.outgoing
        = ses.line.outgoing ++ requestAdu ses.unitId op := by
  obtain ⟨events, htransact⟩ := @Sends.transact ses op buf req resp h hwrite
  unfold perform
  dsimp only
  rw [htransact, awaitResponse_outgoing h.plain, h.outgoing]

theorem perform_refused (hinit : ses.ctx.initialized = true)
    (hbroadcast : ses.unitId = rtuBroadcastAddress) (hread : Pdu.isWrite op.fc = false)
    : perform ses op buf req resp out = ⟨errArg, out, resp, ses, []⟩ := by
  unfold perform transact
  dsimp only
  rw [build_zero, if_neg (by simp [hinit]), if_pos (by simp [hbroadcast, hread])]
  rfl

theorem decode_write (hwrite : Pdu.isWrite op.fc = true) (resp : Mem UInt8) (out : Pdu.Out)
    : op.decode resp out = out := by
  cases op with
  | readBits fc addr qty hops =>
    rcases hops with rfl | rfl
    all_goals contradiction
  | readRegisters fc addr qty hops =>
    rcases hops with rfl | rfl
    all_goals contradiction
  | _ => rfl

-- Nobody answers a broadcast.
theorem Sends.broadcast (h : Sends ses op) (hbroadcast : ses.unitId = rtuBroadcastAddress)
    (hwrite : Pdu.isWrite op.fc = true)
    : (perform ses op buf req resp out).rc = ok ∧ (perform ses op buf req resp out).out = out := by
  obtain ⟨events, htransact⟩ := @Sends.transact ses op buf req resp h fun _ => hwrite
  have hok : (awaitResponse ses (op.build buf).1 resp (requestAdu ses.unitId op) (ses.behind op) events).rc
      = ok := by
    unfold awaitResponse
    rw [recvEcho_none h.plain]
    dsimp only
    rw [if_pos hbroadcast]
  unfold perform
  dsimp only
  rw [htransact, if_pos hok, decode_write hwrite]
  exact ⟨hok, rfl⟩

-- A call that nobody answers fails.
theorem Sends.unanswered (h : Sends ses op) (hunicast : ses.unitId ≠ rtuBroadcastAddress)
    (hnothing : (ses.behind op).bytes = [])
    : (perform ses op buf req resp out).rc < 0 := by
  obtain ⟨events, htransact⟩ := @Sends.transact ses op buf req resp h fun hbroadcast =>
    absurd hbroadcast hunicast
  unfold perform
  dsimp only
  rw [htransact]
  by_contra hrc
  obtain ⟨answer, later, hbytes, -⟩ :=
    awaitResponse_answer h.plain hunicast (op.slice_build buf) (Int.not_lt.mp hrc)
  rw [hnothing] at hbytes
  have hlen := congrArg List.length hbytes
  rw [List.length_append, length_withCrc, List.length_nil] at hlen
  omega

-- A call that is answered by an application is a direct call of that.
theorem Sends.answered {σ : Type} {handlers : Pdu.Handlers σ} {locals : Pdu.Locals} {s : σ}
    (h : Sends ses op) (hunicast : ses.unitId ≠ rtuBroadcastAddress)
    (htime : (responseDeadlineUs ses (ses.behind op)).2.InTime
      ((responseDeadlineUs ses (ses.behind op)).1 * 1000))
    (hbytes : (ses.behind op).bytes
      = withCrc (ses.unitId :: (Pdu.respond handlers locals op.bytes s).bytes))
    : (perform ses op buf req resp out).rc = (Pdu.directCall handlers locals op out s).rc ∧
      (perform ses op buf req resp out).out = (Pdu.directCall handlers locals op out s).out := by
  obtain ⟨events, htransact⟩ := @Sends.transact ses op buf req resp h fun hbroadcast =>
    absurd hbroadcast hunicast
  have hanswer := Pdu.respond_answers handlers locals op out s
  obtain ⟨hrc, hresp⟩ := @awaitResponse_complete ses op (op.build buf).1 resp (requestAdu ses.unitId op)
    _ [] _ (ses.behind op) events h.plain hunicast (op.slice_build buf) htime hanswer
    (by rw [hbytes, List.append_nil])
  have hdirect := @Pdu.directCall_of_answer _ handlers locals op _ out s _ hanswer hresp
  unfold perform
  dsimp only
  rw [htransact, hrc]
  refine ⟨rfl, ?_⟩
  have hout := congrArg Pdu.Result.out hdirect
  exact hout.symm

-- A call with what comes behind its request.
theorem Sends.feed (h : Sends ses op) {times : Nat → Nat} {bytes : List UInt8}
    (hstale : ∀ arrival ∈ ses.line.incoming, arrival.time ≤ ses.flushed.now)
    (hfresh : ∀ i < bytes.length, ses.flushed.now < times i)
    : let fed : Session := { ses with line := ses.line.feed times bytes }
      Sends fed op ∧ fed.behind op = (ses.behind op).feed times bytes ∧ (ses.behind op).incoming = [] := by
  obtain ⟨hflushed, hempty⟩ := flushed_feed hstale hfresh
  have hsend := sendFrame_feed ses.ctx.cfg ses.flushed (requestAdu ses.unitId op) times bytes
  have hput := sendFrame_all ses.ctx.cfg ses.flushed _ h.sent
  refine ⟨⟨h.connected, h.plain, ?_⟩, ?_, ?_⟩
  . rw [hflushed]
    change (sendFrame ses.ctx.cfg (ses.flushed.feed times bytes) (requestAdu ses.unitId op)).1 = true
    rw [hsend]
    exact h.sent
  . unfold Session.behind
    rw [hflushed]
    change (sendFrame ses.ctx.cfg (ses.flushed.feed times bytes) (requestAdu ses.unitId op)).2.1 = _
    rw [hsend]
  . unfold Session.behind
    rw [hput.incoming, hempty]

end

end Rtu.Client
