import ModbusProtocol.Pdu.Lemmas.Direct
import ModbusProtocol.Posix.Wire
import ModbusProtocol.Tcp.Lemmas.Deadline
import ModbusProtocol.Tcp.Lemmas.Frame
import ModbusProtocol.Tcp.Lemmas.Server

/-!
This module contains what the two ends of a connection write: a client its request or a part of it, the server
its reply or a part of it.
-/

open Modbus Posix

namespace Tcp

namespace Client

def Session.Open (ses : Session) : Prop :=
  ses.ctx.initialized = true ∧ 0 ≤ ses.ctx.sock

instance (ses : Session) : Decidable ses.Open := by
  unfold Session.Open
  infer_instance

-- The request that a call on this session would send.
def Call.adu (call : Call) (ses : Session) : List UInt8 :=
  mbapAdu (Pdu.u16Bytes (nextTid ses.ctx.tid)) (call.ready ses).ctx.cfg.unitId call.op.bytes

theorem ready_open (call : Call) (ses : Session)
    : (call.ready ses).Open ↔ ses.Open := by
  have hctx := ready_ctx call ses
  unfold Session.Open
  rw [hctx.1, hctx.2.1]

theorem ready_outgoing (call : Call) (ses : Session)
    : (call.ready ses).line.outgoing = ses.line.outgoing := by
  rfl

theorem make_out {call : Call} {ses : Session} (h : (call.make ses).rc ≠ ok)
    : (call.make ses).out = call.out := by
  unfold Call.make perform at h ⊢
  dsimp only at h ⊢
  rw [if_neg h]

theorem make_shut {call : Call} {ses : Session} (h : ¬ses.Open)
    : (call.make ses).rc = errNotConnected ∧ (call.make ses).ses = call.ready ses := by
  rw [← ready_open call] at h
  unfold Session.Open at h
  unfold Call.make perform transact
  dsimp only
  split
  . exact ⟨rfl, rfl⟩
  . next hinit =>
    rw [Bool.not_eq_true, Bool.not_eq_false'] at hinit
    rw [if_pos]
    . exact ⟨rfl, rfl⟩
    . rw [not_and, Int.not_le] at h
      exact h hinit

-- A call leaves the settings of the client as they are, its unit id among them.
theorem make_cfg (call : Call) (ses : Session)
    : (call.make ses).ses.ctx.cfg = (call.ready ses).ctx.cfg := by
  unfold Call.make perform transact
  dsimp only
  split
  . rfl
  . split
    . rfl
    . split
      . rfl
      . unfold awaitReply
        dsimp only
        split
        . rfl
        . split
          . rfl
          . split
            . rfl
            . split
              . rfl
              . rfl

theorem awaitReply_took (ctx : ClientCtx) (tid : UInt16) (pdu resp : Mem UInt8) (line : Line)
    (events : List Event)
    : ∃ chunk, Line.Took line chunk (awaitReply ctx tid pdu resp line events).ses.line := by
  have hclock := monotonicMs_took line
  rw [awaitReply_line]
  generalize (monotonicMs line).1 + effectiveResponseTimeoutMs ctx.cfg = deadlineMs
  generalize (monotonicMs line).2 = line' at hclock
  obtain ⟨chunk, hchunk⟩ := (recvLoop_consumes tid deadlineMs (line'.incoming.length + 1)
    ⟨0, resp, 0, line'⟩ false).took
  exact ⟨_, hclock.trans hchunk⟩

theorem frameRequest_adu (call : Call) (ses : Session)
    : frameRequest (nextTid (call.ready ses).ctx.tid) (call.ready ses).ctx.cfg.unitId call.req
        (call.op.build call.buf).1 (call.op.build call.buf).2
        = call.adu ses := by
  unfold Call.adu
  rw [frameRequest_eq, call.op.slice_built, (ready_ctx call ses).2.2]

-- What a call writes to its connection is its request or a part of it.
theorem make_outgoing (call : Call) {ses : Session} (h : ses.Open)
    : ∃ sent, (call.make ses).ses.line.outgoing = ses.line.outgoing ++ sent ∧ sent <+: call.adu ses ∧
      ((sendAll (call.ready ses).line (call.adu ses)).1 = true → sent = call.adu ses) := by
  rw [← ready_open call] at h
  obtain ⟨sent, hput, hpart, hall⟩ := Line.writeAll_put false (call.ready ses).line (call.adu ses)
  refine ⟨sent, ?_, hpart, hall⟩
  change _ = (call.ready ses).line.outgoing ++ sent
  unfold Call.make perform transact
  dsimp only
  rw [if_neg (by simp [h.1]), if_neg (by have := h.2; omega), frameRequest_adu]
  unfold sendAll
  split
  . next heq =>
    rw [heq] at hput
    apply hput.outgoing
  . next heq =>
    rw [heq] at hput
    obtain ⟨chunk, htook⟩ := awaitReply_took _ _ _ _ _ _
    rw [htook.outgoing, hput.outgoing]

end Client

variable {σ : Type}

theorem processFrame_wrote (cfg : ServerConfig σ) (stack : Stack σ) (srv : Server σ) (adu : Mem UInt8)
    (mbapRemaining : Nat)
    : ∃ sent, Line.Put srv.line sent (processFrame cfg stack srv adu mbapRemaining).server.line ∧
      sent <+: transmitted (processFrame cfg stack srv adu mbapRemaining).events := by
  have hnone := Line.Put.refl srv.line
  unfold processFrame
  dsimp only
  split
  . exact ⟨[], hnone, List.nil_prefix⟩
  . split
    . exact ⟨[], hnone, List.nil_prefix⟩
    . generalize Pdu.handleRequest _ _ _ _ _ _ = out
      generalize Mem.slice _ _ _ = resp
      obtain ⟨sent, hput, hpart, -⟩ := Line.writeAll_put false srv.line resp
      unfold sendAll
      split
      . next heq =>
        rw [heq] at hput
        refine ⟨sent, hput, ?_⟩
        rwa [transmitted_served]
      . next heq =>
        rw [heq] at hput
        refine ⟨sent, hput, ?_⟩
        rwa [transmitted_served]

theorem recvExact_took {line line' : Line} {buf buf' : Mem UInt8} {len : Nat} {whole : Bool}
    (h : recvExact line buf len = (whole, buf', line'))
    : ∃ chunk, Line.Took line chunk line' := by
  have htook := (Line.recvAll_receives line len).took
  have hline : (recvExact line buf len).2.2 = line' := by
    rw [h]
  rw [← hline]
  exact ⟨_, htook⟩

-- Whatever happens on the connection, what a call of `server_on_process` writes is its reply or a part of it.
theorem serverOnProcess_wrote (cfg : ServerConfig σ) (stack : Stack σ) (srv : Server σ)
    : srv.line.written (serverOnProcess cfg stack srv).server.line
        <+: transmitted (serverOnProcess cfg stack srv).events := by
  unfold serverOnProcess
  split
  . next heq =>
    obtain ⟨header, hheader⟩ := recvExact_took heq
    rw [hheader.written]
    apply List.nil_prefix
  . next adu line heq =>
    obtain ⟨header, hheader⟩ := recvExact_took heq
    dsimp only
    split
    . rw [hheader.written]
      apply List.nil_prefix
    . split
      . next heq' =>
        obtain ⟨body, hbody⟩ := recvExact_took heq'
        rw [(hheader.trans hbody).written]
        apply List.nil_prefix
      . next line' heq' =>
        obtain ⟨body, hbody⟩ := recvExact_took heq'
        generalize Mem.splice _ _ _ = adu
        generalize UInt16.toNat _ = mbapRemaining
        obtain ⟨sent, hput, hpart⟩ := processFrame_wrote cfg stack ⟨srv.state, line'⟩ adu mbapRemaining
        rw [(hheader.trans hbody).written_put hput]
        exact hpart

theorem serveFrame_refused {cfg : ServerConfig σ} {tid : List UInt8} {unitId : UInt8}
    (htid : tid.length = 2) (hrefused : ¬cfg.accepts unitId) (locals : σ → Pdu.Locals) (pdu : List UInt8)
    (s : σ)
    : serveFrame cfg locals (mbapAdu tid unitId pdu) s = (s, [.frame (mbapAdu tid unitId pdu)]) := by
  obtain ⟨a, b, rfl⟩ := List.length_eq_two.mp htid
  unfold serveFrame
  dsimp only
  rw [if_neg]
  intro haccepts
  exact hrefused haccepts.2

-- A server with one register.
def registerConfig : ServerConfig UInt16 where
  unitId := 1
  handlers := {
    readRegisters := some fun _ _ _ _ s => ⟨0, fun _ => s, s⟩
    writeRegisters := some fun _ _ data _ => ⟨0, data.headD 0⟩
    readBits := none
    writeBits := none }

end Tcp
