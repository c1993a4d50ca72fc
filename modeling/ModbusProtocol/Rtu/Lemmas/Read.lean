import ModbusProtocol.Pdu.Read
import ModbusProtocol.Rtu.Lemmas.Accept

/-!
This module contains the read functions of the RTU client: nothing that they return or leave behind depends
on what their buffers held before.
-/

open Modbus Posix

namespace Rtu.Client

-- The same has been received, into two buffers.
structure Received.Alike (received received' : Received) : Prop where
  rc : received.rc = received'.rc
  totalLen : received.totalLen = received'.totalLen
  line : received.line = received'.line
  adu : received.rc = 0 → received.adu = received'.adu

theorem Received.Alike.failed {rc : Int} (h : rc ≠ 0) (buf buf' : Mem UInt8) (totalLen : Nat) (line : Line)
    : Alike ⟨rc, buf, totalLen, line⟩ ⟨rc, buf', totalLen, line⟩ := by
  constructor
  . rfl
  . rfl
  . rfl
  . intro hok
    contradiction

theorem validateCrc_congr {frame frame' : Mem UInt8} {len : Nat}
    (h : frame.slice 0 len = frame'.slice 0 len)
    : validateCrc frame len = validateCrc frame' len := by
  rw [Bool.eq_iff_iff, validateCrc_iff, validateCrc_iff, h]

theorem recvRest_alike {buf buf' : Mem UInt8} {totalLen frameLen : Nat} (unitId : UInt8)
    (deadlineUs : Nat) (line : Line) (h : buf.slice 0 totalLen = buf'.slice 0 totalLen)
    (hpos : 0 < totalLen) (hle : totalLen ≤ frameLen)
    : (recvRest unitId deadlineUs buf totalLen frameLen line).Alike
        (recvRest unitId deadlineUs buf' totalLen frameLen line) := by
  have hreads := readExactTimeout_reads line (frameLen - totalLen) deadlineUs
  unfold recvRest
  generalize readExactTimeout line (frameLen - totalLen) deadlineUs = result at hreads
  obtain ⟨rc, got, line'⟩ := result
  dsimp only
  split
  . next hfail => apply Received.Alike.failed hfail
  . next hok =>
    have hgot : got.length = frameLen - totalLen := hreads.ok (not_not.mp hok)
    have hlen : frameLen = totalLen + got.length := by omega
    have hslice : (buf.write totalLen got).slice 0 frameLen = (buf'.write totalLen got).slice 0 frameLen := by
      rw [hlen, Mem.slice_write_append, Mem.slice_write_append, h]
    have hunit : buf.write totalLen got offsetUnitId = buf'.write totalLen got offsetUnitId := by
      have hsame := Mem.eq_of_slice_eq hslice 0 (by omega)
      exact hsame
    rw [validateCrc_congr hslice, hunit]
    split
    . apply Received.Alike.failed (by decide)
    . split
      . apply Received.Alike.failed (by decide)
      . constructor
        . rfl
        . rfl
        . rfl
        . intro _
          exact hslice

theorem recvBefore_alike (unitId expectedFc : UInt8) (buf buf' : Mem UInt8) (deadlineUs : Nat) (line : Line)
    : (recvBefore unitId expectedFc buf deadlineUs line).Alike
        (recvBefore unitId expectedFc buf' deadlineUs line) := by
  have hreads := readExactTimeout_reads line 2 deadlineUs
  unfold recvBefore
  generalize readExactTimeout line 2 deadlineUs = result at hreads
  obtain ⟨rc, got, line₁⟩ := result
  dsimp only
  split
  . next hfail => apply Received.Alike.failed hfail
  . next hok =>
    have hgot : got.length = 2 := hreads.ok (not_not.mp hok)
    have hslice : (buf.write 0 got).slice 0 2 = (buf'.write 0 got).slice 0 2 := by
      rw [← hgot, Mem.slice_write_same, Mem.slice_write_same]
    generalize buf.write 0 got = buf₁ at hslice
    generalize buf'.write 0 got = buf₁' at hslice
    have hfc : buf₁ offsetFc = buf₁' offsetFc := Mem.eq_of_slice_eq hslice 1 (by omega)
    rw [hfc]
    split
    . apply recvRest_alike _ _ _ hslice
      . decide
      . decide
    . split
      . apply Received.Alike.failed (by decide)
      . split
        . have hreads₁ := readExactTimeout_reads line₁ 1 deadlineUs
          generalize readExactTimeout line₁ 1 deadlineUs = result at hreads₁
          obtain ⟨rc₁, got₁, line₂⟩ := result
          dsimp only
          split
          . next hfail => apply Received.Alike.failed hfail
          . next hok₁ =>
            have hgot₁ : got₁.length = 1 := hreads₁.ok (not_not.mp hok₁)
            have hslice₁ : (buf₁.write 2 got₁).slice 0 3 = (buf₁'.write 2 got₁).slice 0 3 := by
              rw [show 3 = 2 + got₁.length by omega, Mem.slice_write_append, Mem.slice_write_append, hslice]
            generalize buf₁.write 2 got₁ = buf₂ at hslice₁
            generalize buf₁'.write 2 got₁ = buf₂' at hslice₁
            have hcount : buf₂ readByteCountOff = buf₂' readByteCountOff :=
              Mem.eq_of_slice_eq hslice₁ 2 (by omega)
            rw [hcount]
            split
            . apply Received.Alike.failed (by decide)
            . apply recvRest_alike _ _ _ hslice₁
              . decide
              . omega
        . apply recvRest_alike _ _ _ hslice
          . decide
          . decide

theorem recvResponse_alike (ses : Session) (unitId expectedFc : UInt8) (buf buf' : Mem UInt8) (line : Line)
    : (recvResponse ses unitId expectedFc buf line).Alike
        (recvResponse ses unitId expectedFc buf' line) := by
  apply recvBefore_alike

theorem recvEcho_took {ses : Session} {req : List UInt8} {line line' : Line}
    (h : recvEcho ses req line = (true, line'))
    : Line.Took line (if ses.ctx.cfg.localEcho then req else []) line' := by
  unfold recvEcho at h
  split at h
  . next hecho =>
    have hclock := responseDeadlineUs_took ses line
    generalize responseDeadlineUs ses line = deadline at hclock h
    have hreads := readExactTimeout_reads deadline.2 req.length deadline.1
    dsimp only at h
    generalize readExactTimeout deadline.2 req.length deadline.1 = received at hreads h
    injection h with hsame hline
    rw [decide_eq_true_iff] at hsame
    have htook := hclock.trans hreads.took
    rw [hsame.2, hline] at htook
    rw [if_pos hecho]
    exact htook
  . next hecho =>
    injection h with _ hline
    rw [if_neg hecho, ← hline]
    exact Line.Took.refl line

def Transacted.transaction (t : Transacted) : Transaction Session :=
  ⟨t.rc, t.resp.shift offsetPdu, t.ses, t.events⟩

-- The bytes that have come behind a request begin with the response, on a bus with a local echo behind
-- the echo of the request.
def Behind (ses : Session) (req : List UInt8) (line : Line) (answer : List UInt8) : Prop :=
  ∃ later, line.bytes
    = (if ses.ctx.cfg.localEcho then req else []) ++ withCrc (ses.unitId :: answer) ++ later

-- A transaction that fails with one return value, whatever the buffers hold.
theorem determined_failed {op : Pdu.Operation} {Accepted : Session → List UInt8 → Prop} {ses ses' : Session}
    {t : ReadBuffers → Transaction Session} {rc : Int} {events : List Event}
    (h : ∀ buffers, ∃ resp, t buffers = ⟨rc, resp, ses', events⟩) (hrc : rc ≠ 0) (harg : rc ≠ errArg)
    : Determined op Accepted errArg ses t rc [] ses' events := by
  constructor
  . intro buffers
    obtain ⟨resp, heq⟩ := h buffers
    rw [heq]
  . intro buffers
    obtain ⟨resp, heq⟩ := h buffers
    rw [heq]
  . intro buffers
    obtain ⟨resp, heq⟩ := h buffers
    rw [heq]
  . intro hok
    contradiction
  . intro hok
    contradiction
  . intro hrefused
    contradiction

theorem awaitResponse_determined {ses : Session} {op : Pdu.Operation}
    (hunicast : ses.unitId ≠ rtuBroadcastAddress) (before : Session) (req : List UInt8) (line : Line)
    (events : List Event)
    : ∃ rc answer ses', Determined op (fun _ => Behind ses req line) errArg before
        (fun buffers =>
          (awaitResponse ses (op.build buffers.pdu).1 buffers.resp req line events).transaction)
        rc answer ses' events := by
  unfold awaitResponse
  cases hecho : recvEcho ses req line with
  | mk echoed line₁ =>
  cases echoed with
  | false =>
    refine ⟨errTransport, [], busTransactionEnd ses line₁, determined_failed ?_ (by decide) (by decide)⟩
    intro buffers
    exact ⟨_, rfl⟩
  | true =>
    have htook := recvEcho_took hecho
    dsimp only
    simp only [if_neg hunicast, build_zero]
    have halike := fun resp => recvResponse_alike ses ses.unitId op.fc resp (fun _ => 0) line₁
    have haccepts := @recvResponse_accepts ses ses.unitId op.fc (fun _ => 0) line₁
    generalize recvResponse ses ses.unitId op.fc (fun _ => 0) line₁ = received at halike haccepts
    by_cases hok : received.rc = 0
    . have hfive := (haccepts hok).five_le
      have hbytes := (haccepts hok).pdu
      have hpdu : ∀ resp, ((recvResponse ses ses.unitId op.fc resp line₁).buf.shift 1).slice 0
          (received.totalLen - 1 - 2) = pduOf received.adu := by
        intro resp
        rw [pduOf_slice _ _ (by omega), ← (halike resp).totalLen]
        have hadu := (halike resp).adu ((halike resp).rc.trans hok)
        unfold Received.adu at hadu ⊢
        rw [hadu]
      have hcheck : ∀ buffers : ReadBuffers, Pdu.checkResponse (op.build buffers.pdu).1
          ((recvResponse ses ses.unitId op.fc buffers.resp line₁).buf.shift offsetPdu)
          ((recvResponse ses ses.unitId op.fc buffers.resp line₁).totalLen - offsetPdu - rtuCrcLen)
            = Pdu.check op.fc op.addr op.qty (pduOf received.adu) := by
        intro buffers
        rw [Pdu.checkResponse_eq_check _ _ _ _ _ _ (op.slice_build buffers.pdu)]
        rw [(halike buffers.resp).totalLen, hpdu]
      have hrc : ∀ resp, (recvResponse ses ses.unitId op.fc resp line₁).rc = 0 := by
        intro resp
        rw [(halike resp).rc, hok]
      simp only [hrc, hcheck, ne_eq, not_true, ite_false]
      by_cases hframe : Pdu.check op.fc op.addr op.qty (pduOf received.adu) = Pdu.errFrame
      . simp only [if_pos hframe]
        refine ⟨errFrame, [], busTransactionEnd ses received.line, determined_failed ?_ (by decide) (by decide)⟩
        intro buffers
        rw [(halike buffers.resp).line]
        exact ⟨_, rfl⟩
      . simp only [if_neg hframe]
        have hanswer := Pdu.answer_of_check op hframe
        refine ⟨Pdu.check op.fc op.addr op.qty (pduOf received.adu), pduOf received.adu,
          busTransactionEnd ses received.line, ?_⟩
        constructor
        . intro buffers
          rfl
        . intro buffers
          unfold Transacted.transaction
          dsimp only
          rw [(halike buffers.resp).line]
        . intro buffers
          rfl
        . intro _ buffers
          have hlen : (pduOf received.adu).length = received.totalLen - 1 - 2 := by
            rw [← hpdu buffers.resp, Mem.length_slice]
          rw [hlen]
          exact hpdu buffers.resp
        . intro hzero
          rw [hzero] at hanswer
          refine ⟨⟨received.line.bytes, ?_⟩, hanswer⟩
          rw [htook.bytes, hbytes, List.append_assoc]
        . intro hrefused
          exact absurd hrefused hframe
    . have hrc : ∀ resp, (recvResponse ses ses.unitId op.fc resp line₁).rc = received.rc := by
        intro resp
        exact (halike resp).rc
      obtain ⟨hneg, hne⟩ := ioErrToClientErr_neg received.rc
      simp only [hrc, ne_eq, hok, not_false_iff, ite_true]
      refine ⟨ioErrToClientErr received.rc, [], busTransactionEnd ses received.line,
        determined_failed ?_ (Int.ne_of_lt hneg) hne⟩
      intro buffers
      rw [(halike buffers.resp).line]
      exact ⟨_, rfl⟩

theorem transact_determined (ses : Session) {op : Pdu.Operation} (hread : Pdu.isRead op.fc = true)
    : ∃ rc answer ses' events, Determined op
        (fun _ => Behind ses (withCrc (ses.unitId :: op.bytes)) ses.flushed) errArg ses
        (fun buffers => (transact ses buffers.req (op.build buffers.pdu).1 (op.build buffers.pdu).2
          buffers.resp).transaction)
        rc answer ses' events := by
  unfold transact
  dsimp only
  simp only [slice_frameRequest, build_zero]
  split
  . refine ⟨errNotConnected, [], ses, [], determined_failed ?_ (by decide) (by decide)⟩
    intro buffers
    exact ⟨_, rfl⟩
  . split
    . refine ⟨errArg, [], ses, [], ?_⟩
      constructor
      . intro _
        rfl
      . intro _
        rfl
      . intro _
        rfl
      . intro hok
        contradiction
      . intro hok
        contradiction
      . intro _
        exact ⟨rfl, rfl⟩
    . next hunicast =>
      have hwrite : Pdu.isWrite op.fc = false := by
        unfold Pdu.isRead Pdu.isWrite at *
        grind
      have hunicast' : ses.unitId ≠ rtuBroadcastAddress := by
        intro hbroadcast
        exact hunicast ⟨hbroadcast, by rw [hwrite]; rfl⟩
      obtain ⟨sent, hput⟩ := sendFrame_put ses.ctx.cfg ses.flushed (withCrc (ses.unitId :: op.bytes))
      split
      . next line events hsend =>
        refine ⟨errTransport, [], busTransactionEnd ses line, events,
          determined_failed ?_ (by decide) (by decide)⟩
        intro buffers
        exact ⟨_, rfl⟩
      . next line events hsend =>
        rw [hsend] at hput
        have hbytes : line.bytes = ses.flushed.bytes := by
          unfold Line.bytes
          rw [hput.incoming]
        obtain ⟨rc, answer, ses', hdetermined⟩ :=
          awaitResponse_determined hunicast' ses (withCrc (ses.unitId :: op.bytes)) line events
        unfold Behind at hdetermined ⊢
        rw [hbytes] at hdetermined
        exact ⟨rc, answer, ses', events, hdetermined⟩

-- What a read of `qty` entries from `addr` accepts as its answer.
def AcceptedBehind (fc : UInt8) (ses : Session) (addr qty : UInt16) (_ : Session) (answer : List UInt8)
    : Prop :=
  Behind ses (withCrc (ses.unitId :: Pdu.header fc addr qty)) ses.flushed answer

-- The transaction of a read.
def readTransaction (fc : UInt8) (ses : Session) (addr qty : UInt16) (buffers : ReadBuffers)
    : Transaction Session :=
  let (pdu, pduLen) := Pdu.buildRead buffers.pdu fc addr qty
  (transact ses buffers.req pdu pduLen buffers.resp).transaction

theorem readRegisters_eq (fc : UInt8)
    : readRegisters fc = readWith errArg maxReadRegisters
        (fun qty resp out => Pdu.getRegisters resp qty out) (readTransaction fc) := by
  funext ses addr qty out buffers
  cases ses with
  | none => rfl
  | some ses =>
    cases out with
    | none => rfl
    | some out => rfl

theorem readBits_eq (fc : UInt8)
    : readBits fc = readWith errArg maxReadBits
        (fun qty resp out => Pdu.getBits resp qty out) (readTransaction fc) := by
  funext ses addr qty out buffers
  cases ses with
  | none => rfl
  | some ses =>
    cases out with
    | none => rfl
    | some out => rfl

theorem readRegisters_answers {fc : UInt8}
    (hfc : fc = funcReadHoldingRegisters ∨ fc = funcReadInputRegisters)
    : ReadsOnlyAnswers fc registerValues (AcceptedBehind fc) errArg (readRegisters fc) := by
  rw [readRegisters_eq]
  apply readWith_answers (by decide) (decodes_registers hfc)
  intro ses addr qty hpos hmax
  have hread : Pdu.isRead fc = true := by
    rcases hfc with rfl | rfl <;> rfl
  obtain ⟨rc, answer, ses', events, h⟩ :=
    @transact_determined ses (.readRegisters fc addr qty hfc hpos hmax) hread
  exact ⟨.readRegisters fc addr qty hfc hpos hmax, rc, answer, ses', events, rfl, rfl, hread, h⟩

theorem readBits_answers {fc : UInt8} (hfc : fc = funcReadCoils ∨ fc = funcReadDiscreteInputs)
    : ReadsOnlyAnswers fc bitValues (AcceptedBehind fc) errArg (readBits fc) := by
  rw [readBits_eq]
  apply readWith_answers (by decide) (decodes_bits hfc)
  intro ses addr qty hpos hmax
  have hread : Pdu.isRead fc = true := by
    rcases hfc with rfl | rfl <;> rfl
  obtain ⟨rc, answer, ses', events, h⟩ :=
    @transact_determined ses (.readBits fc addr qty hfc hpos hmax) hread
  exact ⟨.readBits fc addr qty hfc hpos hmax, rc, answer, ses', events, rfl, rfl, hread, h⟩

end Rtu.Client
