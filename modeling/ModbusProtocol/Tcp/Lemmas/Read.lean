import ModbusProtocol.Pdu.Read
import ModbusProtocol.Tcp.Lemmas.Client

/-!
This module contains the read functions of the TCP client: nothing that they return or leave behind depends
on what their buffers held before.
-/

open Modbus Posix

namespace Tcp.Client

-- The same has been received, into two buffers.
structure Received.Alike (received received' : Received) : Prop where
  rc : received.rc = received'.rc
  totalLen : received.totalLen = received'.totalLen
  line : received.line = received'.line
  whole : received.rc = 0 → 6 ≤ received.totalLen ∧
    received.buf.slice 0 received.totalLen = received'.buf.slice 0 received.totalLen

theorem Received.Alike.failed {rc : Int} (h : rc ≠ 0) (buf buf' : Mem UInt8) (totalLen : Nat) (line : Line)
    : Alike ⟨rc, buf, totalLen, line⟩ ⟨rc, buf', totalLen, line⟩ := by
  constructor
  . rfl
  . rfl
  . rfl
  . intro hok
    contradiction

theorem partial_ne {rc : Int} (h : rc ≠ 0)
    : (if rc = -2 then recvPartialTimeout else rc) ≠ 0 := by
  split
  . decide
  . exact h

theorem recvBody_alike {buf buf' : Mem UInt8} (totalLen : Nat) (line : Line)
    (h : buf.slice 0 6 = buf'.slice 0 6)
    : (recvBody buf totalLen line).Alike (recvBody buf' totalLen line) := by
  have hsame := Mem.eq_of_slice_eq h
  have hhigh : buf offsetLenHigh = buf' offsetLenHigh := hsame 4 (by omega)
  have hlow : buf offsetLenLow = buf' offsetLenLow := hsame 5 (by omega)
  unfold recvBody
  rw [hhigh, hlow]
  dsimp only
  generalize ((buf' offsetLenHigh).toUInt16 <<< 8) ||| (buf' offsetLenLow).toUInt16 = mbapRemaining
  split
  . apply Received.Alike.failed (by decide)
  . have hgot := @recvExact_ok line mbapRemaining.toNat
    generalize recvExact line mbapRemaining.toNat = result at hgot
    obtain ⟨rc, got, line'⟩ := result
    dsimp only at hgot ⊢
    split
    . next hfail => apply Received.Alike.failed (partial_ne hfail)
    . next hok =>
      have hslice : (buf.write 6 got).slice 0 (6 + mbapRemaining.toNat)
          = (buf'.write 6 got).slice 0 (6 + mbapRemaining.toNat) := by
        rw [← hgot (not_not.mp hok), Mem.slice_write_append, Mem.slice_write_append, h]
      have hprotoHigh : buf.write 6 got offsetProtoHigh = buf'.write 6 got offsetProtoHigh :=
        Mem.eq_of_slice_eq hslice 2 (by omega)
      have hprotoLow : buf.write 6 got offsetProtoLow = buf'.write 6 got offsetProtoLow :=
        Mem.eq_of_slice_eq hslice 3 (by omega)
      dsimp only [tcpMbapHeaderLen]
      rw [hprotoHigh, hprotoLow]
      split
      . apply Received.Alike.failed (by decide)
      . constructor
        . rfl
        . rfl
        . rfl
        . intro _
          exact ⟨Nat.le_add_right 6 _, hslice⟩

theorem recvResponse_alike (line : Line) (buf buf' : Mem UInt8) (deadlineMs totalLen : Nat)
    : (recvResponse line buf deadlineMs totalLen).Alike
        (recvResponse line buf' deadlineMs totalLen) := by
  unfold recvResponse
  generalize waitReadable line deadlineMs = result
  obtain ⟨rc, line₁⟩ := result
  dsimp only [tcpMbapHeaderLen]
  split
  . next hfail => apply Received.Alike.failed hfail
  . have hgot := @recvExact_ok line₁ 6
    generalize recvExact line₁ 6 = result at hgot
    obtain ⟨rc, got, line₂⟩ := result
    dsimp only at hgot ⊢
    split
    . next hfail => apply Received.Alike.failed (partial_ne hfail)
    . next hok =>
      apply recvBody_alike
      rw [← hgot (not_not.mp hok), Mem.slice_write_same, Mem.slice_write_same]

theorem Received.Alike.tidOf {received received' : Received} (h : received.Alike received')
    (hok : received.rc = 0)
    : Client.tidOf received.buf = Client.tidOf received'.buf := by
  obtain ⟨hlen, hslice⟩ := h.whole hok
  have hsame := Mem.eq_of_slice_eq hslice
  have hhigh : received.buf offsetTidHigh = received'.buf offsetTidHigh := hsame 0 (by omega)
  have hlow : received.buf offsetTidLow = received'.buf offsetTidLow := hsame 1 (by omega)
  unfold Client.tidOf
  rw [hhigh, hlow]

theorem recvLoop_alike (tid : UInt16) (deadlineMs fuel : Nat) {last last' : Received} (staleSeen : Bool)
    (hline : last.line = last'.line) (hlen : last.totalLen = last'.totalLen) (hrc : last.rc = last'.rc)
    : (recvLoop tid deadlineMs fuel last staleSeen).1.Alike
        (recvLoop tid deadlineMs fuel last' staleSeen).1 ∧
      (recvLoop tid deadlineMs fuel last staleSeen).2 = (recvLoop tid deadlineMs fuel last' staleSeen).2 := by
  induction fuel generalizing last last' staleSeen with
  | zero =>
    unfold recvLoop
    rw [hlen, hline]
    exact ⟨.failed (by decide) _ _ _ _, rfl⟩
  | succ fuel ih =>
    have halike := recvResponse_alike last.line last.buf last'.buf deadlineMs last.totalLen
    unfold recvLoop
    dsimp only
    rw [← hline, ← hlen]
    generalize recvResponse last.line last.buf deadlineMs last.totalLen = received at halike
    generalize recvResponse last.line last'.buf deadlineMs last.totalLen = received' at halike
    rw [← halike.rc]
    split
    . exact ⟨halike, rfl⟩
    . next hok =>
      rw [← halike.tidOf (not_not.mp hok)]
      split
      . exact ⟨halike, rfl⟩
      . apply ih
        . exact halike.line
        . exact halike.totalLen
        . exact halike.rc

theorem slice_pdu {buf : Mem UInt8} {len : Nat} (h : 7 ≤ len)
    : (buf.shift 7).slice 0 (len - 7) = (buf.slice 0 len).drop 7 := by
  rw [Mem.slice_shift, Mem.drop_slice _ _ _ _ h, Nat.add_comm]

-- The same comes of a transaction, whatever the buffers hold.
structure Transacted.Alike (t t' : Transacted) : Prop where
  rc : t.rc = t'.rc
  ses : t.ses = t'.ses
  events : t.events = t'.events

theorem awaitReply_alike {op : Pdu.Operation} {pdu pdu' : Mem UInt8} (ctx : ClientCtx) (tid : UInt16)
    (resp resp' : Mem UInt8) (line : Line) (events : List Event)
    (hpdu : pdu.slice 0 5 = Pdu.header op.fc op.addr op.qty)
    (hpdu' : pdu'.slice 0 5 = Pdu.header op.fc op.addr op.qty)
    : (awaitReply ctx tid pdu resp line events).Alike (awaitReply ctx tid pdu' resp' line events) := by
  unfold awaitReply
  generalize monotonicMs line = result
  obtain ⟨nowMs, line'⟩ := result
  dsimp only
  generalize nowMs + effectiveResponseTimeoutMs ctx.cfg = deadlineMs
  obtain ⟨halike, hstale⟩ := @recvLoop_alike tid deadlineMs (line'.incoming.length + 1)
    ⟨0, resp, 0, line'⟩ ⟨0, resp', 0, line'⟩ false rfl rfl rfl
  unfold recvMatching
  generalize recvLoop tid deadlineMs (line'.incoming.length + 1) ⟨0, resp, 0, line'⟩ false = result
    at halike hstale
  generalize recvLoop tid deadlineMs (line'.incoming.length + 1) ⟨0, resp', 0, line'⟩ false = result'
    at halike hstale
  obtain ⟨received, staleSeen⟩ := result
  obtain ⟨received', staleSeen'⟩ := result'
  dsimp only at halike hstale ⊢
  rw [← hstale, ← halike.rc, ← halike.totalLen, ← halike.line]
  split
  . exact ⟨rfl, rfl, rfl⟩
  . split
    . exact ⟨rfl, rfl, rfl⟩
    . next hok =>
      split
      . exact ⟨rfl, rfl, rfl⟩
      . next hlong =>
        have hlen : 7 ≤ received.totalLen := Nat.le_of_lt (Nat.lt_of_not_le hlong)
        have hslice := (halike.whole (not_not.mp hok)).2
        have hcheck : Pdu.checkResponse pdu (received.buf.shift offsetPdu) (received.totalLen - offsetPdu)
            = Pdu.checkResponse pdu' (received'.buf.shift offsetPdu) (received.totalLen - offsetPdu) := by
          rw [Pdu.checkResponse_eq_check _ _ _ _ _ _ hpdu, Pdu.checkResponse_eq_check _ _ _ _ _ _ hpdu']
          rw [slice_pdu hlen, slice_pdu hlen, hslice]
        rw [hcheck]
        split
        . exact ⟨rfl, rfl, rfl⟩
        . exact ⟨rfl, rfl, rfl⟩

-- The request ADU, whatever the local array holds.
theorem frameRequest_eq (tid : UInt16) (unitId : UInt8) (req pdu : Mem UInt8) (pduLen : Nat)
    : frameRequest tid unitId req pdu pduLen = mbapAdu (Pdu.u16Bytes tid) unitId (pdu.slice 0 pduLen) := by
  unfold frameRequest mbapAdu
  dsimp only
  rw [Mem.slice_add, Nat.zero_add]
  have hpdu : ∀ {m : Mem UInt8}, (∀ i, 7 ≤ i → m i = req.write 7 (pdu.slice 0 pduLen) i) →
      m.slice 7 pduLen = pdu.slice 0 pduLen := by
    intro m hm
    have hsame := Mem.slice_write_same req 7 (pdu.slice 0 pduLen)
    rw [Mem.length_slice] at hsame
    rw [← hsame]
    apply Mem.slice_congr
    intro i _
    apply hm
    omega
  rw [hpdu]
  . rw [Mem.length_slice]
    generalize UInt16.ofNat (1 + pduLen) = mbapLen
    simp [Mem.slice, Mem.set, Mem.write, List.range_succ, Pdu.u16Bytes]
  . intro i hi
    unfold Mem.set Mem.write
    grind

theorem transact_alike (ses : Session) (op : Pdu.Operation) (buffers buffers' : ReadBuffers)
    : (transact ses buffers.req (op.build buffers.pdu).1 (op.build buffers.pdu).2 buffers.resp).Alike
        (transact ses buffers'.req (op.build buffers'.pdu).1 (op.build buffers'.pdu).2 buffers'.resp) := by
  unfold transact
  dsimp only
  simp only [frameRequest_eq, op.slice_built]
  split
  . exact ⟨rfl, rfl, rfl⟩
  . split
    . exact ⟨rfl, rfl, rfl⟩
    . split
      . exact ⟨rfl, rfl, rfl⟩
      . apply awaitReply_alike _ _ _ _ _ _ (op.slice_build buffers.pdu) (op.slice_build buffers'.pdu)

def Transacted.transaction (t : Transacted) : Transaction Session :=
  ⟨t.rc, t.resp.shift offsetPdu, t.ses, t.events⟩

-- What a read of a session that has led to `ses'` accepts as its answer: it ends the last of the frames
-- that the call has taken from the connection, which comes under the transaction id of the call.
def AcceptedReply (ses ses' : Session) (answer : List UInt8) : Prop :=
  ∃ frames frame, ses.line.bytes = List.flatten frames ++ ses'.line.bytes ∧
    (∀ frame ∈ frames, MbapFrame frame) ∧ frames.getLast? = some frame ∧
    (frame.drop 2).take 2 = [0, 0] ∧ frame.take 2 = Pdu.u16Bytes (nextTid ses.ctx.tid) ∧
    frame.drop 7 = answer

theorem frames_eq {before after : Line} {frames frames' : List (List UInt8)}
    (h : before.bytes = frames.flatten ++ after.bytes) (h' : before.bytes = frames'.flatten ++ after.bytes)
    (hwhole : ∀ frame ∈ frames, MbapFrame frame) (hwhole' : ∀ frame ∈ frames', MbapFrame frame)
    : frames = frames' := by
  rw [h] at h'
  have hflat := List.append_cancel_right h'
  have hscan := @Framing.scan_flatten _ (mbapFraming 1) frames hwhole
  rw [hflat, @Framing.scan_flatten _ (mbapFraming 1) frames' hwhole'] at hscan
  exact (congrArg Prod.fst hscan).symm

theorem recvErrToClientErr_ne (rc : Int)
    : recvErrToClientErr rc ≠ errArg := by
  unfold recvErrToClientErr
  split
  . decide
  . split
    . decide
    . decide

theorem awaitReply_rc_ne (ctx : ClientCtx) (tid : UInt16) (pdu resp : Mem UInt8) (line : Line)
    (events : List Event)
    : (awaitReply ctx tid pdu resp line events).rc ≠ errArg := by
  unfold awaitReply
  dsimp only
  split
  . dsimp only
    decide
  . split
    . apply recvErrToClientErr_ne
    . split
      . dsimp only
        decide
      . split
        . dsimp only
          decide
        . next hframe => exact hframe

-- The checks of the arguments are not made in a transaction.
theorem transact_rc_ne (ses : Session) (req pdu : Mem UInt8) (pduLen : Nat) (resp : Mem UInt8)
    : (transact ses req pdu pduLen resp).rc ≠ errArg := by
  unfold transact
  dsimp only
  split
  . dsimp only
    decide
  . split
    . dsimp only
      decide
    . split
      . dsimp only
        decide
      . apply awaitReply_rc_ne

theorem transact_closed_rc {ses : Session} {req pdu resp : Mem UInt8} {pduLen : Nat}
    (h : ses.ctx.initialized = false ∨ ses.ctx.sock < 0)
    : (transact ses req pdu pduLen resp).rc ≠ 0 := by
  unfold transact
  split
  . dsimp only
    decide
  . next hinit =>
    cases h with
    | inl hfree => simp [hfree] at hinit
    | inr hsock =>
      rw [if_pos hsock]
      dsimp only
      decide

-- What a transaction that returns zero has found.
theorem transact_accepted {ses : Session} {op : Pdu.Operation} {req buf resp : Mem UInt8}
    (hok : (transact ses req (op.build buf).1 (op.build buf).2 resp).rc = 0)
    : ∃ frames frame,
        ses.line.bytes = List.flatten frames
          ++ (transact ses req (op.build buf).1 (op.build buf).2 resp).ses.line.bytes ∧
        (∀ frame ∈ frames, MbapFrame frame) ∧ frames.getLast? = some frame ∧
        RepliesTo op (nextTid ses.ctx.tid) frame 0 ∧
        ((transact ses req (op.build buf).1 (op.build buf).2 resp).resp.shift 7).slice 0
          (frame.drop 7).length = frame.drop 7 := by
  have hinit : ses.ctx.initialized = true := by
    apply Bool.eq_true_of_not_eq_false
    intro hfree
    exact transact_closed_rc (.inl hfree) hok
  have hsock : 0 ≤ ses.ctx.sock := by
    apply Int.not_lt.mp
    intro hclosed
    exact transact_closed_rc (.inr hclosed) hok
  have hexchanges := @transact_exchanges ses op req buf resp hinit hsock
  generalize transact ses req (op.build buf).1 (op.build buf).2 resp = t at hok hexchanges ⊢
  have hpos : 0 ≤ t.rc := by omega
  obtain ⟨frames, hbytes, hwhole, hreply⟩ := hexchanges.whole (hexchanges.isOpen hpos)
  obtain ⟨frame, hlast, hreplies, hresp⟩ := hreply hpos
  rw [hok] at hreplies
  exact ⟨frames, frame, hbytes, hwhole, hlast, hreplies, hresp⟩

theorem transact_determined (ses : Session) (op : Pdu.Operation)
    : ∃ rc answer ses' events, Determined op (AcceptedReply ses) errArg ses
        (fun buffers => (transact ses buffers.req (op.build buffers.pdu).1 (op.build buffers.pdu).2
          buffers.resp).transaction)
        rc answer ses' events := by
  generalize (⟨fun _ => 0, fun _ => 0, fun _ => 0⟩ : ReadBuffers) = zero
  have halike := fun buffers => transact_alike ses op buffers zero
  have hne := transact_rc_ne ses zero.req (op.build zero.pdu).1 (op.build zero.pdu).2 zero.resp
  by_cases hok : (transact ses zero.req (op.build zero.pdu).1 (op.build zero.pdu).2 zero.resp).rc = 0
  . obtain ⟨frames, frame, hbytes, hwhole, hlast, hreplies, _⟩ := transact_accepted hok
    refine ⟨0, frame.drop 7,
      (transact ses zero.req (op.build zero.pdu).1 (op.build zero.pdu).2 zero.resp).ses,
      (transact ses zero.req (op.build zero.pdu).1 (op.build zero.pdu).2 zero.resp).events, ?_⟩
    constructor
    . intro buffers
      exact (halike buffers).rc.trans hok
    . intro buffers
      exact (halike buffers).ses
    . intro buffers
      exact (halike buffers).events
    . intro _ buffers
      obtain ⟨frames', frame', hbytes', hwhole', hlast', _, hresp⟩ :=
        transact_accepted ((halike buffers).rc.trans hok)
      rw [(halike buffers).ses] at hbytes'
      rw [← frames_eq hbytes hbytes' hwhole hwhole', hlast] at hlast'
      rw [Option.some.inj hlast']
      exact hresp
    . intro _
      exact ⟨⟨frames, frame, hbytes, hwhole, hlast, hreplies.protocolId, hreplies.tid, rfl⟩,
        hreplies.answer⟩
    . intro hrefused
      contradiction
  . refine ⟨(transact ses zero.req (op.build zero.pdu).1 (op.build zero.pdu).2 zero.resp).rc, [],
      (transact ses zero.req (op.build zero.pdu).1 (op.build zero.pdu).2 zero.resp).ses,
      (transact ses zero.req (op.build zero.pdu).1 (op.build zero.pdu).2 zero.resp).events, ?_⟩
    constructor
    . intro buffers
      exact (halike buffers).rc
    . intro buffers
      exact (halike buffers).ses
    . intro buffers
      exact (halike buffers).events
    . intro hzero
      contradiction
    . intro hzero
      contradiction
    . intro hrefused
      contradiction

-- The transaction of a read.
def readTransaction (fc : UInt8) (ses : Session) (addr qty : UInt16) (buffers : ReadBuffers)
    : Transaction Session :=
  let (pdu, pduLen) := Pdu.buildRead buffers.pdu fc addr qty
  (transact ses buffers.req pdu pduLen buffers.resp).transaction

theorem readRegisters_eq (fc : UInt8)
    : readRegisters fc = readWith errArg maxReadRegisters
        (fun qty resp out => Pdu.getRegisters resp qty out) (readTransaction fc) := by
  funext ses addr qty out buffers
  cases ses with
  | none => rfl
  | some ses =>
    cases out with
    | none => rfl
    | some out => rfl

theorem readBits_eq (fc : UInt8)
    : readBits fc = readWith errArg maxReadBits
        (fun qty resp out => Pdu.getBits resp qty out) (readTransaction fc) := by
  funext ses addr qty out buffers
  cases ses with
  | none => rfl
  | some ses =>
    cases out with
    | none => rfl
    | some out => rfl

theorem readRegisters_answers {fc : UInt8}
    (hfc : fc = funcReadHoldingRegisters ∨ fc = funcReadInputRegisters)
    : ReadsOnlyAnswers fc registerValues (fun ses _ _ => AcceptedReply ses) errArg
        (readRegisters fc) := by
  rw [readRegisters_eq]
  apply readWith_answers (by decide) (decodes_registers hfc)
  intro ses addr qty hpos hmax
  have hread : Pdu.isRead fc = true := by
    rcases hfc with rfl | rfl <;> rfl
  obtain ⟨rc, answer, ses', events, h⟩ :=
    transact_determined ses (.readRegisters fc addr qty hfc hpos hmax)
  exact ⟨.readRegisters fc addr qty hfc hpos hmax, rc, answer, ses', events, rfl, rfl, hread, h⟩

theorem readBits_answers {fc : UInt8} (hfc : fc = funcReadCoils ∨ fc = funcReadDiscreteInputs)
    : ReadsOnlyAnswers fc bitValues (fun ses _ _ => AcceptedReply ses) errArg (readBits fc) := by
  rw [readBits_eq]
  apply readWith_answers (by decide) (decodes_bits hfc)
  intro ses addr qty hpos hmax
  have hread : Pdu.isRead fc = true := by
    rcases hfc with rfl | rfl <;> rfl
  obtain ⟨rc, answer, ses', events, h⟩ :=
    transact_determined ses (.readBits fc addr qty hfc hpos hmax)
  exact ⟨.readBits fc addr qty hfc hpos hmax, rc, answer, ses', events, rfl, rfl, hread, h⟩

end Tcp.Client
