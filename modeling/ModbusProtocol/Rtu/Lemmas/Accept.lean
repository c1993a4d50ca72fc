import ModbusProtocol.Posix.Timing
import ModbusProtocol.Rtu.Lemmas.Client

/-!
This module contains what the RTU client makes of bytes that all arrive in time: it accepts exactly the
answers to its request.
-/

open Modbus Posix

namespace Rtu.Client

theorem waitLoop_inTime {deadlineUs fuel : Nat} {line : Line}
    (h : line.InTime (deadlineUs * 1000)) (hincoming : line.incoming ≠ [])
    (hfuel : line.turns.length < fuel)
    : (waitLoop deadlineUs fuel line).1 = 0 ∧
      (waitLoop deadlineUs fuel line).2.InTime (deadlineUs * 1000) ∧
      0 < (waitLoop deadlineUs fuel line).2.arrived := by
  induction fuel generalizing line with
  | zero => omega
  | succ fuel ih =>
    have hclock := monotonicUs_took line
    have hturn : (monotonicUs line).2.InTime (deadlineUs * 1000) := h.turn
    have hnow : (monotonicUs line).1 = (monotonicUs line).2.now / 1000 := rfl
    unfold waitLoop
    dsimp only
    generalize monotonicUs line = result at hclock hturn hnow
    obtain ⟨nowUs, line₁⟩ := result
    dsimp only at hclock hturn hnow ⊢
    have hlt := hturn.now
    rw [if_neg (by omega)]
    have hincoming₁ : line₁.incoming ≠ [] := by
      rw [hclock.incoming]
      exact hincoming
    have hselect := @Line.InTime.select _ _ ((deadlineUs - nowUs) * 1000) hturn (by omega)
      hincoming₁
    have htook := Line.select_took line₁ ((deadlineUs - nowUs) * 1000)
    have hturns := @Line.select_turns line₁ ((deadlineUs - nowUs) * 1000)
    generalize line₁.select ((deadlineUs - nowUs) * 1000) = result at hselect htook hturns
    obtain ⟨woken, line₂⟩ := result
    obtain ⟨htime, ⟨hready, harrived⟩ | hintr⟩ := hselect
    . dsimp only at hready
      subst hready
      exact ⟨rfl, htime, harrived⟩
    . dsimp only at hintr
      subst hintr
      have hless := hturns rfl
      have hle := hclock.turns.length_le
      apply ih htime
      . rw [htook.incoming]
        exact hincoming₁
      . dsimp only at hless ⊢
        omega

theorem waitReadable_inTime {deadlineUs : Nat} {line : Line} (h : line.InTime (deadlineUs * 1000))
    (hincoming : line.incoming ≠ [])
    : (waitReadable line deadlineUs).1 = 0 ∧
      (waitReadable line deadlineUs).2.InTime (deadlineUs * 1000) ∧
      0 < (waitReadable line deadlineUs).2.arrived := by
  apply waitLoop_inTime h hincoming
  omega

theorem readLoop_inTime {deadlineUs fuel : Nat} {line : Line} {len : Nat}
    (h : line.InTime (deadlineUs * 1000)) (hlen : len ≤ line.bytes.length)
    (hfuel : line.effort < fuel)
    : (readLoop deadlineUs fuel line len).1 = 0 ∧
      (readLoop deadlineUs fuel line len).2.2.InTime (deadlineUs * 1000) := by
  induction fuel generalizing line len with
  | zero => omega
  | succ fuel ih =>
    unfold readLoop
    split
    . exact ⟨rfl, h⟩
    . next hzero =>
      have hincoming : line.incoming ≠ [] := by
        intro hnil
        rw [Line.bytes, hnil] at hlen
        exact hzero (Nat.le_zero.mp hlen)
      have hwait := waitReadable_took line deadlineUs
      obtain ⟨hready, htime, harrived⟩ := waitReadable_inTime h hincoming
      generalize waitReadable line deadlineUs = result at hwait hready htime harrived
      obtain ⟨ready, line₁⟩ := result
      dsimp only at hwait hready htime harrived ⊢
      rw [if_neg (by simp [hready])]
      have hbytes : line.bytes = line₁.bytes := hwait.bytes
      have heffort := hwait.effort
      rw [List.length_nil] at heffort
      rw [hbytes] at hlen
      have hread := Line.read_receives line₁ len
      obtain ⟨htime', hret⟩ := htime.read harrived hzero
      generalize line₁.read len = result at hread htime' hret
      obtain ⟨ret, line₂⟩ := result
      dsimp only at hread htime' hret
      obtain rfl | ⟨chunk, rfl⟩ := hret
      . have hless := receives_effort hread
        have hrest := (hread.other (by simp)).bytes
        rw [List.nil_append] at hrest
        rw [hrest] at hlen
        apply ih htime' hlen
        omega
      . obtain ⟨htook, hle, hne⟩ := hread.bytes
        have hpos := List.length_pos_iff.mpr hne
        have hless := htook.effort
        have hsplit := congrArg List.length htook.bytes
        rw [List.length_append] at hsplit
        apply ih htime'
        . omega
        . omega

-- What there is of the bytes asked for decides, once they all arrive in time.
theorem readExactTimeout_inTime {deadlineUs : Nat} {line : Line} {len : Nat}
    (h : line.InTime (deadlineUs * 1000)) (hlen : len ≤ line.bytes.length)
    : (readExactTimeout line len deadlineUs).1 = 0 ∧
      (readExactTimeout line len deadlineUs).2.2.InTime (deadlineUs * 1000) := by
  apply readLoop_inTime h hlen
  omega

theorem ReadsExact.got_eq {line : Line} {len : Nat} {result : Int × List UInt8 × Line}
    (h : ReadsExact line len result) (hok : result.1 = 0) {got rest : List UInt8}
    (hbytes : line.bytes = got ++ rest) (hlen : got.length = len)
    : result.2.1 = got ∧ result.2.2.bytes = rest := by
  have hsplit := h.took.bytes
  rw [hbytes] at hsplit
  have hgot := h.ok hok
  obtain ⟨hfirst, hrest⟩ := List.append_inj hsplit (by omega)
  exact ⟨hfirst.symm, hrest.symm⟩

-- What is received of an ADU that has been received whole.
structure Complete (frame : List UInt8) (received : Received) : Prop where
  rc : received.rc = 0
  adu : received.adu = frame
  totalLen : received.totalLen = frame.length

-- The rest of an ADU of which `head` has been received.
theorem recvRest_complete {unitId : UInt8} {deadlineUs totalLen frameLen : Nat} {buf : Mem UInt8}
    {line : Line} {head tail later : List UInt8} (hhead : buf.slice 0 totalLen = head)
    (h : line.InTime (deadlineUs * 1000)) (hbytes : line.bytes = tail ++ later)
    (hcrc : CrcValid (head ++ tail)) (hunit : (head ++ tail).getD 0 0 = unitId)
    (hpos : 0 < totalLen) (hframe : frameLen = (head ++ tail).length)
    : Complete (head ++ tail) (recvRest unitId deadlineUs buf totalLen frameLen line) := by
  have hlen : totalLen = head.length := by
    rw [← hhead, Mem.length_slice]
  subst hlen hframe
  have hwant : (head ++ tail).length - head.length = tail.length := by simp
  have hreads := readExactTimeout_reads line tail.length deadlineUs
  have htime := @readExactTimeout_inTime deadlineUs line tail.length h (by simp [hbytes])
  unfold recvRest
  rw [hwant]
  generalize readExactTimeout line tail.length deadlineUs = result at hreads htime
  have hgot := (hreads.got_eq htime.1 hbytes rfl).1
  obtain ⟨rc, got, line'⟩ := result
  dsimp only at htime hgot ⊢
  subst hgot
  have hadu : (buf.write head.length got).slice 0 (head ++ got).length = head ++ got := by
    rw [List.length_append]
    exact Mem.slice_received hhead
  have hvalid : validateCrc (buf.write head.length got) (head ++ got).length = true := by
    rw [validateCrc_iff, hadu]
    exact hcrc
  have hfirst : (buf.write head.length got) offsetUnitId = unitId := by
    rw [← hunit, ← hadu, Pdu.getD_slice _ _ _ (by simp; omega)]
  rw [if_neg (by simp [htime.1]), if_neg (by rw [hvalid]; decide), if_neg (by simp [hfirst])]
  exact ⟨rfl, hadu, rfl⟩

theorem le_funcReadInputRegisters {fc : UInt8} (h : Pdu.isRead fc = true)
    : fc ≤ funcReadInputRegisters := by
  unfold Pdu.isRead at h
  rw [decide_eq_true_iff] at h
  rcases h with rfl | rfl | rfl | rfl
  all_goals decide

theorem not_le_funcReadInputRegisters {fc : UInt8} (h : Pdu.isWrite fc = true)
    : ¬fc ≤ funcReadInputRegisters := by
  unfold Pdu.isWrite at h
  rw [decide_eq_true_iff] at h
  rcases h with rfl | rfl | rfl | rfl
  all_goals decide

theorem recvBefore_complete {op : Pdu.Operation} {unitId : UInt8} {answer later : List UInt8} {rc : Int}
    {deadlineUs : Nat} {line : Line} (buf : Mem UInt8) (hanswer : op.AnsweredBy answer rc)
    (h : line.InTime (deadlineUs * 1000))
    (hbytes : line.bytes = withCrc (unitId :: answer) ++ later)
    : Complete (withCrc (unitId :: answer)) (recvBefore unitId op.fc buf deadlineUs line) := by
  obtain ⟨respFc, tail, rfl⟩ : ∃ respFc tail, answer = respFc :: tail := by
    cases hanswer with
    | read data hfc hlen => exact ⟨_, _, rfl⟩
    | write hfc => exact ⟨_, _, rfl⟩
    | exception code hcode => exact ⟨_, _, rfl⟩
  obtain ⟨crc, hcrc, hadu⟩ : ∃ crc, crc.length = 2 ∧
      withCrc (unitId :: respFc :: tail) = [unitId, respFc] ++ (tail ++ crc) :=
    ⟨crcBytes (crcOf (unitId :: respFc :: tail)), rfl, rfl⟩
  have hvalid : CrcValid (withCrc (unitId :: respFc :: tail)) := ⟨_, rfl⟩
  rw [hadu] at hbytes hvalid ⊢
  rw [List.append_assoc] at hbytes
  have hreads := readExactTimeout_reads line 2 deadlineUs
  have htime := @readExactTimeout_inTime deadlineUs line 2 h (by simp [hbytes])
  unfold recvBefore
  generalize readExactTimeout line 2 deadlineUs = result at hreads htime
  obtain ⟨hgot, hrest⟩ := hreads.got_eq htime.1 hbytes rfl
  obtain ⟨rc₁, got, line₁⟩ := result
  dsimp only at htime hgot hrest ⊢
  subst hgot
  have hhead : (buf.write 0 [unitId, respFc]).slice 0 2 = [unitId, respFc] :=
    Mem.slice_write_same _ _ _
  have hfc : (buf.write 0 [unitId, respFc]) offsetFc = respFc := by
    simp [Mem.write]
  generalize buf.write 0 [unitId, respFc] = buf₁ at hhead hfc
  rw [if_neg (by simp [htime.1]), hfc]
  cases hanswer with
  | exception code hcode =>
    rw [if_pos rfl]
    apply recvRest_complete hhead htime.2 hrest hvalid rfl (by decide)
    simp [hcrc]
  | write hwrite =>
    have hne := Pdu.or_exceptionFlag_ne op.fc_supported
    rw [if_neg hne, if_neg (not_not.mpr rfl), if_neg (not_le_funcReadInputRegisters hwrite)]
    apply recvRest_complete hhead htime.2 hrest hvalid rfl (by decide)
    simp [hcrc, Pdu.u16Bytes]
  | read data hread hlen =>
    have hne := Pdu.or_exceptionFlag_ne op.fc_supported
    rw [if_neg hne, if_neg (not_not.mpr rfl), if_pos (le_funcReadInputRegisters hread)]
    have hle := op.dataLen_le hread
    have hcount : (UInt8.ofNat data.length).toNat = data.length := by
      simp
      omega
    rw [List.cons_append] at hrest
    have hreads₂ := readExactTimeout_reads line₁ 1 deadlineUs
    have htime₂ := @readExactTimeout_inTime deadlineUs line₁ 1 htime.2 (by simp [hrest])
    have hone : line₁.bytes = [UInt8.ofNat data.length] ++ (data ++ crc ++ later) := hrest
    generalize readExactTimeout line₁ 1 deadlineUs = result at hreads₂ htime₂
    obtain ⟨hgot₂, hrest₂⟩ := hreads₂.got_eq htime₂.1 hone rfl
    obtain ⟨rc₂, got₂, line₂⟩ := result
    dsimp only at htime₂ hgot₂ hrest₂ ⊢
    subst hgot₂
    have hhead₂ : (buf₁.write 2 [UInt8.ofNat data.length]).slice 0 3
        = [unitId, op.fc, UInt8.ofNat data.length] :=
      @Mem.slice_received _ buf₁ [unitId, op.fc] [UInt8.ofNat data.length] hhead
    have hcount₂ : (buf₁.write 2 [UInt8.ofNat data.length]) readByteCountOff
        = UInt8.ofNat data.length := by
      simp [Mem.write]
    generalize buf₁.write 2 [UInt8.ofNat data.length] = buf₂ at hhead₂ hcount₂
    rw [if_neg (by simp [htime₂.1]), hcount₂, hcount, if_neg (by simp; omega)]
    have hsplit : [unitId, op.fc] ++ (UInt8.ofNat data.length :: data ++ crc)
        = [unitId, op.fc, UInt8.ofNat data.length] ++ (data ++ crc) := rfl
    rw [hsplit] at hvalid ⊢
    apply recvRest_complete hhead₂ htime₂.2 hrest₂ hvalid rfl (by decide)
    simp [hcrc]
    omega

-- The length of a response as the client derives it from what it has received. It stops earlier at a
-- function code or a byte count that it does not accept.
def responseLen (fc : UInt8) (bytes : List UInt8) : Nat :=
  match bytes with
  | _ :: respFc :: rest =>
    if respFc = fc ||| exceptionFlag then
      exceptionLen
    else if respFc ≠ fc then
      2
    else if fc ≤ funcReadInputRegisters then
      match rest with
      | count :: _ =>
        let frameLen := 3 + count.toNat + rtuCrcLen
        if frameLen > rtuMaxAduLength then 3 else frameLen
      | [] => 3
    else
      writeResponseLen
  | _ => 2

-- What a receive may take from the line and write to the response buffer.
structure Within (want : Nat) (buf : Mem UInt8) (line : Line) (received : Received) : Prop where
  took : ∃ taken, Line.Took line taken received.line ∧ taken.length ≤ want
  buf : ∀ i, rtuMaxAduLength ≤ i → received.buf i = buf i

theorem ReadsExact.le {line : Line} {len : Nat} {result : Int × List UInt8 × Line}
    (h : ReadsExact line len result)
    : result.2.1.length ≤ len := by
  by_cases hok : result.1 = 0
  . exact Nat.le_of_eq (h.ok hok)
  . exact Nat.le_of_lt (h.short hok)

-- What has been received so far, with what the rest may still take.
theorem Within.received {want : Nat} {buf : Mem UInt8} {line line' : Line} {got : List UInt8}
    {off : Nat} {received : Received} (htook : Line.Took line got line')
    (hoff : off + got.length ≤ rtuMaxAduLength) (hle : got.length ≤ want)
    (h : Within (want - got.length) (buf.write off got) line' received)
    : Within want buf line received := by
  obtain ⟨taken, htaken, hlen⟩ := h.took
  constructor
  . refine ⟨got ++ taken, htook.trans htaken, ?_⟩
    rw [List.length_append]
    omega
  . intro i hi
    rw [h.buf i hi]
    apply Mem.write_of_ge
    omega

theorem Within.stopped {want : Nat} {buf : Mem UInt8} {line : Line} (rc : Int) (totalLen : Nat)
    : Within want buf line ⟨rc, buf, totalLen, line⟩ := by
  constructor
  . exact ⟨[], Line.Took.refl line, by simp⟩
  . intro i _
    rfl

theorem recvRest_within (unitId : UInt8) (deadlineUs : Nat) (buf : Mem UInt8) {totalLen frameLen : Nat}
    (line : Line) (hle : totalLen ≤ frameLen) (hmax : frameLen ≤ rtuMaxAduLength)
    : Within (frameLen - totalLen) buf line (recvRest unitId deadlineUs buf totalLen frameLen line) := by
  have hreads := readExactTimeout_reads line (frameLen - totalLen) deadlineUs
  unfold recvRest
  generalize readExactTimeout line (frameLen - totalLen) deadlineUs = result at hreads
  have hgot := hreads.le
  obtain ⟨rc, got, line'⟩ := result
  dsimp only at hgot ⊢
  apply @Within.received _ _ _ _ got totalLen _ hreads.took (by omega) hgot
  split
  . apply Within.stopped
  . split
    . apply Within.stopped
    . split
      . apply Within.stopped
      . apply Within.stopped

theorem two_le_responseLen (fc : UInt8) (bytes : List UInt8)
    : 2 ≤ responseLen fc bytes := by
  unfold responseLen
  split
  . split
    . simp
    . split
      . simp
      . split
        . split
          . dsimp only
            split
            . omega
            . omega
          . omega
        . simp
  . omega

theorem recvBefore_within (unitId fc : UInt8) (buf : Mem UInt8) (deadlineUs : Nat) (line : Line)
    : Within (responseLen fc line.bytes) buf line (recvBefore unitId fc buf deadlineUs line) := by
  have htwo := two_le_responseLen fc line.bytes
  have hreads := readExactTimeout_reads line 2 deadlineUs
  unfold recvBefore
  generalize readExactTimeout line 2 deadlineUs = result at hreads
  have hgot := hreads.le
  obtain ⟨rc, got, line₁⟩ := result
  dsimp only at hgot ⊢
  apply @Within.received _ _ _ _ got 0 _ hreads.took (by simp; omega) (by omega)
  split
  . apply Within.stopped
  . next hok =>
    have hlen : got.length = 2 := hreads.ok (not_not.mp hok)
    obtain ⟨first, respFc, rfl⟩ := List.length_eq_two.mp hlen
    have hbytes : line.bytes = first :: respFc :: line₁.bytes := hreads.took.bytes
    have hfc : (buf.write 0 [first, respFc]) offsetFc = respFc := by
      simp [Mem.write]
    generalize buf.write 0 [first, respFc] = buf₁ at hfc
    rw [hfc, hbytes]
    unfold responseLen
    dsimp only [List.length_cons, List.length_nil]
    split
    . apply recvRest_within
      . decide
      . decide
    . split
      . apply Within.stopped
      . split
        . have hreads₁ := readExactTimeout_reads line₁ 1 deadlineUs
          generalize readExactTimeout line₁ 1 deadlineUs = result at hreads₁
          have hgot₁ := hreads₁.le
          obtain ⟨rc₁, got₁, line₂⟩ := result
          dsimp only at hgot₁ ⊢
          have hwant : 1 ≤ (match line₁.bytes with
              | count :: _ =>
                if 3 + count.toNat + rtuCrcLen > rtuMaxAduLength then 3
                else 3 + count.toNat + rtuCrcLen
              | [] => 3) - 2 := by
            split
            . split
              . decide
              . omega
            . decide
          apply @Within.received _ _ _ _ got₁ 2 _ hreads₁.took (by simp; omega) (by omega)
          by_cases hok₁ : rc₁ ≠ 0
          . rw [if_pos hok₁]
            apply Within.stopped
          . have hlen₁ : got₁.length = 1 := hreads₁.ok (not_not.mp hok₁)
            obtain ⟨count, rfl⟩ := List.length_eq_one_iff.mp hlen₁
            have hbytes₁ : line₁.bytes = count :: line₂.bytes := hreads₁.took.bytes
            have hcount : (buf₁.write 2 [count]) readByteCountOff = count := by
              simp [Mem.write]
            rw [if_neg hok₁, hcount, hbytes₁]
            dsimp only [List.length_cons, List.length_nil]
            split
            . apply Within.stopped
            . rw [Nat.sub_sub]
              apply recvRest_within
              . omega
              . omega
        . apply recvRest_within
          . decide
          . decide

-- The request ADU, whatever the local array holds.
theorem frameRequest_eq (unitId : UInt8) (req pdu : Mem UInt8) (pduLen : Nat)
    (h : pduLen ≤ maxPduLength)
    : (frameRequest unitId req pdu pduLen).1.slice 0 (frameRequest unitId req pdu pduLen).2
        =
      withCrc (unitId :: pdu.slice 0 pduLen) := by
  have hreq : (req.set 0 unitId).write 1 (pdu.slice 0 pduLen)
      = req.write 0 (unitId :: pdu.slice 0 pduLen) := by
    rw [Mem.set_eq_write, Mem.write_write _ _ _ (by rfl)]
    rfl
  have hlen : 1 + pduLen = (unitId :: pdu.slice 0 pduLen).length := by
    rw [List.length_cons, Mem.length_slice, Nat.add_comm]
  have hframe : 1 + pduLen + 2 = (withCrc (unitId :: pdu.slice 0 pduLen)).length := by
    rw [hlen]
    simp [withCrc, crcBytes]
  unfold frameRequest
  dsimp only [offsetUnitId, offsetPdu, rtuCrcLen, rtuMaxAduLength]
  rw [hframe, hreq, hlen, appendCrc_write, Option.getD_some]
  . apply Mem.slice_write_same
  . rw [← hlen]
    change pduLen ≤ 253 at h
    omega

theorem slice_frameRequest (unitId : UInt8) (op : Pdu.Operation) (req buf : Mem UInt8)
    : (frameRequest unitId req (op.build buf).1 (op.build buf).2).1.slice 0
        (frameRequest unitId req (op.build buf).1 (op.build buf).2).2
        =
      withCrc (unitId :: op.bytes) := by
  rw [op.build_eq_write, frameRequest_eq _ _ _ _ op.length_bytes_le]
  rw [Mem.slice_write_same]

-- What the client has received behind a request it has sent.
theorem awaitResponse_unicast {ses : Session} {pdu resp : Mem UInt8} {req : List UInt8} {line : Line}
    {events : List Event} (hecho : ses.ctx.cfg.localEcho = false)
    (hunicast : ses.unitId ≠ rtuBroadcastAddress)
    : awaitResponse ses pdu resp req line events
        =
      let received := recvResponse ses ses.unitId (pdu 0) resp line
      let ses := busTransactionEnd ses received.line
      if received.rc ≠ 0 then
        ⟨ioErrToClientErr received.rc, received.buf, ses, events⟩
      else
        let rc := Pdu.checkResponse pdu (received.buf.shift offsetPdu)
          (received.totalLen - offsetPdu - rtuCrcLen)
        if rc = Pdu.errFrame then
          ⟨errFrame, received.buf, ses, events⟩
        else
          ⟨rc, received.buf, ses, events⟩ := by
  unfold awaitResponse
  rw [recvEcho_none hecho]
  dsimp only
  rw [if_neg hunicast]

theorem transact_sent {ses : Session} {op : Pdu.Operation} {req buf resp : Mem UInt8} {line : Line}
    {events : List Event} (hinit : ses.ctx.initialized = true)
    (hunicast : ses.unitId ≠ rtuBroadcastAddress)
    (hsend : sendFrame ses.ctx.cfg ses.flushed (withCrc (ses.unitId :: op.bytes))
      = (true, line, events))
    : transact ses req (op.build buf).1 (op.build buf).2 resp
        =
      awaitResponse ses (op.build buf).1 resp (withCrc (ses.unitId :: op.bytes)) line events := by
  unfold transact
  dsimp only
  rw [slice_frameRequest, hsend, if_neg (by simp [hinit]), if_neg (by simp [hunicast])]

theorem build_zero (op : Pdu.Operation) (buf : Mem UInt8)
    : (op.build buf).1 0 = op.fc := by
  have hheader := op.slice_build buf
  rw [Mem.slice_succ] at hheader
  injection hheader

theorem recvResponse_within (ses : Session) (fc : UInt8) (buf : Mem UInt8) (line : Line)
    : Within (responseLen fc line.bytes) buf line (recvResponse ses ses.unitId fc buf line) := by
  have hclock := responseDeadlineUs_took ses line
  unfold recvResponse
  generalize responseDeadlineUs ses line = deadline at hclock
  have hwithin := recvBefore_within ses.unitId fc buf deadline.1 deadline.2
  have hbytes : line.bytes = deadline.2.bytes := hclock.bytes
  rw [← hbytes] at hwithin
  obtain ⟨taken, htaken, hle⟩ := hwithin.took
  constructor
  . exact ⟨taken, hclock.trans htaken, hle⟩
  . exact hwithin.buf

theorem busTransactionEnd_took (ses : Session) (line : Line)
    : Line.Took line [] (busTransactionEnd ses line).line := by
  apply Line.turn_took

theorem awaitResponse_within {ses : Session} {pdu resp : Mem UInt8} {req : List UInt8} {line : Line}
    {events : List Event} (hecho : ses.ctx.cfg.localEcho = false)
    (hunicast : ses.unitId ≠ rtuBroadcastAddress)
    : (∃ taken, Line.Took line taken (awaitResponse ses pdu resp req line events).ses.line ∧
        taken.length ≤ responseLen (pdu 0) line.bytes) ∧
      ∀ i, rtuMaxAduLength ≤ i → (awaitResponse ses pdu resp req line events).resp i = resp i := by
  have hwithin := recvResponse_within ses (pdu 0) resp line
  rw [awaitResponse_unicast hecho hunicast]
  generalize recvResponse ses ses.unitId (pdu 0) resp line = received at hwithin
  obtain ⟨taken, htaken, hle⟩ := hwithin.took
  have hend := htaken.trans (busTransactionEnd_took ses received.line)
  rw [List.append_nil] at hend
  dsimp only
  split
  . exact ⟨⟨taken, hend, hle⟩, hwithin.buf⟩
  . split
    . exact ⟨⟨taken, hend, hle⟩, hwithin.buf⟩
    . exact ⟨⟨taken, hend, hle⟩, hwithin.buf⟩

theorem awaitResponse_complete {ses : Session} {op : Pdu.Operation} {pdu resp : Mem UInt8}
    {req answer later : List UInt8} {rc : Int} {line : Line} {events : List Event}
    (hecho : ses.ctx.cfg.localEcho = false) (hunicast : ses.unitId ≠ rtuBroadcastAddress)
    (hpdu : pdu.slice 0 5 = Pdu.header op.fc op.addr op.qty)
    (htime : (responseDeadlineUs ses line).2.InTime ((responseDeadlineUs ses line).1 * 1000))
    (hanswer : op.AnsweredBy answer rc)
    (hbytes : line.bytes = withCrc (ses.unitId :: answer) ++ later)
    : (awaitResponse ses pdu resp req line events).rc = rc ∧
      ((awaitResponse ses pdu resp req line events).resp.shift offsetPdu).slice 0 answer.length
        = answer := by
  have hfc : pdu 0 = op.fc := by
    rw [Mem.slice_succ] at hpdu
    injection hpdu
  have hclock := responseDeadlineUs_took ses line
  have hlater : (responseDeadlineUs ses line).2.bytes = withCrc (ses.unitId :: answer) ++ later :=
    hclock.bytes.symm.trans hbytes
  have hcomplete : Complete (withCrc (ses.unitId :: answer))
      (recvResponse ses ses.unitId op.fc resp line) :=
    recvBefore_complete resp hanswer htime hlater
  rw [awaitResponse_unicast hecho hunicast, hfc]
  generalize recvResponse ses ses.unitId op.fc resp line = received at hcomplete
  have htotal := hcomplete.totalLen
  rw [length_withCrc, List.length_cons] at htotal
  have hslice : (received.buf.shift 1).slice 0 (received.totalLen - 1 - 2) = answer := by
    rw [pduOf_slice _ _ (by omega)]
    have hadu := hcomplete.adu
    unfold Received.adu at hadu
    rw [hadu, pduOf_withCrc]
  have hcheck := Pdu.checkResponse_eq_check pdu (received.buf.shift 1) (received.totalLen - 1 - 2)
    op.fc op.addr op.qty hpdu
  rw [hslice, hanswer.check] at hcheck
  have hlen : received.totalLen - 1 - 2 = answer.length := by omega
  have hne : rc ≠ Pdu.errFrame := by
    obtain ⟨hrc, -⟩ | ⟨code, -, hrc, -⟩ := hanswer.shape
    . rw [hrc]
      decide
    . rw [hrc]
      simp
  dsimp only [offsetPdu, rtuCrcLen]
  rw [if_neg (by simp [hcomplete.rc]), hcheck, if_neg hne]
  rw [hlen] at hslice
  exact ⟨rfl, hslice⟩

-- What a call of the API makes of the bytes that follow its request: `line` is the port behind the sent
-- request.
structure AcceptsMatching (ses : Session) (op : Pdu.Operation) (resp : Mem UInt8) (out : Pdu.Out)
    (line : Line) (result : Performed) : Prop where
  ok : result.rc = 0 ↔
    ∃ answer, op.AnsweredBy answer 0 ∧ withCrc (ses.unitId :: answer) <+: line.bytes
  decoded : ∀ answer, op.AnsweredBy answer 0 → withCrc (ses.unitId :: answer) <+: line.bytes →
    result.out = op.decode (answer.getD · 0) out
  exception : ∀ code : UInt8, code ≠ 0 →
    (result.rc = code.toNat ↔
      withCrc [ses.unitId, op.fc ||| exceptionFlag, code] <+: line.bytes)
  otherwise : result.rc < 0 ∨ result.rc = 0 ∨ ∃ code : UInt8, code ≠ 0 ∧ result.rc = code.toNat
  taken : ∃ taken, Line.Took line taken result.ses.line ∧
    taken.length ≤ responseLen op.fc line.bytes
  buffer : ∀ i, rtuMaxAduLength ≤ i → result.resp i = resp i

theorem code_ne_zero {code : UInt8} (h : code ≠ 0)
    : ¬(code.toNat : Int) = 0 := by
  intro hzero
  apply h
  apply UInt8.toNat_inj.mp
  simpa using hzero

theorem slice_answer (answer : List UInt8)
    : Mem.slice (answer.getD · 0) 0 answer.length = answer := by
  apply List.ext_getElem
  . simp
  . intro i h1 h2
    simp [Mem.getElem_slice, h2]

-- What is accepted begins with an answer, and every answer that the bytes begin with is accepted.
theorem acceptsMatching_of {ses : Session} {op : Pdu.Operation} {resp : Mem UInt8} (out : Pdu.Out)
    {line : Line} {result : Transacted}
    (hsound : 0 ≤ result.rc → ∃ answer later,
      line.bytes = withCrc (ses.unitId :: answer) ++ later ∧ op.AnsweredBy answer result.rc)
    (hcomplete : ∀ answer rc, op.AnsweredBy answer rc →
      withCrc (ses.unitId :: answer) <+: line.bytes →
      result.rc = rc ∧ (result.resp.shift offsetPdu).slice 0 answer.length = answer)
    (hwithin : (∃ taken, Line.Took line taken result.ses.line ∧
        taken.length ≤ responseLen op.fc line.bytes) ∧
      ∀ i, rtuMaxAduLength ≤ i → result.resp i = resp i)
    : AcceptsMatching ses op resp out line
        ⟨result.rc, if result.rc = ok then op.decode (result.resp.shift offsetPdu) out else out,
          result.resp, result.ses, result.events⟩ := by
  constructor
  . constructor
    . intro hok
      dsimp only at hok
      obtain ⟨answer, later, hbytes, hanswer⟩ := hsound (by omega)
      rw [hok] at hanswer
      exact ⟨answer, hanswer, later, hbytes.symm⟩
    . intro ⟨answer, hanswer, hprefix⟩
      exact (hcomplete answer 0 hanswer hprefix).1
  . intro answer hanswer hprefix
    obtain ⟨hrc, hresp⟩ := hcomplete answer 0 hanswer hprefix
    dsimp only
    rw [if_pos hrc]
    apply op.decode_congr
    obtain ⟨-, -, hlen⟩ | ⟨code, hcode, hzero, -⟩ := hanswer.shape
    . rw [← hlen, hresp, slice_answer]
    . exact absurd hzero.symm (code_ne_zero hcode)
  . intro code hcode
    constructor
    . intro hrc
      dsimp only at hrc
      obtain ⟨answer, later, hbytes, hanswer⟩ := hsound (by omega)
      obtain ⟨hzero, -⟩ | ⟨code', -, hrc', rfl⟩ := hanswer.shape
      . exact absurd (hrc.symm.trans hzero) (code_ne_zero hcode)
      . have heq : code' = code := by
          apply UInt8.toNat_inj.mp
          omega
        subst heq
        exact ⟨later, hbytes.symm⟩
    . intro hprefix
      exact (hcomplete _ _ (.exception code hcode) hprefix).1
  . by_cases hneg : result.rc < 0
    . exact .inl hneg
    . obtain ⟨answer, later, hbytes, hanswer⟩ := hsound (by omega)
      obtain ⟨hzero, -⟩ | ⟨code, hcode, hrc, -⟩ := hanswer.shape
      . exact .inr (.inl hzero)
      . exact .inr (.inr ⟨code, hcode, hrc⟩)
  . exact hwithin.1
  . exact hwithin.2

-- A call accepts exactly the answers to its request, once everything arrives in time.
theorem perform_accepts {ses : Session} {op : Pdu.Operation} {buf req resp : Mem UInt8}
    {out : Pdu.Out} {line : Line} {events : List Event} (hinit : ses.ctx.initialized = true)
    (hecho : ses.ctx.cfg.localEcho = false) (hunicast : ses.unitId ≠ rtuBroadcastAddress)
    (hsend : sendFrame ses.ctx.cfg ses.flushed (withCrc (ses.unitId :: op.bytes))
      = (true, line, events))
    (htime : (responseDeadlineUs ses line).2.InTime ((responseDeadlineUs ses line).1 * 1000))
    : AcceptsMatching ses op resp out line (perform ses op buf req resp out) := by
  have hpdu := op.slice_build buf
  unfold perform
  dsimp only
  rw [transact_sent hinit hunicast hsend]
  apply acceptsMatching_of
  . intro hrc
    apply awaitResponse_answer hecho hunicast hpdu hrc
  . intro answer rc hanswer ⟨later, hbytes⟩
    apply awaitResponse_complete hecho hunicast hpdu htime hanswer hbytes.symm
  . rw [← build_zero op buf]
    apply awaitResponse_within hecho hunicast

theorem perform_accepts_register
    : (perform (receiving (withCrc [0x11, 0x03, 0x02, 0x12, 0x34])) readOne (fun _ => 0)
        (fun _ => 0) (fun _ => 0) ⟨fun _ => 0, fun _ => 0⟩).rc = 0 := by
  have haccepts : AcceptsMatching (receiving (withCrc [0x11, 0x03, 0x02, 0x12, 0x34])) readOne
      (fun _ => 0) ⟨fun _ => 0, fun _ => 0⟩
      ⟨0, (withCrc [0x11, 0x03, 0x02, 0x12, 0x34]).map (⟨1000000, ·⟩),
        withCrc [0x11, 0x03, 0, 0, 0, 1], [], none⟩
      (perform (receiving (withCrc [0x11, 0x03, 0x02, 0x12, 0x34])) readOne (fun _ => 0)
        (fun _ => 0) (fun _ => 0) ⟨fun _ => 0, fun _ => 0⟩) := by
    apply perform_accepts rfl rfl
    . decide
    . rfl
    . constructor
      . decide
      . decide +kernel
      . decide +kernel
  apply haccepts.ok.mpr
  exact ⟨[0x03, 0x02, 0x12, 0x34], .read [0x12, 0x34] rfl rfl, [], by decide +kernel⟩

end Rtu.Client
