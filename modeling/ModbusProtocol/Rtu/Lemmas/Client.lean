import ModbusProtocol.Pdu.Lemmas.Response
import ModbusProtocol.Posix.Lemmas
import ModbusProtocol.Rtu.Impl.Client
import ModbusProtocol.Rtu.Lemmas.Request

/-!
This module contains what the RTU client accepts: a transaction that does not fail has received an answer
to its request at the head of what was left to be read.
-/

open Modbus Posix

namespace Rtu.Client

theorem monotonicUs_took (line : Line)
    : Line.Took line [] (monotonicUs line).2 := by
  apply Line.turn_took

theorem responseDeadlineUs_took (ses : Session) (line : Line)
    : Line.Took line [] (responseDeadlineUs ses line).2 := by
  have hclock := monotonicUs_took line
  unfold responseDeadlineUs
  generalize monotonicUs line = result at hclock
  obtain ⟨nowUs, line'⟩ := result
  exact hclock

theorem waitLoop_took (deadlineUs fuel : Nat) (line : Line)
    : Line.Took line [] (waitLoop deadlineUs fuel line).2 := by
  induction fuel generalizing line with
  | zero => apply Line.Took.refl
  | succ fuel ih =>
    have hclock := monotonicUs_took line
    unfold waitLoop
    dsimp only
    split
    . exact hclock
    . have hselect := hclock.trans (Line.select_took (monotonicUs line).2
        ((deadlineUs - (monotonicUs line).1) * 1000))
      generalize (monotonicUs line).2.select _ = result at hselect
      obtain ⟨woken, line'⟩ := result
      cases woken with
      | ready => exact hselect
      | timeout => exact hselect
      | intr => exact hselect.trans (ih line')
      | error => exact hselect

-- The wait does not depend on its fuel once there is enough of it.
theorem waitLoop_fuel (deadlineUs : Nat) {fuel fuel' : Nat} {line : Line}
    (hfuel : line.turns.length < fuel) (hfuel' : line.turns.length < fuel')
    : waitLoop deadlineUs fuel line = waitLoop deadlineUs fuel' line := by
  induction fuel generalizing fuel' line with
  | zero => omega
  | succ fuel ih =>
    obtain ⟨fuel', rfl⟩ : ∃ n, fuel' = n + 1 := Nat.exists_eq_succ_of_ne_zero (by omega)
    have hclock := (monotonicUs_took line).turns.length_le
    unfold waitLoop
    dsimp only
    split
    . rfl
    . have hselect := @Line.select_turns (monotonicUs line).2 ((deadlineUs - (monotonicUs line).1) * 1000)
      generalize (monotonicUs line).2.select _ = result at hselect
      obtain ⟨woken, line'⟩ := result
      cases woken with
      | intr =>
        have hlt := hselect rfl
        dsimp only at hlt
        apply ih
        . omega
        . omega
      | _ => rfl

theorem waitReadable_took (line : Line) (deadlineUs : Nat)
    : Line.Took line [] (waitReadable line deadlineUs).2 := by
  apply waitLoop_took

-- What `read_exact_timeout` may leave, whatever happens: what it has received is gone from the line, and
-- it returns 0 exactly when all of it is there.
structure ReadsExact (line : Line) (len : Nat) (result : Int × List UInt8 × Line) : Prop where
  took : Line.Took line result.2.1 result.2.2
  ok : result.1 = 0 → result.2.1.length = len
  short : result.1 ≠ 0 → result.2.1.length < len

theorem ReadsExact.none {line line' : Line} {len : Nat} {rc : Int} (hlen : len ≠ 0)
    (htook : Line.Took line [] line') (hrc : rc ≠ 0)
    : ReadsExact line len (rc, [], line') := by
  constructor
  . exact htook
  . intro hok
    contradiction
  . intro
    apply Nat.pos_of_ne_zero hlen

theorem ReadsExact.trans {line line' : Line} {len : Nat} {chunk : List UInt8}
    {result : Int × List UInt8 × Line} (htook : Line.Took line chunk line')
    (hle : chunk.length ≤ len) (h : ReadsExact line' (len - chunk.length) result)
    : ReadsExact line len (result.1, chunk ++ result.2.1, result.2.2) := by
  constructor
  . exact htook.trans h.took
  . intro hok
    have hlen := h.ok hok
    dsimp only
    rw [List.length_append]
    omega
  . intro hfail
    have hlen := h.short hfail
    dsimp only
    rw [List.length_append]
    omega

theorem receives_effort {line line' : Line} {n : Nat} (h : Line.Receives line n .intr line')
    : line'.effort < line.effort := by
  have hlen := congrArg List.length (h.other (by simp)).incoming
  have hturns := h.intr rfl
  unfold Line.effort
  simp at hlen
  omega

theorem readLoop_reads (deadlineUs : Nat) {fuel : Nat} {line : Line} (len : Nat)
    (hfuel : line.effort < fuel)
    : ReadsExact line len (readLoop deadlineUs fuel line len) := by
  induction fuel generalizing line len with
  | zero => omega
  | succ fuel ih =>
    unfold readLoop
    split
    . next hzero =>
      constructor
      . apply Line.Took.refl
      . simp [hzero]
      . simp
    . next hzero =>
      have hwait := waitReadable_took line deadlineUs
      generalize waitReadable line deadlineUs = result at hwait
      obtain ⟨ready, line'⟩ := result
      dsimp only at hwait ⊢
      split
      . next hready => exact .none hzero hwait hready
      . have hread := Line.read_receives line' len
        have heffort := hwait.effort
        rw [List.length_nil] at heffort
        generalize line'.read len = result at hread
        obtain ⟨ret, line''⟩ := result
        dsimp only at hread
        cases ret with
        | bytes chunk =>
          obtain ⟨htook, hle, hne⟩ := hread.bytes
          have hpos := List.length_pos_iff.mpr hne
          have hless := htook.effort
          have hrest : ReadsExact line'' (len - chunk.length)
              (readLoop deadlineUs fuel line'' (len - chunk.length)) := by
            apply ih
            omega
          exact .trans (hwait.trans htook) hle hrest
        | intr =>
          have hless := receives_effort hread
          have hrest : ReadsExact line'' len (readLoop deadlineUs fuel line'' len) := by
            apply ih
            omega
          exact .trans (hwait.trans (hread.other (by simp))) (by simp) hrest
        | _ => exact .none hzero (hwait.trans (hread.other (by simp))) (by simp)

theorem readLoop_fuel (deadlineUs : Nat) {fuel fuel' : Nat} {line : Line} (len : Nat)
    (hfuel : line.effort < fuel) (hfuel' : line.effort < fuel')
    : readLoop deadlineUs fuel line len = readLoop deadlineUs fuel' line len := by
  induction fuel generalizing fuel' line len with
  | zero => omega
  | succ fuel ih =>
    obtain ⟨fuel', rfl⟩ : ∃ n, fuel' = n + 1 := Nat.exists_eq_succ_of_ne_zero (by omega)
    unfold readLoop
    split
    . rfl
    . have hwait := (waitReadable_took line deadlineUs).effort
      generalize waitReadable line deadlineUs = result at hwait
      obtain ⟨ready, line'⟩ := result
      dsimp only [List.length_nil] at hwait ⊢
      split
      . rfl
      . have hread := Line.read_receives line' len
        generalize line'.read len = result at hread
        obtain ⟨ret, line''⟩ := result
        dsimp only at hread
        cases ret with
        | bytes chunk =>
          obtain ⟨htook, hle, hne⟩ := hread.bytes
          have hpos := List.length_pos_iff.mpr hne
          have hless := htook.effort
          have hrest : readLoop deadlineUs fuel line'' (len - chunk.length)
              = readLoop deadlineUs fuel' line'' (len - chunk.length) := by
            apply ih
            . omega
            . omega
          dsimp only
          rw [hrest]
        | intr =>
          have hless := receives_effort hread
          apply ih len
          . omega
          . omega
        | _ => rfl

theorem readExactTimeout_reads (line : Line) (len deadlineUs : Nat)
    : ReadsExact line len (readExactTimeout line len deadlineUs) := by
  apply readLoop_reads
  omega

def Received.adu (received : Received) : List UInt8 :=
  received.buf.slice 0 received.totalLen

-- A received response: a complete ADU of `unitId` that begins with `head`, which had been received
-- before, and goes on with what the line had.
structure Accepts (unitId : UInt8) (head : List UInt8) (line : Line) (received : Received) : Prop where
  bytes : head ++ line.bytes = received.adu ++ received.line.bytes
  crc : CrcValid received.adu
  unitId : received.adu.getD 0 0 = unitId
  five_le : 5 ≤ received.totalLen

theorem recvRest_accepts {unitId : UInt8} {deadlineUs frameLen : Nat} {buf : Mem UInt8} {line : Line}
    {head : List UInt8} (hhead : buf.slice 0 head.length = head) (hle : head.length ≤ frameLen)
    (hlen : 5 ≤ frameLen)
    (hrc : (recvRest unitId deadlineUs buf head.length frameLen line).rc = 0)
    : Accepts unitId head line (recvRest unitId deadlineUs buf head.length frameLen line) := by
  have hreads := readExactTimeout_reads line (frameLen - head.length) deadlineUs
  unfold recvRest at hrc ⊢
  generalize readExactTimeout line (frameLen - head.length) deadlineUs = result at hreads hrc
  obtain ⟨rc, got, line'⟩ := result
  dsimp only at hrc ⊢
  split at hrc
  . contradiction
  . next hok =>
    rw [if_neg hok]
    rw [not_not] at hok
    have hgot := hreads.ok hok
    dsimp only at hgot
    have hadu : (buf.write head.length got).slice 0 frameLen = head ++ got := by
      rw [← Mem.slice_received hhead]
      congr 1
      omega
    split at hrc
    . contradiction
    . next hcrc =>
      rw [if_neg hcrc]
      split at hrc
      . contradiction
      . next hunit =>
        rw [if_neg hunit]
        rw [not_not] at hunit
        rw [Bool.not_eq_true', Bool.not_eq_false, validateCrc_iff] at hcrc
        constructor
        . unfold Received.adu
          dsimp only
          rw [hadu, hreads.took.bytes, List.append_assoc]
        . exact hcrc
        . unfold Received.adu
          dsimp only
          rw [Pdu.getD_slice _ _ _ (by omega)]
          exact hunit
        . exact hlen

theorem Accepts.of_took {unitId : UInt8} {got : List UInt8} {line line' : Line}
    {received : Received} (h : Accepts unitId got line' received) (htook : Line.Took line got line')
    : Accepts unitId [] line received := by
  constructor
  . rw [htook.bytes]
    exact h.bytes
  . exact h.crc
  . exact h.unitId
  . exact h.five_le

theorem recvBefore_accepts {unitId expectedFc : UInt8} {buf : Mem UInt8} {deadlineUs : Nat}
    {line : Line} (hrc : (recvBefore unitId expectedFc buf deadlineUs line).rc = 0)
    : Accepts unitId [] line (recvBefore unitId expectedFc buf deadlineUs line) := by
  unfold recvBefore at hrc ⊢
  have hreads := readExactTimeout_reads line 2 deadlineUs
  generalize readExactTimeout line 2 deadlineUs = result at hreads hrc
  obtain ⟨rc, got, line₁⟩ := result
  dsimp only at hrc ⊢
  split at hrc
  . next hfail => exact absurd hrc hfail
  . next hok =>
    rw [if_neg hok]
    have hgot : got.length = 2 := hreads.ok (not_not.mp hok)
    have hhead : (buf.write 0 got).slice 0 got.length = got := Mem.slice_write_same _ _ _
    have htook : Line.Took line got line₁ := hreads.took
    generalize buf.write 0 got = buf₁ at hhead hrc
    split at hrc
    . next hexception =>
      rw [if_pos hexception]
      rw [← hgot] at hrc ⊢
      apply Accepts.of_took (recvRest_accepts hhead (by simp [hgot]) (by simp) hrc) htook
    . next hnormal =>
      rw [if_neg hnormal]
      split at hrc
      . contradiction
      . next hfc =>
        rw [if_neg hfc]
        split at hrc
        . next hread =>
          rw [if_pos hread]
          have hreads' := readExactTimeout_reads line₁ 1 deadlineUs
          generalize readExactTimeout line₁ 1 deadlineUs = result at hreads' hrc
          obtain ⟨rc, got', line₂⟩ := result
          dsimp only at hrc ⊢
          split at hrc
          . next hfail => exact absurd hrc hfail
          . next hok' =>
            rw [if_neg hok']
            have hgot' : got'.length = 1 := hreads'.ok (not_not.mp hok')
            have hhead' : (buf₁.write 2 got').slice 0 (got ++ got').length = got ++ got' := by
              rw [List.length_append, ← hgot, Mem.slice_received hhead]
            have hthree : (got ++ got').length = 3 := by simp [hgot, hgot']
            generalize buf₁.write 2 got' = buf₂ at hhead' hrc
            split at hrc
            . contradiction
            . next hfits =>
              rw [if_neg hfits]
              rw [← hthree] at hrc ⊢
              have htook' : Line.Took line (got ++ got') line₂ := htook.trans hreads'.took
              apply Accepts.of_took (recvRest_accepts hhead' (by omega) (by simp [hgot, hgot']) hrc) htook'
        . next hwrite =>
          rw [if_neg hwrite]
          rw [← hgot] at hrc ⊢
          apply Accepts.of_took (recvRest_accepts hhead (by simp [hgot]) (by simp) hrc) htook

theorem recvResponse_accepts {ses : Session} {unitId expectedFc : UInt8} {buf : Mem UInt8}
    {line : Line} (hrc : (recvResponse ses unitId expectedFc buf line).rc = 0)
    : Accepts unitId [] line (recvResponse ses unitId expectedFc buf line) := by
  have hclock := responseDeadlineUs_took ses line
  unfold recvResponse at hrc ⊢
  generalize responseDeadlineUs ses line = deadline at hclock hrc
  exact Accepts.of_took (recvBefore_accepts hrc) hclock

theorem sendFrame_put (cfg : ClientConfig) (line : Line) (buf : List UInt8)
    : ∃ sent, Line.Put line sent (sendFrame cfg line buf).2.1 := by
  obtain ⟨sent, hput, -⟩ := Line.writeAll_put false line buf
  have hwrite : Line.Put line sent (writeAll line buf).2 := by
    unfold writeAll
    split
    . next line' heq =>
      rw [heq] at hput
      exact hput
    . next line' heq =>
      rw [heq] at hput
      have hdrain := hput.trans (Line.turn_put line')
      rw [List.append_nil] at hdrain
      exact hdrain
  refine ⟨sent, ?_⟩
  unfold sendFrame
  dsimp only
  split
  . exact hwrite
  . exact hwrite

theorem ioErrToClientErr_neg (rc : Int)
    : ioErrToClientErr rc < 0 ∧ ioErrToClientErr rc ≠ errArg := by
  unfold ioErrToClientErr
  split
  . decide
  . split
    . decide
    . split
      . decide
      . split
        . decide
        . decide

theorem Accepts.pdu {unitId : UInt8} {line : Line} {received : Received}
    (h : Accepts unitId [] line received)
    : line.bytes = withCrc (unitId :: pduOf received.adu) ++ received.line.bytes := by
  have hlen : received.adu.length = received.totalLen := Mem.length_slice _ _ _
  have hmin := h.five_le
  have hunit := h.unitId
  have hbytes := h.bytes
  obtain ⟨payload, hadu⟩ := h.crc
  rw [hadu] at hlen hunit hbytes ⊢
  cases payload with
  | nil =>
    rw [length_withCrc, List.length_nil] at hlen
    omega
  | cons unitId' answer =>
    have hfirst : unitId' = unitId := hunit
    subst hfirst
    rw [pduOf_withCrc]
    exact hbytes

theorem recvEcho_none {ses : Session} (hecho : ses.ctx.cfg.localEcho = false) (req : List UInt8)
    (line : Line)
    : recvEcho ses req line = (true, line) := by
  unfold recvEcho
  simp [hecho]

-- What an unfailing transaction has found behind the request: the ADU of an answer to it.
theorem awaitResponse_answer {ses : Session} {op : Pdu.Operation} {pdu resp : Mem UInt8}
    {req : List UInt8} {line : Line} {events : List Event} (hecho : ses.ctx.cfg.localEcho = false)
    (hunicast : ses.unitId ≠ rtuBroadcastAddress)
    (hpdu : pdu.slice 0 5 = Pdu.header op.fc op.addr op.qty)
    (hrc : 0 ≤ (awaitResponse ses pdu resp req line events).rc)
    : ∃ answer later, line.bytes = withCrc (ses.unitId :: answer) ++ later ∧
        op.AnsweredBy answer (awaitResponse ses pdu resp req line events).rc := by
  unfold awaitResponse at hrc ⊢
  rw [recvEcho_none hecho] at hrc ⊢
  dsimp only at hrc ⊢
  rw [if_neg hunicast] at hrc ⊢
  have haccepts := @recvResponse_accepts ses ses.unitId (pdu 0) resp line
  generalize recvResponse ses ses.unitId (pdu 0) resp line = received at haccepts hrc
  split at hrc
  . have hneg := (ioErrToClientErr_neg received.rc).1
    dsimp only at hrc
    omega
  . next hok =>
    rw [if_neg hok]
    have hbytes := (haccepts (not_not.mp hok)).pdu
    have hfive := (haccepts (not_not.mp hok)).five_le
    have hcheck := Pdu.checkResponse_eq_check pdu (received.buf.shift 1) (received.totalLen - 1 - 2)
      op.fc op.addr op.qty hpdu
    rw [pduOf_slice _ _ (by omega)] at hcheck
    split at hrc
    . contradiction
    . next hframe =>
      rw [if_neg hframe]
      dsimp only [offsetPdu, rtuCrcLen] at hframe ⊢
      rw [hcheck] at hframe ⊢
      exact ⟨_, _, hbytes, Pdu.answer_of_check op hframe⟩

theorem transact_answer {ses : Session} {op : Pdu.Operation} {req buf resp : Mem UInt8}
    (hecho : ses.ctx.cfg.localEcho = false) (hunicast : ses.unitId ≠ rtuBroadcastAddress)
    (hrc : 0 ≤ (transact ses req (op.build buf).1 (op.build buf).2 resp).rc)
    : ∃ answer later, ses.flushed.bytes = withCrc (ses.unitId :: answer) ++ later ∧
        op.AnsweredBy answer (transact ses req (op.build buf).1 (op.build buf).2 resp).rc := by
  have hpdu := op.slice_build buf
  unfold transact at hrc ⊢
  split at hrc
  . contradiction
  . next hinit =>
    rw [if_neg hinit]
    simp only [hunicast, false_and, ite_false] at hrc ⊢
    split at hrc
    . next line events hsend => contradiction
    . next line events hsend =>
      obtain ⟨sent, hput⟩ := sendFrame_put ses.ctx.cfg ses.flushed _
      rw [hsend] at hput
      obtain ⟨answer, later, hbytes, hanswer⟩ := awaitResponse_answer hecho hunicast hpdu hrc
      refine ⟨answer, later, ?_, hanswer⟩
      rw [← hbytes]
      unfold Line.bytes
      rw [hput.incoming]

-- A client that asks unit 0x11 for one holding register, and receives `bytes` a millisecond later.
def readOne : Pdu.Operation :=
  .readRegisters funcReadHoldingRegisters 0 1 (.inl rfl) (by decide) (by decide)

def receiving (bytes : List UInt8) : Session where
  ctx := ⟨3, some 0, true,
    ⟨"/dev/ttyS0", 9600, 8, 1, .none, 0x11, 0, 0, 0, .none, false, false⟩⟩
  bus := ⟨"/dev/ttyS0", 3, 1, 9600, 8, 1, .none, .none, 3646, false, 0, ⟨0, 0⟩⟩
  line := ⟨0, bytes.map (⟨1000000, ·⟩), [], [], none⟩

end Rtu.Client
