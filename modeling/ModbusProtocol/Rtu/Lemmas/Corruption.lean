import ModbusProtocol.Rtu.Lemmas.Client

/-!
This module contains what the RTU client makes of a response with one wrong bit. The CRC covers as many
bytes as the function code and the byte count call for, so a bit that is wrong in one of these moves it to
other bytes.
-/

open Modbus Posix

namespace Rtu

def bitMask (n : Nat) : UInt8 :=
  UInt8.ofNat (2 ^ (n % 8))

-- Bits are counted from the lowest of the first byte on.
def flipBit (bytes : List UInt8) (n : Nat) : List UInt8 :=
  bytes.modify (n / 8) (· ^^^ bitMask n)

@[simp]
theorem length_flipBit (bytes : List UInt8) (n : Nat)
    : (flipBit bytes n).length = bytes.length := by
  simp [flipBit]

theorem bitMask_ne_zero (n : Nat)
    : bitMask n ≠ 0 := by
  have hlt : n % 8 < 8 := Nat.mod_lt n (by omega)
  unfold bitMask
  generalize n % 8 = b at hlt
  revert b
  decide

theorem xor_bitMask_ne (a : UInt8) (n : Nat)
    : a ^^^ bitMask n ≠ a := by
  intro h
  apply bitMask_ne_zero n
  have hcancel := congrArg (a ^^^ ·) h
  simpa [← UInt8.xor_assoc] using hcancel

theorem flipBit_split {bytes : List UInt8} {n : Nat} (hn : n < 8 * bytes.length)
    : ∃ front a back, bytes = front ++ a :: back ∧ front.length = n / 8 ∧
        flipBit bytes n = front ++ (a ^^^ bitMask n) :: back := by
  have hlt : n / 8 < bytes.length := by omega
  have hlen : (bytes.take (n / 8)).length = n / 8 := by
    rw [List.length_take]
    omega
  have hsplit : bytes = bytes.take (n / 8) ++ bytes[n / 8] :: bytes.drop (n / 8 + 1) := by
    rw [List.getElem_cons_drop, List.take_append_drop]
  refine ⟨_, _, _, hsplit, hlen, ?_⟩
  unfold flipBit
  rw [List.modify_eq_take_cons_drop hlt]

theorem not_crcValid_flipBit {bytes : List UInt8} {n : Nat} (hn : n < 8 * bytes.length)
    (h : CrcValid bytes)
    : ¬CrcValid (flipBit bytes n) := by
  obtain ⟨front, a, back, hbytes, -, hflip⟩ := flipBit_split hn
  rw [hbytes] at h
  rw [hflip]
  exact not_crcValid_of_one_byte front back (xor_bitMask_ne a n).symm h

theorem bitMask_eq_exceptionFlag {fc : UInt8} {n : Nat}
    (hfc : Pdu.isRead fc = true ∨ Pdu.isWrite fc = true)
    (h : fc ^^^ bitMask n = fc ||| exceptionFlag)
    : n % 8 = 7 := by
  have hlt : n % 8 < 8 := Nat.mod_lt n (by omega)
  unfold bitMask at h
  generalize n % 8 = b at hlt h
  unfold Pdu.isRead Pdu.isWrite at hfc
  rw [decide_eq_true_iff, decide_eq_true_iff] at hfc
  revert b
  rcases hfc with (rfl | rfl | rfl | rfl) | (rfl | rfl | rfl | rfl)
  all_goals decide

namespace Client

-- Two ADUs with different function codes can be one wrong bit apart only there.
theorem flipped_second {unitId fc fc' : UInt8} {tail tail' later later' : List UInt8} {n : Nat}
    (hne : fc ≠ fc')
    (hbytes : flipBit (withCrc (unitId :: fc :: tail)) n ++ later
      = withCrc (unitId :: fc' :: tail') ++ later')
    : n / 8 = 1 ∧ fc ^^^ bitMask n = fc' := by
  have hsecond := congrArg (·[1]?) hbytes
  unfold flipBit withCrc at hsecond
  by_cases hindex : n / 8 = 1
  . refine ⟨hindex, ?_⟩
    simpa [hindex] using hsecond
  . rw [List.getElem?_append_left (by simp)] at hsecond
    simp [hindex] at hsecond
    exact absurd hsecond hne

-- The ADU with the wrong bit begins another that answers the request.
theorem flipped_function_code {op : Pdu.Operation} {unitId : UInt8}
    {answer answer' later later' : List UInt8} {rc rc' : Int} {n : Nat} (h : op.AnsweredBy answer rc)
    (h' : op.AnsweredBy answer' rc') (hn : n < 8 * (withCrc (unitId :: answer)).length)
    (hbytes : flipBit (withCrc (unitId :: answer)) n ++ later = withCrc (unitId :: answer') ++ later')
    : n = 15 ∧ (rc = 0 ∧ 0 < rc' ∨ 0 < rc ∧ rc' = 0) := by
  have hlength : answer.length ≠ answer'.length := by
    intro hlen
    have heq : flipBit (withCrc (unitId :: answer)) n = withCrc (unitId :: answer') := by
      apply List.append_inj_left hbytes
      simp [hlen]
    have hnot := not_crcValid_flipBit hn ⟨_, rfl⟩
    rw [heq] at hnot
    exact hnot ⟨_, rfl⟩
  have hne := Pdu.or_exceptionFlag_ne op.fc_supported
  have hpos : ∀ code : UInt8, code ≠ 0 → (0 : Int) < code.toNat := by
    intro code hcode
    have hzero : code.toNat ≠ 0 := by
      intro hzero
      exact hcode (UInt8.toNat_inj.mp hzero)
    omega
  obtain ⟨hrc, hhead, hlen⟩ | ⟨code, hcode, hrc, hanswer⟩ := h.shape
  . obtain ⟨-, -, hlen'⟩ | ⟨code', hcode', hrc', hanswer'⟩ := h'.shape
    . exact absurd (hlen.trans hlen'.symm) hlength
    . obtain ⟨tail, rfl⟩ := List.head?_eq_some_iff.mp hhead
      subst hanswer'
      obtain ⟨hindex, hmask⟩ := flipped_second hne hbytes
      have hbit := bitMask_eq_exceptionFlag op.fc_supported hmask
      refine ⟨by omega, .inl ⟨hrc, ?_⟩⟩
      rw [hrc']
      exact hpos code' hcode'
  . obtain ⟨hrc', hhead', -⟩ | ⟨code', -, -, hanswer'⟩ := h'.shape
    . obtain ⟨tail', rfl⟩ := List.head?_eq_some_iff.mp hhead'
      subst hanswer
      obtain ⟨hindex, hmask⟩ := flipped_second hne.symm hbytes
      have hback : op.fc ^^^ bitMask n = op.fc ||| exceptionFlag := by
        calc
          op.fc ^^^ bitMask n = ((op.fc ||| exceptionFlag) ^^^ bitMask n) ^^^ bitMask n := by
            rw [hmask]
          _ = op.fc ||| exceptionFlag := by
            rw [UInt8.xor_assoc, UInt8.xor_self, UInt8.xor_zero]
      have hbit := bitMask_eq_exceptionFlag op.fc_supported hback
      refine ⟨by omega, .inr ⟨?_, hrc'⟩⟩
      rw [hrc]
      exact hpos code hcode
    . subst hanswer hanswer'
      exact absurd rfl hlength

-- A response with one wrong bit is not reported, unless the bit turns it into an exception or an exception
-- into a normal response and the CRC of that follows where it is then expected.
theorem transact_corrupted {ses : Session} {op : Pdu.Operation} {req buf resp : Mem UInt8}
    {answer later : List UInt8} {rc : Int} {n : Nat} (hecho : ses.ctx.cfg.localEcho = false)
    (hunicast : ses.unitId ≠ rtuBroadcastAddress) (hanswer : op.AnsweredBy answer rc)
    (hn : n < 8 * (withCrc (ses.unitId :: answer)).length)
    (hbytes : ses.flushed.bytes = flipBit (withCrc (ses.unitId :: answer)) n ++ later)
    : (transact ses req (op.build buf).1 (op.build buf).2 resp).rc < 0 ∨
      n = 15 ∧
        (rc = 0 ∧ 0 < (transact ses req (op.build buf).1 (op.build buf).2 resp).rc ∨
          0 < rc ∧ (transact ses req (op.build buf).1 (op.build buf).2 resp).rc = 0) ∧
        ∃ answer' later', ses.flushed.bytes = withCrc (ses.unitId :: answer') ++ later' ∧
          op.AnsweredBy answer' (transact ses req (op.build buf).1 (op.build buf).2 resp).rc := by
  by_cases hrc : (transact ses req (op.build buf).1 (op.build buf).2 resp).rc < 0
  . exact .inl hrc
  . right
    obtain ⟨answer', later', hbytes', hanswer'⟩ := @transact_answer ses op req buf resp hecho
      hunicast (by omega)
    rw [hbytes'] at hbytes
    obtain ⟨hbit, hkind⟩ := flipped_function_code hanswer hanswer' hn hbytes.symm
    exact ⟨hbit, hkind, answer', later', hbytes', hanswer'⟩

-- A wrong bit in the register that is read.
theorem transact_corrupted_data
    : (transact (receiving (flipBit (withCrc [0x11, 0x03, 0x02, 0x12, 0x34]) 24)) (fun _ => 0)
        (readOne.build fun _ => 0).1 (readOne.build fun _ => 0).2 fun _ => 0).rc < 0 := by
  have hcorrupted := @transact_corrupted
    (receiving (flipBit (withCrc [0x11, 0x03, 0x02, 0x12, 0x34]) 24)) readOne (fun _ => 0)
    (fun _ => 0) (fun _ => 0) [0x03, 0x02, 0x12, 0x34] [] 0 24 rfl (by decide)
    (.read [0x12, 0x34] rfl rfl) (by decide) (by decide +kernel)
  cases hcorrupted with
  | inl hneg => exact hneg
  | inr hbit => exact absurd hbit.1 (by decide)

-- The register that is read holds the CRC of the exception response 0x02, then the wrong bit in the function
-- code is all it takes.
theorem flipped_bit_reported
    : readOne.AnsweredBy [0x03, 0x02, 0xC1, 0x34] 0 ∧
      (transact (receiving (flipBit (withCrc [0x11, 0x03, 0x02, 0xC1, 0x34]) 15)) (fun _ => 0)
        (readOne.build fun _ => 0).1 (readOne.build fun _ => 0).2 fun _ => 0).rc = 2 := by
  refine ⟨.read [0xC1, 0x34] rfl rfl, ?_⟩
  decide +kernel

end Client

end Rtu
