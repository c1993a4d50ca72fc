import ModbusProtocol.Pdu.Lemmas.Dispatch
import ModbusProtocol.Pdu.Operation

/-!
This module contains the response validator as a function of the request's fixed part and of the
response bytes, what it says about the responses a dispatch can give, and the responses it lets through.
-/

open Modbus

namespace Pdu

def check (fc : UInt8) (addr qty : UInt16) (answer : List UInt8) : Int :=
  if answer.length < 1 then
    errFrame
  else if answer.getD 0 0 = fc ||| exceptionFlag then
    if answer.length ≠ 2 ∨ answer.getD 1 0 = 0 then
      errFrame
    else
      (answer.getD 1 0).toNat
  else if answer.getD 0 0 ≠ fc then
    errFrame
  else if isRead fc then
    if answer.length ≠ 2 + dataLen fc qty ∨ answer.getD 1 0 ≠ UInt8.ofNat (dataLen fc qty) then
      errFrame
    else
      0
  else if isWrite fc then
    if answer ≠ header fc addr qty then
      errFrame
    else
      0
  else
    errFrame

theorem apply_of_slice_eq {m : Mem UInt8} {len : Nat} {l : List UInt8} (h : m.slice 0 len = l)
    (i : Nat) (hi : i < len)
    : m i = l.getD i 0 := by
  rw [← h]
  simp [Mem.getElem?_slice _ _ _ _ hi]

theorem getU16_of_header {req : Mem UInt8} {fc : UInt8} {addr qty : UInt16}
    (hreq : req.slice 0 5 = header fc addr qty)
    : getU16 (req.shift 3) = qty := by
  have h3 : req 3 = (qty >>> 8).toUInt8 := by
    simpa [header, u16Bytes] using apply_of_slice_eq hreq 3 (by omega)
  have h4 : req 4 = (qty &&& 0xFF).toUInt8 := by
    simpa [header, u16Bytes] using apply_of_slice_eq hreq 4 (by omega)
  rw [getU16_eq]
  simp only [Mem.shift_apply, Nat.add_zero, Nat.reduceAdd]
  rw [h3, h4, u16Of_u16Bytes]

theorem dataLen_eq_of_isRead {fc : UInt8} (qty : UInt16) (h : isRead fc = true)
    : (if fc ≤ funcReadDiscreteInputs then bitByteCount qty else qty.toNat * 2) = dataLen fc qty := by
  simp [isRead] at h
  rcases h with rfl | rfl | rfl | rfl
  all_goals simp [dataLen, isBitFc]

theorem slice_eq_header_iff {resp req : Mem UInt8} {respLen : Nat} {fc : UInt8} {addr qty : UInt16}
    (hreq : req.slice 0 5 = header fc addr qty) (hfc : resp 0 = fc)
    : (respLen = 5 ∧ resp.slice 1 4 = req.slice 1 4)
        ↔ resp.slice 0 respLen = header fc addr qty := by
  have hreq' : req.slice 1 4 = u16Bytes addr ++ u16Bytes qty := by
    rw [Mem.slice_succ] at hreq
    injection hreq
  constructor
  . intro ⟨hlen, heq⟩
    rw [hlen, Mem.slice_succ, hfc, heq, hreq']
    rfl
  . intro heq
    have hlen : respLen = 5 := by
      have := congrArg List.length heq
      simpa [header] using this
    refine ⟨hlen, ?_⟩
    rw [hlen, Mem.slice_succ] at heq
    injection heq with _ htail
    rw [htail, hreq']

theorem checkResponse_eq_check (req resp : Mem UInt8) (respLen : Nat) (fc : UInt8)
    (addr qty : UInt16) (hreq : req.slice 0 5 = header fc addr qty)
    : checkResponse req resp respLen = check fc addr qty (resp.slice 0 respLen) := by
  have hfc : req 0 = fc := by simpa [header] using apply_of_slice_eq hreq 0 (by omega)
  unfold checkResponse check
  dsimp only [offsetFc, offsetQty, offsetAddr, offsetReadByteCount, offsetReadData]
  rw [hfc, getU16_of_header hreq, Mem.length_slice]
  split
  . rfl
  . next hpos =>
    rw [getD_slice _ _ _ (by omega)]
    split
    . next hex =>
      by_cases hlen : respLen = 2
      . rw [getD_slice _ _ _ (by omega)]
      . simp [hlen]
    . next hex =>
      split
      . rfl
      . next heq =>
        simp only [ne_eq, not_not] at heq
        split
        . next hread =>
          rw [dataLen_eq_of_isRead qty hread]
          by_cases hlen : respLen = 2 + dataLen fc qty
          . rw [getD_slice _ _ _ (by omega)]
          . simp [hlen]
        . split
          . have : (respLen = 5 ∧ resp.slice 1 4 = req.slice 1 4)
                ↔ resp.slice 0 respLen = header fc addr qty := slice_eq_header_iff hreq heq
            by_cases hok : resp.slice 0 respLen = header fc addr qty
            . have hlen := this.mpr hok
              rw [if_neg (by simp [hlen]), if_neg (by simp [hok])]
            . have hlen := mt this.mp hok
              rw [if_pos (by grind), if_pos hok]
          . rfl

theorem or_exceptionFlag_ne {fc : UInt8} (h : isRead fc = true ∨ isWrite fc = true)
    : fc ≠ fc ||| exceptionFlag := by
  simp [isRead, isWrite] at h
  rcases h with (rfl | rfl | rfl | rfl) | (rfl | rfl | rfl | rfl)
  all_goals decide

theorem check_exception (fc : UInt8) (addr qty : UInt16) (code : UInt8) (h : code ≠ 0)
    : check fc addr qty [fc ||| exceptionFlag, code] = code.toNat := by
  simp [check, h]

theorem check_read (fc : UInt8) (addr qty : UInt16) (data : List UInt8) (hfc : isRead fc = true)
    (hlen : data.length = dataLen fc qty)
    : check fc addr qty (fc :: UInt8.ofNat data.length :: data) = 0 := by
  have hne := or_exceptionFlag_ne (.inl hfc)
  unfold check
  simp only [List.getD_cons_zero, List.getD_cons_succ, List.length_cons, hlen, hne, hfc, ↓reduceIte]
  simp
  omega

theorem check_header (fc : UInt8) (addr qty : UInt16) (hfc : isWrite fc = true)
    (hread : isRead fc = false)
    : check fc addr qty (header fc addr qty) = 0 := by
  have hne := or_exceptionFlag_ne (.inr hfc)
  unfold check
  simp only [hfc, hread]
  simp only [header, List.getD_cons_zero, hne, ↓reduceIte]
  simp

-- The response PDUs that answer a request, with what they make the client return.
inductive Operation.AnsweredBy (op : Operation) : List UInt8 → Int → Prop where
  | read (data : List UInt8) (hfc : isRead op.fc = true) (hlen : data.length = dataLen op.fc op.qty)
      : AnsweredBy op (op.fc :: UInt8.ofNat data.length :: data) 0
  | write (hfc : isWrite op.fc = true) : AnsweredBy op (header op.fc op.addr op.qty) 0
  | exception (code : UInt8) (hcode : code ≠ 0)
      : AnsweredBy op [op.fc ||| exceptionFlag, code] code.toNat

-- the length of a response that is not an exception
def Operation.answerLen (op : Operation) : Nat :=
  if isRead op.fc then 2 + dataLen op.fc op.qty else 5

-- An answer is of the one length its function code has, or an exception.
theorem Operation.AnsweredBy.shape {op : Operation} {answer : List UInt8} {rc : Int}
    (h : op.AnsweredBy answer rc)
    : rc = 0 ∧ answer.head? = some op.fc ∧ answer.length = op.answerLen ∨
      ∃ code : UInt8, code ≠ 0 ∧ rc = code.toNat ∧ answer = [op.fc ||| exceptionFlag, code] := by
  cases h with
  | read data hfc hlen =>
    refine .inl ⟨rfl, rfl, ?_⟩
    unfold answerLen
    rw [if_pos hfc, List.length_cons, List.length_cons, hlen]
    omega
  | write hfc =>
    refine .inl ⟨rfl, rfl, ?_⟩
    have hread : ¬isRead op.fc = true := by
      intro hread
      unfold isRead isWrite at *
      grind
    unfold answerLen
    rw [if_neg hread]
    rfl
  | exception code hcode => exact .inr ⟨code, hcode, rfl, rfl⟩

theorem answer_of_check (op : Operation) {answer : List UInt8}
    (h : check op.fc op.addr op.qty answer ≠ errFrame)
    : op.AnsweredBy answer (check op.fc op.addr op.qty answer) := by
  unfold check at h ⊢
  cases answer with
  | nil => simp at h
  | cons fc rest =>
    simp only [List.length_cons, List.getD_cons_zero, List.getD_cons_succ] at h ⊢
    rw [if_neg (by omega)] at h ⊢
    split at h
    . next hex =>
      rw [if_pos hex]
      split at h
      . contradiction
      . next hcode =>
        rw [if_neg hcode]
        rw [not_or, not_not] at hcode
        obtain ⟨code, rfl⟩ := List.length_eq_one_iff.mp (Nat.succ.inj hcode.1)
        rw [hex]
        exact .exception code hcode.2
    . next hex =>
      rw [if_neg hex]
      split at h
      . contradiction
      . next hfc =>
        rw [if_neg hfc]
        rw [not_not] at hfc
        subst hfc
        split at h
        . next hread =>
          rw [if_pos hread]
          split at h
          . contradiction
          . next hdata =>
            rw [if_neg hdata]
            rw [not_or, not_not, not_not] at hdata
            cases rest with
            | nil => simp at hdata; omega
            | cons count data =>
              have hlen : data.length = dataLen op.fc op.qty := by
                simp at hdata
                omega
              have hcount : count = UInt8.ofNat data.length := by
                rw [hlen]
                exact hdata.2
              rw [hcount]
              exact .read data hread hlen
        . next hread =>
          rw [if_neg hread]
          split at h
          . next hwrite =>
            rw [if_pos hwrite]
            split at h
            . contradiction
            . next hecho =>
              rw [if_neg hecho]
              rw [not_not] at hecho
              rw [hecho]
              exact .write hwrite
          . contradiction

theorem Operation.AnsweredBy.check {op : Operation} {answer : List UInt8} {rc : Int}
    (h : op.AnsweredBy answer rc)
    : Pdu.check op.fc op.addr op.qty answer = rc := by
  cases h with
  | read data hfc hlen => exact check_read op.fc op.addr op.qty data hfc hlen
  | write hfc =>
    apply check_header _ _ _ hfc
    unfold isRead isWrite at *
    grind
  | exception code hcode => exact check_exception op.fc op.addr op.qty code hcode

namespace Operation

theorem dataLen_le (op : Operation) (hread : isRead op.fc = true)
    : dataLen op.fc op.qty ≤ 250 := by
  cases op with
  | readBits fc addr qty hfc hpos hmax =>
    unfold dataLen Operation.fc Operation.qty bitByteCount
    rcases hfc with rfl | rfl
    all_goals
      simp [isBitFc] at hmax ⊢
      omega
  | readRegisters fc addr qty hfc hpos hmax =>
    unfold dataLen Operation.fc Operation.qty bitByteCount
    rcases hfc with rfl | rfl
    all_goals
      simp [isBitFc] at hmax ⊢
      omega
  | _ => contradiction

-- What is decoded is the answer, whatever follows it in memory.
theorem decode_congr (op : Operation) {resp resp' : Mem UInt8} (out : Out)
    (h : resp.slice 0 op.answerLen = resp'.slice 0 op.answerLen)
    : op.decode resp out = op.decode resp' out := by
  cases op with
  | readBits fc addr qty hfc hpos hmax =>
    have hlen : (readBits fc addr qty hfc hpos hmax).answerLen = 2 + bitByteCount qty := by
      rcases hfc with rfl | rfl <;> rfl
    have hdata := congrArg (·.drop 2) h
    simp only [hlen, Mem.drop_slice _ _ _ _ (Nat.le_add_right 2 _), Nat.add_sub_cancel_left] at hdata
    dsimp only [decode]
    rw [getBits_eq_write, getBits_eq_write, hdata]
  | readRegisters fc addr qty hfc hpos hmax =>
    have hlen : (readRegisters fc addr qty hfc hpos hmax).answerLen = 2 + qty.toNat * 2 := by
      rcases hfc with rfl | rfl <;> rfl
    have hdata := congrArg (·.drop 2) h
    simp only [hlen, Mem.drop_slice _ _ _ _ (Nat.le_add_right 2 _), Nat.add_sub_cancel_left] at hdata
    dsimp only [decode]
    rw [getRegisters_eq_write, getRegisters_eq_write, hdata]
  | _ => rfl

end Operation

end Pdu
