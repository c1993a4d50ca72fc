import ModbusProtocol.Pdu.Lemmas.Dispatch

/-!
This module contains what has been checked by the time a callback runs: the request grammar, the
limits on what a callback is handed, and that a dispatch only calls the application within both.
-/

open Modbus

namespace Pdu

variable {σ : Type}

def Call.WithinLimits : Call → Prop
  | .readRegisters fc addr qty =>
    (fc = funcReadHoldingRegisters ∨ fc = funcReadInputRegisters) ∧
      1 ≤ qty.toNat ∧ qty.toNat ≤ 125 ∧ addr.toNat + qty.toNat ≤ 65536
  | .readBits fc addr qty =>
    (fc = funcReadCoils ∨ fc = funcReadDiscreteInputs) ∧
      1 ≤ qty.toNat ∧ qty.toNat ≤ 2000 ∧ addr.toNat + qty.toNat ≤ 65536
  | .writeRegisters addr qty data =>
    1 ≤ qty.toNat ∧ qty.toNat ≤ 123 ∧ addr.toNat + qty.toNat ≤ 65536 ∧ data.length = qty.toNat
  | .writeBits addr qty bits =>
    1 ≤ qty.toNat ∧ qty.toNat ≤ 1968 ∧ addr.toNat + qty.toNat ≤ 65536 ∧
      bits.length = qty.toNat ∧ ∀ bit ∈ bits, bit = 0 ∨ bit = 1

-- The requests of each function code and the call each of them asks for. FC01 to FC06 may carry
-- bytes behind the fixed part, the dispatch does not look at them.
inductive Requests : List UInt8 → Call → Prop where
  | readBits (fc : UInt8) (addr qty : UInt16) (extra : List UInt8)
      (hfc : fc = funcReadCoils ∨ fc = funcReadDiscreteInputs)
      : Requests (header fc addr qty ++ extra) (.readBits fc addr qty)
  | readRegisters (fc : UInt8) (addr qty : UInt16) (extra : List UInt8)
      (hfc : fc = funcReadHoldingRegisters ∨ fc = funcReadInputRegisters)
      : Requests (header fc addr qty ++ extra) (.readRegisters fc addr qty)
  | coilOn (addr : UInt16) (extra : List UInt8)
      : Requests (header funcWriteSingleCoil addr 0xFF00 ++ extra) (.writeBits addr 1 [1])
  | coilOff (addr : UInt16) (extra : List UInt8)
      : Requests (header funcWriteSingleCoil addr 0x0000 ++ extra) (.writeBits addr 1 [0])
  | register (addr value : UInt16) (extra : List UInt8)
      : Requests (header funcWriteSingleRegister addr value ++ extra)
          (.writeRegisters addr 1 [value])
  | coils (addr qty : UInt16) (byteCount : UInt8) (payload : List UInt8)
      (hlen : payload.length = (qty.toNat + 7) / 8) (hcount : byteCount.toNat = payload.length)
      : Requests (header funcWriteMultipleCoils addr qty ++ byteCount :: payload)
          (.writeBits addr qty ((Bits.unpack payload qty.toNat).map Bool.toUInt8))
  | registers (addr qty : UInt16) (byteCount : UInt8) (data : List UInt16)
      (hlen : data.length = qty.toNat) (hcount : byteCount.toNat = data.length * 2)
      : Requests (header funcWriteMultipleRegisters addr qty ++ byteCount :: data.flatMap u16Bytes)
          (.writeRegisters addr qty data)

theorem rangeOverflows_eq (addr qty : UInt16)
    : rangeOverflows addr qty = decide (65536 < addr.toNat + qty.toNat) := by
  have h1 := addr.toNat_lt
  have h2 := qty.toNat_lt
  unfold rangeOverflows
  rw [decide_eq_decide]
  rw [gt_iff_lt, UInt32.lt_iff_toNat_lt, UInt32.toNat_add]
  simp
  omega

theorem eq_header_append (pdu : List UInt8) (h : 5 ≤ pdu.length)
    : pdu = header (fcOf pdu) (addrOf pdu) (qtyOf pdu) ++ pdu.drop 5 := by
  match pdu, h with
  | a :: b :: c :: d :: e :: rest, _ =>
    simp [header, fcOf, addrOf, qtyOf, u16Bytes_u16Of]

theorem drop_five_eq (pdu : List UInt8) (h : 6 ≤ pdu.length)
    : pdu.drop 5 = pdu.getD 5 0 :: payloadOf pdu := by
  match pdu, h with
  | _ :: _ :: _ :: _ :: _ :: _ :: _, _ => rfl

theorem checkRange_eq_ok {addr qty : UInt16} {limit : Nat} {call call' : Call}
    (h : checkRange addr qty limit call = .ok call')
    : call' = call ∧ 1 ≤ qty.toNat ∧ qty.toNat ≤ limit ∧ addr.toNat + qty.toNat ≤ 65536 := by
  unfold checkRange at h
  split at h
  . contradiction
  . next hqty =>
    split at h
    . contradiction
    . next hrange =>
      injection h with h
      have hne : qty.toNat ≠ 0 := by
        intro hzero
        apply hqty
        left
        apply UInt16.toNat_inj.mp
        simpa using hzero
      simp [rangeOverflows_eq] at hrange
      refine ⟨h.symm, ?_, ?_, hrange⟩
      . omega
      . omega

theorem checkLayout_eq_ok {pdu : List UInt8} {limit : Nat} {call call' : Call}
    (h : checkLayout pdu limit call = .ok call')
    : call' = call ∧ 1 ≤ (qtyOf pdu).toNat ∧ (qtyOf pdu).toNat ≤ limit ∧
      (addrOf pdu).toNat + (qtyOf pdu).toNat ≤ 65536 ∧
      pdu.length = 6 + dataLen (fcOf pdu) (qtyOf pdu) ∧
      pdu.getD 5 0 = UInt8.ofNat (dataLen (fcOf pdu) (qtyOf pdu)) := by
  unfold checkLayout at h
  split at h
  . contradiction
  . next hqty =>
    split at h
    . contradiction
    . next hlayout =>
      split at h
      . contradiction
      . next hrange =>
        injection h with h
        have hne : (qtyOf pdu).toNat ≠ 0 := by
          intro hzero
          apply hqty
          right
          left
          apply UInt16.toNat_inj.mp
          simpa using hzero
        simp [rangeOverflows_eq] at hrange
        simp only [not_or, ne_eq, not_not] at hlayout
        refine ⟨h.symm, ?_, ?_, hrange, hlayout.2, hlayout.1⟩
        . omega
        . omega

theorem toUInt8_eq (b : Bool)
    : b.toUInt8 = 0 ∨ b.toUInt8 = 1 := by
  cases b with
  | false => exact .inl rfl
  | true => exact .inr rfl

theorem toNat_ofNat_dataLen (fc : UInt8) {qty : UInt16} {limit : Nat} (h : qty.toNat ≤ limit)
    (hlimit : isBitFc fc = true ∧ limit = maxWriteBits
      ∨ isBitFc fc = false ∧ limit = maxWriteRegisters)
    : (UInt8.ofNat (dataLen fc qty)).toNat = dataLen fc qty := by
  unfold dataLen bitByteCount
  rw [UInt8.toNat_ofNat']
  apply Nat.mod_eq_of_lt
  rcases hlimit with ⟨hfc, rfl⟩ | ⟨hfc, rfl⟩
  all_goals
    simp only [hfc, ↓reduceIte, Bool.false_eq_true]
    simp at h
    omega

theorem writeSingleCoil_ok {pdu : List UInt8} {call : Call} (hlen : 5 ≤ pdu.length)
    (hfc : fcOf pdu = funcWriteSingleCoil)
    (h : (if qtyOf pdu ≠ coilOn ∧ qtyOf pdu ≠ coilOff then
        Except.error exIllegalDataValue
      else
        Except.ok (Call.writeBits (addrOf pdu) 1 [if qtyOf pdu = coilOn then 1 else 0])) = .ok call)
    : Requests pdu call ∧ call.WithinLimits := by
  have hpdu := eq_header_append pdu hlen
  have haddr := (addrOf pdu).toNat_lt
  rw [hfc] at hpdu
  split at h
  . contradiction
  . injection h with h
    subst h
    by_cases hon : qtyOf pdu = coilOn
    . rw [hon] at hpdu ⊢
      refine ⟨?_, by simp, by simp, by simp; omega, by simp, by simp⟩
      nth_rewrite 1 [hpdu]
      exact .coilOn _ _
    . have hoff : qtyOf pdu = coilOff := by grind
      rw [hoff] at hpdu ⊢
      refine ⟨?_, by simp, by simp, by simp; omega, by simp, by simp⟩
      nth_rewrite 1 [hpdu]
      exact .coilOff _ _

theorem writeMultipleCoils_ok {pdu : List UInt8} {call : Call} (hlen : 5 ≤ pdu.length)
    (hfc : fcOf pdu = funcWriteMultipleCoils)
    (h : checkLayout pdu maxWriteBits (.writeBits (addrOf pdu) (qtyOf pdu)
      ((Bits.unpack (payloadOf pdu) (qtyOf pdu).toNat).map Bool.toUInt8)) = .ok call)
    : Requests pdu call ∧ call.WithinLimits := by
  have hpdu := eq_header_append pdu hlen
  obtain ⟨rfl, hpos, hlimit, hrange, hlayout, hcount⟩ := checkLayout_eq_ok h
  have hfits := toNat_ofNat_dataLen (fcOf pdu) hlimit (.inl ⟨by simp [isBitFc, hfc], rfl⟩)
  have hdata : dataLen (fcOf pdu) (qtyOf pdu) = ((qtyOf pdu).toNat + 7) / 8 := by
    simp [dataLen, isBitFc, hfc, bitByteCount]
  refine ⟨?_, hpos, hlimit, hrange, by simp, ?_⟩
  . rw [drop_five_eq pdu (by omega), hfc] at hpdu
    nth_rewrite 1 [hpdu]
    apply Requests.coils
    . simp [payloadOf, hlayout, hdata]
    . rw [hcount, hfits]
      simp [payloadOf, hlayout]
  . intro bit hbit
    obtain ⟨b, -, rfl⟩ := List.mem_map.mp hbit
    exact toUInt8_eq b

theorem writeMultipleRegisters_ok {pdu : List UInt8} {call : Call} (hlen : 5 ≤ pdu.length)
    (hfc : fcOf pdu = funcWriteMultipleRegisters)
    (h : checkLayout pdu maxWriteRegisters (.writeRegisters (addrOf pdu) (qtyOf pdu)
      (registersOf (payloadOf pdu))) = .ok call)
    : Requests pdu call ∧ call.WithinLimits := by
  have hpdu := eq_header_append pdu hlen
  obtain ⟨rfl, hpos, hlimit, hrange, hlayout, hcount⟩ := checkLayout_eq_ok h
  have hfits := toNat_ofNat_dataLen (fcOf pdu) hlimit (.inr ⟨by simp [isBitFc, hfc], rfl⟩)
  have hdata : dataLen (fcOf pdu) (qtyOf pdu) = (qtyOf pdu).toNat * 2 := by
    simp [dataLen, isBitFc, hfc]
  have hpayload : (payloadOf pdu).length = (qtyOf pdu).toNat * 2 := by
    simp [payloadOf, hlayout, hdata]
  have hregs := flatMap_registersOf _ _ hpayload
  refine ⟨?_, hpos, hlimit, hrange, hregs.2⟩
  rw [drop_five_eq pdu (by omega), ← hregs.1, hfc] at hpdu
  nth_rewrite 1 [hpdu]
  apply Requests.registers _ _ _ _ hregs.2
  rw [hcount, hfits, hdata, hregs.2]

theorem requestedCall_ok {pdu : List UInt8} {call : Call} (h : requestedCall pdu = .ok call)
    (hlen : 5 ≤ pdu.length) (hfc : isRead (fcOf pdu) = true ∨ isWrite (fcOf pdu) = true)
    : Requests pdu call ∧ call.WithinLimits := by
  have hpdu := eq_header_append pdu hlen
  unfold requestedCall at h
  dsimp only at h
  split at h
  . next hbits =>
    obtain ⟨rfl, hlimits⟩ := checkRange_eq_ok h
    refine ⟨?_, hbits, hlimits⟩
    nth_rewrite 1 [hpdu]
    exact .readBits _ _ _ _ hbits
  . next hbits =>
    split at h
    . next hregs =>
      obtain ⟨rfl, hlimits⟩ := checkRange_eq_ok h
      refine ⟨?_, hregs, hlimits⟩
      nth_rewrite 1 [hpdu]
      exact .readRegisters _ _ _ _ hregs
    . next hregs =>
      split at h
      . next hcoil => exact writeSingleCoil_ok hlen hcoil h
      . next hcoil =>
        split at h
        . next hreg =>
          injection h with h
          subst h
          refine ⟨?_, by simp, by simp, ?_, by simp⟩
          . nth_rewrite 1 [hpdu]
            rw [hreg]
            exact .register _ _ _
          . have := (addrOf pdu).toNat_lt
            simp
            omega
        . next hreg =>
          split at h
          . next hcoils => exact writeMultipleCoils_ok hlen hcoils h
          . next hcoils =>
            have hlast : fcOf pdu = funcWriteMultipleRegisters := by
              simp [isRead, isWrite] at hfc
              grind
            exact writeMultipleRegisters_ok hlen hlast h

theorem respond_cases (h : Handlers σ) (locals : Locals) (pdu : List UInt8) (s : σ)
    : (∃ code, respond h locals pdu s = .exception (fcOf pdu) code s []) ∨
      ∃ call ans,
        Requests pdu call ∧ call.WithinLimits ∧ h.invoke locals call s = some ans ∧
        respond h locals pdu s
          =
        .returned (fcOf pdu) ans.rc (successResponse pdu ans.data) ans.state [call] := by
  unfold respond
  dsimp only
  split
  . exact .inl ⟨_, rfl⟩
  . next hsup =>
    split
    . exact .inl ⟨_, rfl⟩
    . next hlen =>
      split
      . exact .inl ⟨_, rfl⟩
      . cases hcall : requestedCall pdu with
        | error code => exact .inl ⟨_, rfl⟩
        | ok call =>
          cases hinvoke : h.invoke locals call s with
          | none =>
            left
            exact ⟨_, by simp only [hinvoke]; rfl⟩
          | some ans =>
            right
            have hfc : isRead (fcOf pdu) = true ∨ isWrite (fcOf pdu) = true := by
              revert hsup
              cases isRead (fcOf pdu) <;> cases isWrite (fcOf pdu) <;> simp
            have hok := requestedCall_ok hcall (by omega) hfc
            exact ⟨call, ans, hok.1, hok.2, hinvoke, by simp only [hinvoke]⟩

theorem returned_calls (fc : UInt8) (rc : Int) (success : List UInt8) (s : σ) (calls : List Call)
    : (Reply.returned fc rc success s calls).calls = calls := by
  unfold Reply.returned
  split
  . rfl
  . rfl

-- A request that makes a call is answered with what the call returns.
theorem respond_called {h : Handlers σ} {locals : Locals} {pdu : List UInt8} {s : σ} {call : Call}
    (hcall : call ∈ (respond h locals pdu s).calls)
    : Requests pdu call ∧ call.WithinLimits ∧ ∃ ans, h.invoke locals call s = some ans ∧
        respond h locals pdu s
          =
        .returned (fcOf pdu) ans.rc (successResponse pdu ans.data) ans.state [call] := by
  obtain ⟨code, heq⟩ | ⟨call', ans, hrequests, hlimits, hinvoke, heq⟩ := respond_cases h locals pdu s
  . rw [heq] at hcall
    exact absurd hcall List.not_mem_nil
  . rw [heq, returned_calls, List.mem_singleton] at hcall
    subst hcall
    exact ⟨hrequests, hlimits, ans, hinvoke, heq⟩

def Call.dataLen : Call → Nat
  | .readRegisters _ _ qty => qty.toNat * 2
  | .readBits _ _ qty => bitByteCount qty
  | _ => 0

-- The normal response to a call that handed out the bytes `data`: function code, byte count and data
-- for reads, the echo of the first five request bytes for writes.
def Call.SuccessForm (pdu data answer : List UInt8) : Call → Prop
  | .readRegisters fc _ _ | .readBits fc _ _ =>
    ∃ byteCount : UInt8, answer = fc :: byteCount :: data ∧ byteCount.toNat = data.length
  | .writeRegisters _ _ _ | .writeBits _ _ _ =>
    answer = pdu.take 5

theorem exceptionFromCallbackRc_mem (rc : Int)
    : exceptionFromCallbackRc rc ∈ [1, 2, 3, 4, 5, 6, 8, 10, 11] := by
  unfold exceptionFromCallbackRc
  split
  . next h =>
    simp at h
    rcases h with rfl | rfl | rfl | rfl | rfl | rfl | rfl | rfl | rfl
    all_goals decide
  . decide

theorem fcOf_header_append (fc : UInt8) (addr qty : UInt16) (extra : List UInt8)
    : fcOf (header fc addr qty ++ extra) = fc := by
  rfl

theorem length_invoke_data {h : Handlers σ} {locals : Locals} {call : Call} {s : σ}
    {ans : Answer σ} (hinvoke : h.invoke locals call s = some ans)
    : ans.data.length = call.dataLen := by
  unfold Handlers.invoke at hinvoke
  split at hinvoke
  all_goals
    obtain ⟨f, -, rfl⟩ := Option.map_eq_some_iff.mp hinvoke
    simp [Call.dataLen, boolsOf, bitByteCount]

theorem Call.WithinLimits.dataLen_le {call : Call} (h : call.WithinLimits)
    : call.dataLen ≤ 251 := by
  cases call with
  | readRegisters fc addr qty =>
    obtain ⟨-, -, hqty, -⟩ := h
    simp only [Call.dataLen]
    omega
  | readBits fc addr qty =>
    obtain ⟨-, -, hqty, -⟩ := h
    simp only [Call.dataLen, bitByteCount]
    omega
  | writeRegisters addr qty data => simp [Call.dataLen]
  | writeBits addr qty bits => simp [Call.dataLen]

-- The read callback hands out these registers.
def Handlers.Reads (h : Handlers σ) (locals : Locals) (s : σ) (fc : UInt8) (addr qty : UInt16)
    (data : Mem UInt16) : Prop :=
  ∃ readRegisters, h.readRegisters = some readRegisters ∧
    (readRegisters fc addr qty locals.data s).rc = 0 ∧
    (readRegisters fc addr qty locals.data s).out.slice 0 qty.toNat = data.slice 0 qty.toNat

theorem respond_reads {h : Handlers σ} {locals : Locals} {pdu : List UInt8} {s : σ} {fc : UInt8}
    {addr qty : UInt16} {data : Mem UInt16}
    (hcall : .readRegisters fc addr qty ∈ (respond h locals pdu s).calls)
    (hreads : h.Reads locals s fc addr qty data)
    : (respond h locals pdu s).bytes
        =
      fc :: UInt8.ofNat (qty.toNat * 2) :: (data.slice 0 qty.toNat).flatMap u16Bytes := by
  obtain ⟨readRegisters, hpresent, hrc, hout⟩ := hreads
  obtain ⟨hrequests, -, ans, hinvoke, heq⟩ := respond_called hcall
  unfold Handlers.invoke at hinvoke
  dsimp only at hinvoke
  rw [hpresent, Option.map_some, hout] at hinvoke
  injection hinvoke with hans
  subst hans
  rw [heq]
  cases hrequests with
  | readRegisters _ _ _ extra hfc =>
    have hread : isRead fc = true := by
      rcases hfc with rfl | rfl <;> decide
    simp [Reply.returned, hrc, successResponse, fcOf_header_append, hread]

theorem successResponse_form {pdu : List UInt8} {call : Call} {data : List UInt8}
    (hreq : Requests pdu call) (hlen : data.length < 256)
    : call.SuccessForm pdu data (successResponse pdu data) := by
  have hcount : (UInt8.ofNat data.length).toNat = data.length := by
    rw [UInt8.toNat_ofNat']
    exact Nat.mod_eq_of_lt hlen
  unfold successResponse
  cases hreq with
  | readBits fc addr qty extra hfc =>
    have hread : isRead (fcOf (header fc addr qty ++ extra)) = true := by
      rw [fcOf_header_append]
      rcases hfc with rfl | rfl <;> decide
    rw [if_pos hread]
    exact ⟨_, rfl, hcount⟩
  | readRegisters fc addr qty extra hfc =>
    have hread : isRead (fcOf (header fc addr qty ++ extra)) = true := by
      rw [fcOf_header_append]
      rcases hfc with rfl | rfl <;> decide
    rw [if_pos hread]
    exact ⟨_, rfl, hcount⟩
  | coilOn addr extra => rfl
  | coilOff addr extra => rfl
  | register addr value extra => rfl
  | coils addr qty byteCount payload hlen hcount => rfl
  | registers addr qty byteCount data hlen hcount => rfl

-- What a dispatch of the request `pdu` may leave behind: either it has not touched the application
-- and answers with an exception, or it has made the one call the request asks for.
def Validated (h : Handlers σ) (locals : Locals) (pdu : List UInt8) (s : σ)
    (answer : List UInt8) (state : σ) (calls : List Call) : Prop :=
  (calls = [] ∧ state = s ∧ ∃ code, answer = [fcOf pdu ||| exceptionFlag, code]) ∨
    ∃ call ans,
      calls = [call] ∧ Requests pdu call ∧ call.WithinLimits ∧
      h.invoke locals call s = some ans ∧ state = ans.state ∧
      (ans.rc = 0 → call.SuccessForm pdu ans.data answer) ∧
      (ans.rc ≠ 0 → ∃ code ∈ [1, 2, 3, 4, 5, 6, 8, 10, 11],
        code = exceptionFromCallbackRc ans.rc ∧ answer = [fcOf pdu ||| exceptionFlag, code])

theorem respond_validated (h : Handlers σ) (locals : Locals) (pdu : List UInt8) (s : σ)
    : Validated h locals pdu s (respond h locals pdu s).bytes (respond h locals pdu s).state
        (respond h locals pdu s).calls := by
  obtain ⟨code, heq⟩ | ⟨call, ans, hreq, hlimits, hinvoke, heq⟩ := respond_cases h locals pdu s
  . left
    rw [heq]
    exact ⟨rfl, rfl, code, rfl⟩
  . right
    have hlen := length_invoke_data hinvoke
    have hle := hlimits.dataLen_le
    rw [heq]
    unfold Reply.returned
    refine ⟨call, ans, ?_, hreq, hlimits, hinvoke, ?_, ?_, ?_⟩
    . split <;> rfl
    . split <;> rfl
    . intro hrc
      rw [if_neg (by simp [hrc])]
      exact successResponse_form hreq (by omega)
    . intro hrc
      rw [if_pos hrc]
      exact ⟨_, exceptionFromCallbackRc_mem ans.rc, rfl, rfl⟩

theorem length_respond (h : Handlers σ) (locals : Locals) (pdu : List UInt8) (s : σ)
    : 1 ≤ (respond h locals pdu s).bytes.length ∧ (respond h locals pdu s).bytes.length ≤ 253 := by
  obtain ⟨code, heq⟩ | ⟨call, ans, hreq, hlimits, hinvoke, heq⟩ := respond_cases h locals pdu s
  . rw [heq]
    exact ⟨by simp [Reply.exception], by simp [Reply.exception]⟩
  . have hlen := length_invoke_data hinvoke
    have hle := hlimits.dataLen_le
    rw [heq]
    unfold Reply.returned
    split
    . exact ⟨by simp [Reply.exception], by simp [Reply.exception]⟩
    . unfold successResponse
      split
      . simp
        omega
      . have hpos : 1 ≤ pdu.length := by
          cases hreq
          all_goals simp [header]
        simp
        omega

theorem handleRequest_validated (h : Handlers σ) (locals : Locals) (req resp : Mem UInt8)
    (n : Nat) (s : σ)
    : Validated h locals (req.slice 0 (n + 1)) s
        ((handleRequest h locals req (n + 1) resp s).resp.slice 0
          (handleRequest h locals req (n + 1) resp s).len)
        (handleRequest h locals req (n + 1) resp s).state
        (handleRequest h locals req (n + 1) resp s).calls := by
  rw [handleRequest_eq_respond _ _ _ _ _ _ (by omega)]
  unfold Reply.store
  rw [Mem.slice_write_same]
  exact respond_validated h locals (req.slice 0 (n + 1)) s

end Pdu
