import ModbusProtocol.Pdu.Spec

/-!
This module contains the refinement of the dispatch: `handleRequest` stores the bytes of `respond`,
makes its calls and leaves its state.
-/

open Modbus

namespace Pdu

variable {σ : Type}

theorem getD_slice (m : Mem UInt8) (len i : Nat) (h : i < len)
    : (m.slice 0 len).getD i 0 = m i := by
  simp [Mem.getElem?_slice _ _ _ _ h]

theorem fcOf_slice (m : Mem UInt8) (len : Nat) (h : 1 ≤ len)
    : fcOf (m.slice 0 len) = m 0 := by
  unfold fcOf
  rw [getD_slice _ _ _ h]

theorem addrOf_slice (m : Mem UInt8) (len : Nat) (h : 5 ≤ len)
    : addrOf (m.slice 0 len) = getU16 (m.shift 1) := by
  unfold addrOf
  rw [getD_slice _ _ _ (by omega), getD_slice _ _ _ (by omega)]
  rfl

theorem qtyOf_slice (m : Mem UInt8) (len : Nat) (h : 5 ≤ len)
    : qtyOf (m.slice 0 len) = getU16 (m.shift 3) := by
  unfold qtyOf
  rw [getD_slice _ _ _ (by omega), getD_slice _ _ _ (by omega)]
  rfl

theorem of_buildException (resp : Mem UInt8) (fc code : UInt8) (s : σ) (calls : List Call)
    : Outcome.of (buildException resp fc code) s calls
        =
      (Reply.exception fc code s calls).store resp := by
  unfold buildException Outcome.of Reply.exception Reply.store
  simp only [Mem.set_eq_write]
  rw [Mem.write_write _ _ _ (by rfl)]
  rfl

theorem of_buildWriteEcho (req resp : Mem UInt8) (reqLen : Nat) (h : 5 ≤ reqLen) (s : σ)
    (calls : List Call)
    : Outcome.of (buildWriteEcho req resp) s calls
        =
      Reply.store ⟨(req.slice 0 reqLen).take 5, s, calls⟩ resp := by
  unfold buildWriteEcho Outcome.of Reply.store
  rw [Mem.take_slice _ _ _ _ h]
  simp

-- What every handler does once its callback has returned.
theorem returned_store (fc : UInt8) (rc : Int) (success : List UInt8) (s : σ) (calls : List Call)
    (resp : Mem UInt8) (out : Outcome σ) (hout : out = Reply.store ⟨success, s, calls⟩ resp)
    : (if rc ≠ 0 then
        Outcome.of (buildException resp fc (exceptionFromCallbackRc rc)) s calls
      else
        out)
        =
      (Reply.returned fc rc success s calls).store resp := by
  unfold Reply.returned
  split
  . rw [of_buildException]
  . rw [hout]

-- What is left of `respond` for a request that is long enough to be looked at.
theorem respond_of_supported (h : Handlers σ) (locals : Locals) (pdu : List UInt8) (s : σ)
    (hfc : isRead (fcOf pdu) = true ∨ isWrite (fcOf pdu) = true) (hlen : 5 ≤ pdu.length)
    : respond h locals pdu s
        =
      if !h.present (fcOf pdu) then
        .exception (fcOf pdu) exIllegalFunction s []
      else
        match requestedCall pdu with
        | .error code => .exception (fcOf pdu) code s []
        | .ok call =>
          match h.invoke locals call s with
          | none => .exception (fcOf pdu) exIllegalFunction s []
          | some ans =>
            .returned (fcOf pdu) ans.rc (successResponse pdu ans.data) ans.state [call] := by
  have hnlt : ¬pdu.length < 5 := by omega
  have hsup : (!isRead (fcOf pdu) && !isWrite (fcOf pdu)) = false := by
    cases hfc with
    | inl hfc => simp [hfc]
    | inr hfc => simp [hfc]
  unfold respond
  apply (if_neg (by simp [hsup])).trans
  apply if_neg hnlt

theorem Handlers.Fills.invoke {h : Handlers σ} (hfills : h.Fills) (locals locals' : Locals)
    {call : Call} {s : σ} {ans : Answer σ} (hinvoke : h.invoke locals call s = some ans)
    : ∃ ans', h.invoke locals' call s = some ans' ∧ ans'.rc = ans.rc ∧ ans'.state = ans.state ∧
        (ans.rc = 0 → ans'.data = ans.data) := by
  unfold Handlers.invoke at hinvoke ⊢
  cases call with
  | readRegisters fc addr qty =>
    obtain ⟨readRegisters, hread, rfl⟩ := Option.map_eq_some_iff.mp hinvoke
    obtain ⟨hrc, hstate, hdata⟩ :=
      hfills.registers readRegisters hread fc addr qty locals.data locals'.data s
    dsimp only
    rw [hread]
    refine ⟨_, rfl, hrc.symm, hstate.symm, ?_⟩
    intro hzero
    dsimp only
    rw [hdata hzero]
  | readBits fc addr qty =>
    obtain ⟨readBits, hread, rfl⟩ := Option.map_eq_some_iff.mp hinvoke
    have hzeros : ∀ bits : Mem UInt8, (bits.write 0 (List.replicate qty.toNat 0)).slice 0 qty.toNat
        = List.replicate qty.toNat 0 := by
      intro bits
      have hslice := Mem.slice_write_same bits 0 (List.replicate qty.toNat 0)
      rw [List.length_replicate] at hslice
      exact hslice
    obtain ⟨hrc, hstate, hdata⟩ := hfills.bits readBits hread fc addr qty _ _ s
      ((hzeros locals.bits).trans (hzeros locals'.bits).symm)
    dsimp only
    rw [hread]
    refine ⟨_, rfl, hrc.symm, hstate.symm, ?_⟩
    intro hzero
    dsimp only
    rw [hdata hzero]
  | writeRegisters addr qty data => exact ⟨ans, hinvoke, rfl, rfl, fun _ => rfl⟩
  | writeBits addr qty bits => exact ⟨ans, hinvoke, rfl, rfl, fun _ => rfl⟩

-- What the local arrays hold before the dispatch makes no difference.
theorem Handlers.Fills.respond {h : Handlers σ} (hfills : h.Fills) (locals locals' : Locals)
    (pdu : List UInt8) (s : σ)
    : Pdu.respond h locals pdu s = Pdu.respond h locals' pdu s := by
  unfold Pdu.respond
  dsimp only
  congr 3
  cases hcall : requestedCall pdu with
  | error code => rfl
  | ok call =>
    dsimp only
    cases hinvoke : h.invoke locals call s with
    | none =>
      cases hinvoke' : h.invoke locals' call s with
      | none => rfl
      | some ans =>
        obtain ⟨_, hsome, -⟩ := hfills.invoke locals' locals hinvoke'
        rw [hinvoke] at hsome
        contradiction
    | some ans =>
      obtain ⟨ans', hinvoke', hrc, hstate, hdata⟩ := hfills.invoke locals locals' hinvoke
      rw [hinvoke']
      dsimp only
      unfold Reply.returned
      rw [hrc, hstate]
      split
      . rfl
      . next hzero => rw [hdata (Decidable.not_not.mp hzero)]

theorem handleReadRegisters_eq (h : Handlers σ) (locals : Locals) (pdu : List UInt8)
    (resp : Mem UInt8) (s : σ)
    (hfc : fcOf pdu = funcReadHoldingRegisters ∨ fcOf pdu = funcReadInputRegisters)
    (hlen : 5 ≤ pdu.length)
    : handleReadRegisters h locals (fcOf pdu) (addrOf pdu) (qtyOf pdu) resp s
        =
      (respond h locals pdu s).store resp := by
  have hread : isRead (fcOf pdu) = true := by
    cases hfc with
    | inl hfc => simp [isRead, hfc]
    | inr hfc => simp [isRead, hfc]
  have hpresent : h.present (fcOf pdu) = h.readRegisters.isSome := by
    cases hfc with
    | inl hfc => simp [Handlers.present, hfc]
    | inr hfc => simp [Handlers.present, hfc]
  have hcall : requestedCall pdu = checkRange (addrOf pdu) (qtyOf pdu) maxReadRegisters
      (.readRegisters (fcOf pdu) (addrOf pdu) (qtyOf pdu)) := by
    cases hfc with
    | inl hfc => simp [requestedCall, hfc]
    | inr hfc => simp [requestedCall, hfc]
  rw [respond_of_supported _ _ _ _ (.inl hread) hlen]
  rw [hpresent, hcall]
  unfold handleReadRegisters checkRange
  cases hcb : h.readRegisters with
  | none => simp [of_buildException]
  | some readRegisters =>
    simp only [Option.isSome_some, Bool.not_true, Bool.false_eq_true, ↓reduceIte]
    split
    . rw [of_buildException]
    . split
      . rw [of_buildException]
      . dsimp only
        simp only [Handlers.invoke, hcb, Option.map_some]
        apply returned_store
        simp only [successResponse, hread, ↓reduceIte, Outcome.of, Reply.store, Mem.set_eq_write,
          putRegisters_eq_write, Mem.splice_write_shift, offsetFc, offsetReadByteCount,
          offsetReadData, Nat.add_zero]
        rw [Mem.write_write _ _ _ (by rfl)]
        rw [Mem.write_write _ _ _ (by rfl)]
        simp
        omega

theorem handleReadBits_eq (h : Handlers σ) (locals : Locals) (pdu : List UInt8)
    (resp : Mem UInt8) (s : σ)
    (hfc : fcOf pdu = funcReadCoils ∨ fcOf pdu = funcReadDiscreteInputs)
    (hlen : 5 ≤ pdu.length)
    : handleReadBits h locals (fcOf pdu) (addrOf pdu) (qtyOf pdu) resp s
        =
      (respond h locals pdu s).store resp := by
  have hread : isRead (fcOf pdu) = true := by
    cases hfc with
    | inl hfc => simp [isRead, hfc]
    | inr hfc => simp [isRead, hfc]
  have hpresent : h.present (fcOf pdu) = h.readBits.isSome := by
    cases hfc with
    | inl hfc => simp [Handlers.present, hfc]
    | inr hfc => simp [Handlers.present, hfc]
  have hcall : requestedCall pdu = checkRange (addrOf pdu) (qtyOf pdu) maxReadBits
      (.readBits (fcOf pdu) (addrOf pdu) (qtyOf pdu)) := by
    cases hfc with
    | inl hfc => simp [requestedCall, hfc]
    | inr hfc => simp [requestedCall, hfc]
  rw [respond_of_supported _ _ _ _ (.inl hread) hlen]
  rw [hpresent, hcall]
  unfold handleReadBits checkRange
  cases hcb : h.readBits with
  | none => simp [of_buildException]
  | some readBits =>
    simp only [Option.isSome_some, Bool.not_true, Bool.false_eq_true, ↓reduceIte]
    split
    . rw [of_buildException]
    . split
      . rw [of_buildException]
      . dsimp only
        simp only [Handlers.invoke, hcb, Option.map_some]
        apply returned_store
        simp only [successResponse, hread, ↓reduceIte, Outcome.of, Reply.store, Mem.set_eq_write,
          packBits_eq_write, Mem.splice_write_shift, offsetFc, offsetReadByteCount,
          offsetReadData, Nat.add_zero]
        rw [Mem.write_write _ _ _ (by rfl)]
        rw [Mem.write_write _ _ _ (by rfl)]
        simp [boolsOf, bitByteCount]
        omega

theorem handleWriteSingleCoil_eq (h : Handlers σ) (locals : Locals) (req resp : Mem UInt8)
    (reqLen : Nat) (s : σ) (hfc : req 0 = funcWriteSingleCoil) (hlen : 5 ≤ reqLen)
    : handleWriteSingleCoil h req resp s
        =
      (respond h locals (req.slice 0 reqLen) s).store resp := by
  generalize hpdu : req.slice 0 reqLen = pdu
  have hfc' : fcOf pdu = funcWriteSingleCoil := by
    rw [← hpdu, fcOf_slice _ _ (by omega), hfc]
  have hpresent : h.present (fcOf pdu) = h.writeBits.isSome := by
    simp [Handlers.present, hfc']
  have hcall : requestedCall pdu
      = if qtyOf pdu ≠ coilOn ∧ qtyOf pdu ≠ coilOff then .error exIllegalDataValue
        else .ok (.writeBits (addrOf pdu) 1 [if qtyOf pdu = coilOn then 1 else 0]) := by
    simp [requestedCall, hfc']
  rw [respond_of_supported _ _ _ _ (.inr (by simp [isWrite, hfc'])) (by simpa [← hpdu] using hlen)]
  rw [hpresent, hcall]
  have haddr : getU16 (req.shift 1) = addrOf pdu := by rw [← hpdu, addrOf_slice _ _ hlen]
  have hqty : getU16 (req.shift 3) = qtyOf pdu := by rw [← hpdu, qtyOf_slice _ _ hlen]
  unfold handleWriteSingleCoil
  simp only [offsetFc, offsetAddr, offsetQty, haddr, hqty, hfc, hfc']
  cases hcb : h.writeBits with
  | none => simp [of_buildException]
  | some writeBits =>
    simp only [Option.isSome_some, Bool.not_true, Bool.false_eq_true, ↓reduceIte]
    split
    . rw [of_buildException]
    . simp only [Handlers.invoke, hcb, Option.map_some]
      apply returned_store
      rw [of_buildWriteEcho _ _ _ hlen, hpdu]
      simp [successResponse, isRead, hfc']

theorem handleWriteSingleRegister_eq (h : Handlers σ) (locals : Locals) (req resp : Mem UInt8)
    (reqLen : Nat) (s : σ) (hfc : req 0 = funcWriteSingleRegister) (hlen : 5 ≤ reqLen)
    : handleWriteSingleRegister h req resp s
        =
      (respond h locals (req.slice 0 reqLen) s).store resp := by
  generalize hpdu : req.slice 0 reqLen = pdu
  have hfc' : fcOf pdu = funcWriteSingleRegister := by
    rw [← hpdu, fcOf_slice _ _ (by omega), hfc]
  have hpresent : h.present (fcOf pdu) = h.writeRegisters.isSome := by
    simp [Handlers.present, hfc']
  have hcall : requestedCall pdu = .ok (.writeRegisters (addrOf pdu) 1 [qtyOf pdu]) := by
    simp [requestedCall, hfc']
  rw [respond_of_supported _ _ _ _ (.inr (by simp [isWrite, hfc'])) (by simpa [← hpdu] using hlen)]
  rw [hpresent, hcall]
  have haddr : getU16 (req.shift 1) = addrOf pdu := by rw [← hpdu, addrOf_slice _ _ hlen]
  have hqty : getU16 (req.shift 3) = qtyOf pdu := by rw [← hpdu, qtyOf_slice _ _ hlen]
  unfold handleWriteSingleRegister
  simp only [offsetFc, offsetAddr, offsetQty, haddr, hqty, hfc, hfc']
  cases hcb : h.writeRegisters with
  | none => simp [of_buildException]
  | some writeRegisters =>
    simp only [Option.isSome_some, Bool.not_true, Bool.false_eq_true, ↓reduceIte]
    simp only [Handlers.invoke, hcb, Option.map_some]
    apply returned_store
    rw [of_buildWriteEcho _ _ _ hlen, hpdu]
    simp [successResponse, isRead, hfc']

theorem checkLayout_eq (req : Mem UInt8) (reqLen limit : Nat) (call : Call) (hlen : 5 ≤ reqLen)
    (hfc : req 0 = funcWriteMultipleCoils ∧ limit = maxWriteBits
      ∨ req 0 = funcWriteMultipleRegisters ∧ limit = maxWriteRegisters)
    : checkLayout (req.slice 0 reqLen) limit call
        =
      match checkWriteMultiple req reqLen with
      | some ex => .error ex
      | none => .ok call := by
  have h5 : ¬reqLen ≤ 5 → (req.slice 0 reqLen).getD 5 0 = req 5 := by
    intro h5
    exact getD_slice _ _ _ (by omega)
  unfold checkLayout checkWriteMultiple
  simp only [fcOf_slice _ _ (show 1 ≤ reqLen by omega), addrOf_slice _ _ hlen, qtyOf_slice _ _ hlen,
    offsetFc, offsetAddr, offsetQty, offsetByteCount, offsetWriteData, Mem.length_slice, dataLen]
  have hnot : ¬(funcWriteMultipleRegisters = funcWriteMultipleCoils) := by decide
  cases hfc with
  | inl hfc =>
    simp only [hfc.1, hfc.2, isBitFc, or_true, decide_true, ↓reduceIte]
    split
    . rfl
    . next hshort =>
      rw [h5 (by omega)]
      split
      . rfl
      . by_cases hrange : rangeOverflows (getU16 (req.shift 1)) (getU16 (req.shift 3))
        . simp [hrange]
        . simp [hrange]
  | inr hfc =>
    simp only [hfc.1, hfc.2, hnot, show isBitFc funcWriteMultipleRegisters = false by decide,
      Bool.false_eq_true, ↓reduceIte]
    split
    . rfl
    . next hshort =>
      rw [h5 (by omega)]
      split
      . rfl
      . by_cases hrange : rangeOverflows (getU16 (req.shift 1)) (getU16 (req.shift 3))
        . simp [hrange]
        . simp [hrange]

theorem checkWriteMultiple_eq_none {req : Mem UInt8} {reqLen : Nat}
    (h : checkWriteMultiple req reqLen = none)
    : reqLen = 6 + (if req 0 = funcWriteMultipleCoils then bitByteCount (getU16 (req.shift 3))
        else (getU16 (req.shift 3)).toNat * 2) := by
  unfold checkWriteMultiple at h
  dsimp only [offsetFc, offsetQty, offsetByteCount, offsetWriteData] at h
  by_cases hfc : req 0 = funcWriteMultipleCoils
  . simp only [hfc, ↓reduceIte] at h ⊢
    split at h
    . contradiction
    . split at h
      . contradiction
      . next hlayout =>
        simp only [not_or, ne_eq, not_not] at hlayout
        exact hlayout.2
  . simp only [hfc, ↓reduceIte] at h ⊢
    split at h
    . contradiction
    . split at h
      . contradiction
      . next hlayout =>
        simp only [not_or, ne_eq, not_not] at hlayout
        exact hlayout.2

theorem payloadOf_slice (req : Mem UInt8) (n : Nat)
    : payloadOf (req.slice 0 (6 + n)) = (req.shift 6).slice 0 n := by
  unfold payloadOf
  rw [Mem.drop_slice _ _ _ _ (by omega)]
  simp

theorem handleWriteMultiple_eq (h : Handlers σ) (locals : Locals) (req resp : Mem UInt8)
    (reqLen : Nat) (s : σ)
    (hfc : req 0 = funcWriteMultipleCoils ∨ req 0 = funcWriteMultipleRegisters) (hlen : 5 ≤ reqLen)
    : handleWriteMultiple h locals req reqLen resp s
        =
      (respond h locals (req.slice 0 reqLen) s).store resp := by
  have hfc' : fcOf (req.slice 0 reqLen) = req 0 := fcOf_slice _ _ (by omega)
  have hwrite : isRead (req 0) = false ∧ isWrite (req 0) = true := by
    cases hfc with
    | inl hfc => simp [isRead, isWrite, hfc]
    | inr hfc => simp [isRead, isWrite, hfc]
  rw [respond_of_supported _ _ _ _ (.inr (by rw [hfc', hwrite.2])) (by simpa using hlen)]
  unfold handleWriteMultiple
  simp only [offsetFc, offsetAddr, offsetQty, offsetWriteData, hfc']
  cases hfc with
  | inl hfc =>
    have hpresent : h.present (req 0) = h.writeBits.isSome := by simp [Handlers.present, hfc]
    have hcall : requestedCall (req.slice 0 reqLen)
        = checkLayout (req.slice 0 reqLen) maxWriteBits (.writeBits (getU16 (req.shift 1))
            (getU16 (req.shift 3)) ((Bits.unpack (payloadOf (req.slice 0 reqLen))
              (getU16 (req.shift 3)).toNat).map Bool.toUInt8)) := by
      simp [requestedCall, hfc', hfc, addrOf_slice _ _ hlen, qtyOf_slice _ _ hlen]
    rw [hpresent, hcall, checkLayout_eq _ _ _ _ hlen (.inl ⟨hfc, rfl⟩)]
    simp only [hfc, ↓reduceIte]
    cases hcb : h.writeBits with
    | none => simp [of_buildException]
    | some writeBits =>
      simp only [Option.isSome_some, Bool.not_true, Bool.false_eq_true, ↓reduceIte]
      cases hcheck : checkWriteMultiple req reqLen with
      | some ex => simp [of_buildException]
      | none =>
        have hn := checkWriteMultiple_eq_none hcheck
        simp only [hfc, ↓reduceIte] at hn
        simp only [Handlers.invoke, hcb, Option.map_some, unpackBits_eq_write]
        rw [Mem.slice_write_prefix _ _ _ _ (by simp), hn, payloadOf_slice]
        rw [List.take_of_length_le (by simp)]
        apply returned_store
        rw [of_buildWriteEcho _ _ _ (hn ▸ hlen)]
        simp [successResponse, isRead, hfc', hfc, ← hn]
  | inr hfc =>
    have hpresent : h.present (req 0) = h.writeRegisters.isSome := by simp [Handlers.present, hfc]
    have hcall : requestedCall (req.slice 0 reqLen)
        = checkLayout (req.slice 0 reqLen) maxWriteRegisters (.writeRegisters
            (getU16 (req.shift 1)) (getU16 (req.shift 3))
            (registersOf (payloadOf (req.slice 0 reqLen)))) := by
      simp [requestedCall, hfc', hfc, addrOf_slice _ _ hlen, qtyOf_slice _ _ hlen]
    have hnot : ¬(funcWriteMultipleRegisters = funcWriteMultipleCoils) := by decide
    rw [hpresent, hcall, checkLayout_eq _ _ _ _ hlen (.inr ⟨hfc, rfl⟩)]
    simp only [hfc, hnot, ↓reduceIte]
    cases hcb : h.writeRegisters with
    | none => simp [of_buildException]
    | some writeRegisters =>
      simp only [Option.isSome_some, Bool.not_true, Bool.false_eq_true, ↓reduceIte]
      cases hcheck : checkWriteMultiple req reqLen with
      | some ex => simp [of_buildException]
      | none =>
        have hn := checkWriteMultiple_eq_none hcheck
        simp only [hfc, hnot, ↓reduceIte] at hn
        simp only [Handlers.invoke, hcb, Option.map_some, Mem.foldl_set]
        rw [Mem.slice_write_prefix _ _ _ _ (by simp), hn, payloadOf_slice, registersOf_slice]
        rw [List.take_of_length_le (by simp)]
        simp only [Nat.zero_add]
        apply returned_store
        rw [of_buildWriteEcho _ _ _ (hn ▸ hlen)]
        simp [successResponse, isRead, hfc', hfc, ← hn]

theorem handleRequest_eq_respond (h : Handlers σ) (locals : Locals) (req resp : Mem UInt8)
    (reqLen : Nat) (s : σ) (hlen : 1 ≤ reqLen)
    : handleRequest h locals req reqLen resp s
        =
      (respond h locals (req.slice 0 reqLen) s).store resp := by
  have hfc : fcOf (req.slice 0 reqLen) = req 0 := fcOf_slice _ _ hlen
  unfold handleRequest
  dsimp only [offsetFc, offsetAddr, offsetQty, fixedReqLen]
  split
  . next hsup => simp [respond, hfc, hsup, of_buildException]
  . next hsup =>
    split
    . next hlt =>
      simp only [respond, hfc, hsup, Mem.length_slice, hlt, Bool.false_eq_true, ↓reduceIte]
      rw [of_buildException]
    . next hlt =>
      have hlen : 5 ≤ reqLen := by omega
      rw [← hfc, ← addrOf_slice _ _ hlen, ← qtyOf_slice _ _ hlen]
      split
      . next hbits => exact handleReadBits_eq _ _ _ _ _ hbits (by simpa using hlen)
      . split
        . next hregs => exact handleReadRegisters_eq _ _ _ _ _ hregs (by simpa using hlen)
        . split
          . next hcoil => exact handleWriteSingleCoil_eq _ _ _ _ _ _ (hfc ▸ hcoil) hlen
          . split
            . next hreg => exact handleWriteSingleRegister_eq _ _ _ _ _ _ (hfc ▸ hreg) hlen
            . apply handleWriteMultiple_eq _ _ _ _ _ _ _ hlen
              rw [hfc] at *
              simp [isRead, isWrite] at *
              grind

end Pdu
