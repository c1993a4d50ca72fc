import ModbusProtocol.Pdu.Lemmas.Response
import ModbusProtocol.Pdu.Lemmas.Validation
import ModbusProtocol.Pdu.Operation

/-!
This module contains the composition of the two ends: encoding a client operation, dispatching it and
validating and decoding the response amounts to calling the callback directly.
-/

open Modbus

namespace Pdu

variable {σ : Type}

structure Result (σ : Type) where
  rc : Int
  out : Out
  state : σ
  calls : List Call

def remoteCall (h : Handlers σ) (locals : Locals) (op : Operation) (pdu resp : Mem UInt8)
    (out : Out) (s : σ) : Result σ :=
  let req := op.build pdu
  let reply := handleRequest h locals req.1 req.2 resp s
  let rc := checkResponse req.1 reply.resp reply.len
  ⟨rc, if rc = 0 then op.decode reply.resp out else out, reply.state, reply.calls⟩

def normalise (value : UInt8) : UInt8 :=
  if value ≠ 0 then 1 else 0

def mappedException (rc : Int) : Int :=
  if rc ∈ [1, 2, 3, 4, 5, 6, 8, 10, 11] then rc else 4

namespace Operation

def overflows : Operation → Prop
  | .readBits _ addr qty .. | .readRegisters _ addr qty .. | .writeMultipleCoils addr qty .. |
    .writeMultipleRegisters addr qty .. => addr.toNat + qty.toNat > 65536
  | _ => False

instance (op : Operation) : Decidable op.overflows := by
  unfold overflows
  split <;> infer_instance

def call : Operation → Call
  | .readBits fc addr qty .. => .readBits fc addr qty
  | .readRegisters fc addr qty .. => .readRegisters fc addr qty
  | .writeSingleCoil addr value => .writeBits addr 1 [normalise value]
  | .writeSingleRegister addr value => .writeRegisters addr 1 [value]
  | .writeMultipleCoils addr qty values .. =>
    .writeBits addr qty ((values.slice 0 qty.toNat).map normalise)
  | .writeMultipleRegisters addr qty data .. => .writeRegisters addr qty (data.slice 0 qty.toNat)

end Operation

structure Direct (σ : Type) where
  rc : Int
  out : Out
  state : σ

-- The callback of an operation, called with the client's own arguments and handing its data straight
-- to the client's buffer, or `none` when the server has no such callback.
def Handlers.callDirectly (h : Handlers σ) (locals : Locals) (op : Operation) (out : Out) (s : σ)
    : Option (Direct σ) :=
  match op with
  | .readBits fc addr qty .. =>
    h.readBits.map fun readBits =>
      let ret := readBits fc addr qty (locals.bits.write 0 (List.replicate qty.toNat 0)) s
      let bits := out.bits.write 0 ((ret.out.slice 0 qty.toNat).map normalise)
      ⟨ret.rc, { out with bits := bits }, ret.state⟩
  | .readRegisters fc addr qty .. =>
    h.readRegisters.map fun readRegisters =>
      let ret := readRegisters fc addr qty locals.data s
      let registers := out.registers.write 0 (ret.out.slice 0 qty.toNat)
      ⟨ret.rc, { out with registers := registers }, ret.state⟩
  | .writeSingleCoil addr value =>
    h.writeBits.map fun writeBits =>
      let ret := writeBits addr 1 [normalise value] s
      ⟨ret.rc, out, ret.state⟩
  | .writeSingleRegister addr value =>
    h.writeRegisters.map fun writeRegisters =>
      let ret := writeRegisters addr 1 [value] s
      ⟨ret.rc, out, ret.state⟩
  | .writeMultipleCoils addr qty values .. =>
    h.writeBits.map fun writeBits =>
      let ret := writeBits addr qty ((values.slice 0 qty.toNat).map normalise) s
      ⟨ret.rc, out, ret.state⟩
  | .writeMultipleRegisters addr qty data .. =>
    h.writeRegisters.map fun writeRegisters =>
      let ret := writeRegisters addr qty (data.slice 0 qty.toNat) s
      ⟨ret.rc, out, ret.state⟩

def directCall (h : Handlers σ) (locals : Locals) (op : Operation) (out : Out) (s : σ)
    : Result σ :=
  match h.callDirectly locals op out s with
  | none => ⟨1, out, s, []⟩
  | some ret =>
    if op.overflows then
      ⟨2, out, s, []⟩
    else if ret.rc = 0 then
      ⟨0, ret.out, ret.state, [op.call]⟩
    else
      ⟨mappedException ret.rc, out, ret.state, [op.call]⟩

theorem exceptionFromCallbackRc_eq (rc : Int)
    : ((exceptionFromCallbackRc rc).toNat : Int) = mappedException rc := by
  unfold exceptionFromCallbackRc mappedException
  split
  . next h =>
    simp at h
    rcases h with rfl | rfl | rfl | rfl | rfl | rfl | rfl | rfl | rfl
    all_goals decide
  . next h =>
    rw [if_neg (by simpa using h)]
    decide

theorem exceptionFromCallbackRc_ne_zero (rc : Int)
    : exceptionFromCallbackRc rc ≠ 0 := by
  intro h
  have := exceptionFromCallbackRc_mem rc
  rw [h] at this
  revert this
  decide

theorem toUInt8_ne_zero (value : UInt8)
    : (value != 0).toUInt8 = normalise value := by
  unfold normalise
  split
  . next h =>
    rw [bne_iff_ne.mpr h]
    rfl
  . next h =>
    rw [bne_eq_false_iff_eq.mpr (by simpa using h)]
    rfl

theorem unpack_boolsOf (values : List UInt8) (n : Nat) (h : n = values.length)
    : (Bits.unpack (Bits.pack (boolsOf values)) n).map Bool.toUInt8 = values.map normalise := by
  have hlen : n = (boolsOf values).length := by simpa [boolsOf] using h
  rw [hlen, Bits.unpack_pack]
  simp [boolsOf, toUInt8_ne_zero]

namespace Operation

theorem fcOf_bytes (op : Operation)
    : fcOf op.bytes = op.fc := by
  rfl

theorem addrOf_bytes (op : Operation)
    : addrOf op.bytes = op.addr := by
  exact u16Of_u16Bytes op.addr

theorem qtyOf_bytes (op : Operation)
    : qtyOf op.bytes = op.qty := by
  exact u16Of_u16Bytes op.qty

theorem present_iff (op : Operation) (h : Handlers σ) (locals : Locals) (s : σ)
    : h.present op.fc = (h.invoke locals op.call s).isSome := by
  cases op with
  | readBits fc addr qty hfc hpos hmax =>
    rcases hfc with rfl | rfl <;> simp [fc, Handlers.present, Handlers.invoke, call]
  | readRegisters fc addr qty hfc hpos hmax =>
    rcases hfc with rfl | rfl <;> simp [fc, Handlers.present, Handlers.invoke, call]
  | _ => simp [fc, Handlers.present, Handlers.invoke, call]

theorem checkRange_eq (addr qty : UInt16) (limit : Nat) (call : Call) (hpos : 1 ≤ qty.toNat)
    (hmax : qty.toNat ≤ limit)
    : checkRange addr qty limit call
        =
      if addr.toNat + qty.toNat > 65536 then .error exIllegalDataAddress else .ok call := by
  have hne : qty ≠ 0 := by
    intro hzero
    simp [hzero] at hpos
  unfold checkRange
  rw [if_neg (by simp [hne]; omega), rangeOverflows_eq]
  simp

theorem checkLayout_header (fc : UInt8) (addr qty : UInt16) (data : List UInt8) (limit : Nat)
    (call : Call) (hdata : data.length = dataLen fc qty) (hpos : 1 ≤ qty.toNat)
    (hmax : qty.toNat ≤ limit)
    : checkLayout (header fc addr qty ++ UInt8.ofNat (dataLen fc qty) :: data) limit call
        =
      if addr.toNat + qty.toNat > 65536 then .error exIllegalDataAddress else .ok call := by
  generalize hpdu : header fc addr qty ++ UInt8.ofNat (dataLen fc qty) :: data = pdu
  have hne : qty ≠ 0 := by
    intro hzero
    simp [hzero] at hpos
  have hlen : pdu.length = 6 + dataLen fc qty := by
    simp [← hpdu, header, hdata]
    omega
  have hcount : pdu.getD 5 0 = UInt8.ofNat (dataLen fc qty) := by
    rw [← hpdu]
    rfl
  have hfc : fcOf pdu = fc := by
    rw [← hpdu]
    rfl
  have haddr : addrOf pdu = addr := by
    rw [← hpdu]
    exact u16Of_u16Bytes addr
  have hqty : qtyOf pdu = qty := by
    rw [← hpdu]
    exact u16Of_u16Bytes qty
  unfold checkLayout
  rw [hqty, haddr, hfc, hlen, hcount]
  rw [if_neg (by simp [hne]; omega), if_neg (by simp), rangeOverflows_eq]
  simp

theorem requestedCall_bytes (op : Operation)
    : requestedCall op.bytes
        =
      if op.overflows then .error exIllegalDataAddress else .ok op.call := by
  unfold requestedCall
  rw [fcOf_bytes, addrOf_bytes, qtyOf_bytes]
  dsimp only
  cases op with
  | readBits fc addr qty hfc hpos hmax =>
    rw [if_pos (by exact hfc), checkRange_eq _ _ _ _ (by exact hpos) (by exact hmax)]
    rfl
  | readRegisters fc addr qty hfc hpos hmax =>
    rw [if_neg (by rcases hfc with rfl | rfl <;> simp [Operation.fc]), if_pos (by exact hfc)]
    rw [checkRange_eq _ _ _ _ (by exact hpos) (by exact hmax)]
    rfl
  | writeSingleCoil addr value =>
    by_cases h : value = 0
    . simp [fc, Operation.qty, h, call, normalise, overflows, Operation.addr]
    . simp [fc, Operation.qty, h, call, normalise, overflows, Operation.addr]
  | writeSingleRegister addr value => simp [fc, Operation.qty, call, overflows, Operation.addr]
  | writeMultipleCoils addr qty values hpos hmax =>
    have hdata : (Bits.pack (boolsOf (values.slice 0 qty.toNat))).length = bitByteCount qty := by
      simp [boolsOf, bitByteCount]
    have hpayload : payloadOf (bytes (.writeMultipleCoils addr qty values hpos hmax))
        = Bits.pack (boolsOf (values.slice 0 qty.toNat)) := by
      rfl
    rw [hpayload, unpack_boolsOf _ _ (by simp [Operation.qty])]
    exact checkLayout_header _ _ _ _ _ _ hdata hpos hmax
  | writeMultipleRegisters addr qty data hpos hmax =>
    have hdata : ((data.slice 0 qty.toNat).flatMap u16Bytes).length = qty.toNat * 2 := by
      simp
    have hpayload : payloadOf (bytes (.writeMultipleRegisters addr qty data hpos hmax))
        = (data.slice 0 qty.toNat).flatMap u16Bytes := by
      rfl
    rw [hpayload, registersOf_flatMap]
    exact checkLayout_header _ _ _ _ _ _ hdata hpos hmax

theorem respond_bytes (op : Operation) (h : Handlers σ) (locals : Locals) (s : σ)
    : respond h locals op.bytes s
        =
      match h.invoke locals op.call s with
      | none => .exception op.fc exIllegalFunction s []
      | some ans =>
        if op.overflows then
          .exception op.fc exIllegalDataAddress s []
        else
          .returned op.fc ans.rc (successResponse op.bytes ans.data) ans.state [op.call] := by
  rw [respond_of_supported _ _ _ _ (by rw [fcOf_bytes]; exact op.fc_supported) op.five_le_length]
  rw [fcOf_bytes, op.present_iff h locals s, requestedCall_bytes]
  cases hinvoke : h.invoke locals op.call s with
  | none => rfl
  | some ans =>
    simp only [Option.isSome_some, Bool.not_true, Bool.false_eq_true, ↓reduceIte]
    by_cases hrange : op.overflows
    . simp [hrange]
    . simp [hrange, hinvoke]

theorem successResponse_read (op : Operation) (data : List UInt8) (hread : isRead op.fc = true)
    : successResponse op.bytes data = op.fc :: UInt8.ofNat data.length :: data := by
  unfold successResponse
  rw [fcOf_bytes, if_pos hread]

theorem slice_two_cons (resp : Mem UInt8) (a b : UInt8) (data : List UInt8) (len : Nat)
    (h : len = data.length)
    : (resp.write 0 (a :: b :: data)).slice 2 len = data := by
  have hdrop : ((resp.write 0 (a :: b :: data)).slice 0 (data.length + 2)).drop 2 = data := by
    rw [Mem.slice_write_prefix _ _ _ _ (by simp)]
    simp
  rw [Mem.drop_slice _ _ _ _ (by omega)] at hdrop
  rw [h]
  simpa using hdrop

-- What the client has decoded from the normal response is what the callback has handed out.
theorem callDirectly_eq (op : Operation) (h : Handlers σ) (locals : Locals) (resp : Mem UInt8)
    (out : Out) (s : σ)
    : h.callDirectly locals op out s
        =
      (h.invoke locals op.call s).map fun ans =>
        ⟨ans.rc, op.decode (resp.write 0 (successResponse op.bytes ans.data)) out, ans.state⟩ := by
  cases op with
  | readBits fc addr qty hfc hpos hmax =>
    have hread : isRead fc = true := by
      rcases hfc with rfl | rfl <;> rfl
    unfold Handlers.callDirectly Handlers.invoke
    simp only [call, decode, Option.map_map, Function.comp_def]
    congr 1
    funext readBits
    generalize readBits fc addr qty _ s = ret
    rw [successResponse_read _ _ (by exact hread), getBits_eq_write]
    rw [slice_two_cons _ _ _ _ _ (by simp [boolsOf, bitByteCount])]
    rw [unpack_boolsOf _ _ (by simp)]
  | readRegisters fc addr qty hfc hpos hmax =>
    have hread : isRead fc = true := by
      rcases hfc with rfl | rfl <;> rfl
    unfold Handlers.callDirectly Handlers.invoke
    simp only [call, decode, Option.map_map, Function.comp_def]
    congr 1
    funext readRegisters
    generalize readRegisters fc addr qty _ s = ret
    rw [successResponse_read _ _ (by exact hread), getRegisters_eq_write]
    rw [slice_two_cons _ _ _ _ _ (by simp)]
    rw [registersOf_flatMap]
  | _ => simp [Handlers.callDirectly, Handlers.invoke, call, decode, Function.comp_def]

theorem check_successResponse (op : Operation) {h : Handlers σ} {locals : Locals} {s : σ}
    {ans : Answer σ} (hinvoke : h.invoke locals op.call s = some ans)
    : check op.fc op.addr op.qty (successResponse op.bytes ans.data) = 0 := by
  have hlen := length_invoke_data hinvoke
  cases op with
  | readBits fc addr qty hfc hpos hmax =>
    have hread : isRead fc = true := by
      rcases hfc with rfl | rfl <;> rfl
    rw [successResponse_read _ _ (by exact hread)]
    apply check_read _ _ _ _ hread
    rw [hlen]
    rcases hfc with rfl | rfl <;> rfl
  | readRegisters fc addr qty hfc hpos hmax =>
    have hread : isRead fc = true := by
      rcases hfc with rfl | rfl <;> rfl
    rw [successResponse_read _ _ (by exact hread)]
    apply check_read _ _ _ _ hread
    rw [hlen]
    rcases hfc with rfl | rfl <;> rfl
  | writeSingleCoil addr value => exact check_header _ _ _ rfl rfl
  | writeSingleRegister addr value => exact check_header _ _ _ rfl rfl
  | writeMultipleCoils addr qty values hpos hmax => exact check_header _ _ _ rfl rfl
  | writeMultipleRegisters addr qty data hpos hmax => exact check_header _ _ _ rfl rfl

end Operation

theorem remoteCall_eq_respond (h : Handlers σ) (locals : Locals) (op : Operation)
    (pdu resp : Mem UInt8) (out : Out) (s : σ)
    : remoteCall h locals op pdu resp out s
        =
      let reply := respond h locals op.bytes s
      let rc := check op.fc op.addr op.qty reply.bytes
      ⟨rc, if rc = 0 then op.decode (resp.write 0 reply.bytes) out else out, reply.state,
        reply.calls⟩ := by
  have hlen := op.five_le_length
  unfold remoteCall
  rw [op.build_eq_write]
  dsimp only
  have hreq : (pdu.write 0 op.bytes).slice 0 5 = header op.fc op.addr op.qty := by
    rw [Mem.slice_write_prefix _ _ _ _ hlen, op.take_bytes]
  rw [handleRequest_eq_respond _ _ _ _ _ _ (by omega), Mem.slice_write_same]
  rw [checkResponse_eq_check _ _ _ _ _ _ hreq]
  simp only [Reply.store, Mem.slice_write_same]

theorem remoteCall_eq_directCall (h : Handlers σ) (locals : Locals) (op : Operation)
    (pdu resp : Mem UInt8) (out : Out) (s : σ)
    : remoteCall h locals op pdu resp out s = directCall h locals op out s := by
  have hexception : ∀ code : UInt8, code ≠ 0 → ∀ (s' : σ) (calls : List Call),
      Result.mk (check op.fc op.addr op.qty [op.fc ||| exceptionFlag, code])
        (if check op.fc op.addr op.qty [op.fc ||| exceptionFlag, code] = 0 then
          op.decode (resp.write 0 [op.fc ||| exceptionFlag, code]) out
        else
          out) s' calls
        =
      ⟨code.toNat, out, s', calls⟩ := by
    intro code hcode s' calls
    have hne : ¬(code.toNat : Int) = 0 := by
      intro hzero
      apply hcode
      apply UInt8.toNat_inj.mp
      simpa using hzero
    rw [check_exception _ _ _ _ hcode, if_neg hne]
  rw [remoteCall_eq_respond, op.respond_bytes]
  unfold directCall
  rw [op.callDirectly_eq h locals resp]
  cases hinvoke : h.invoke locals op.call s with
  | none => exact hexception exIllegalFunction (by decide) s []
  | some ans =>
    dsimp only [Option.map_some]
    split
    . exact hexception exIllegalDataAddress (by decide) s []
    . unfold Reply.returned
      by_cases hrc : ans.rc = 0
      . have hcheck := op.check_successResponse hinvoke
        simp [hrc, hcheck]
      . simp only [hrc, ne_eq, not_false_eq_true, ↓reduceIte]
        rw [← exceptionFromCallbackRc_eq]
        exact hexception _ (exceptionFromCallbackRc_ne_zero ans.rc) ans.state [op.call]

end Pdu
