import ModbusProtocol.Pdu.Lemmas.Remote

/-!
This module contains the request grammar: which byte sequences the builders of the client put together, and
which of them the dispatch accepts.
-/

open Modbus

namespace Pdu

variable {σ : Type}

-- The request with the padding of the last data byte of an FC15 cleared.
def clearPadding (pdu : List UInt8) : List UInt8 :=
  if fcOf pdu = funcWriteMultipleCoils then
    pdu.take 6 ++ Bits.clear (payloadOf pdu) (qtyOf pdu).toNat
  else
    pdu

-- A builder makes `pdu`, but for padding, from arguments that stay within the limits and the address space,
-- and the callback receives these arguments in `call`.
def Encodes (pdu : List UInt8) (call : Call) : Prop :=
  ∃ op : Operation, ¬op.overflows ∧ op.call = call ∧
    ∀ buf, (op.build buf).1.slice 0 (op.build buf).2 = clearPadding pdu

def Handlers.Complete (h : Handlers σ) : Prop :=
  h.readRegisters.isSome ∧ h.writeRegisters.isSome ∧ h.readBits.isSome ∧ h.writeBits.isSome

-- Of the calls that a dispatch of `pdu` makes: there is one exactly for a request of the grammar.
def AcceptsGrammar (pdu : List UInt8) (calls : List Call) : Prop :=
  (∀ call, calls = [call] ↔ Encodes pdu call) ∧ (calls = [] ∨ ∃ call, calls = [call])

-- A request of the fixed layout with bytes behind it.
def Overlong (pdu : List UInt8) : Prop :=
  5 < pdu.length ∧ ∃ call, Encodes (pdu.take 5) call

theorem encodes_iff {pdu : List UInt8} {call : Call}
    : Encodes pdu call ↔
        ∃ op : Operation, ¬op.overflows ∧ op.call = call ∧ op.bytes = clearPadding pdu := by
  unfold Encodes
  simp only [Operation.slice_built, forall_const]

theorem clearPadding_of_ne {pdu : List UInt8} (h : fcOf pdu ≠ funcWriteMultipleCoils)
    : clearPadding pdu = pdu := by
  unfold clearPadding
  rw [if_neg h]

theorem length_clearPadding (pdu : List UInt8)
    : (clearPadding pdu).length = pdu.length := by
  unfold clearPadding
  split
  . rw [List.length_append, Bits.length_clear]
    unfold payloadOf
    rw [List.length_take, List.length_drop]
    omega
  . rfl

theorem fcOf_clearPadding (pdu : List UInt8)
    : fcOf (clearPadding pdu) = fcOf pdu := by
  unfold clearPadding
  split
  . cases pdu with
    | nil => rfl
    | cons fc rest => rfl
  . rfl

namespace Operation

-- Nothing follows the fixed part.
def isFixed (op : Operation) : Bool :=
  op.fc ≠ funcWriteMultipleCoils ∧ op.fc ≠ funcWriteMultipleRegisters

theorem length_bytes_of_fixed {op : Operation} (h : op.isFixed = true)
    : op.bytes.length = 5 := by
  cases op with
  | writeMultipleCoils addr qty values hpos hmax => contradiction
  | writeMultipleRegisters addr qty data hpos hmax => contradiction
  | _ => rfl

theorem length_bytes_of_multiple {op : Operation} (h : op.isFixed = false)
    : 5 < op.bytes.length := by
  unfold bytes
  rw [List.length_append, length_header]
  cases op with
  | readBits fc addr qty hfc hpos hmax => rcases hfc with rfl | rfl <;> contradiction
  | readRegisters fc addr qty hfc hpos hmax => rcases hfc with rfl | rfl <;> contradiction
  | writeSingleCoil addr value => contradiction
  | writeSingleRegister addr value => contradiction
  | writeMultipleCoils addr qty values hpos hmax => simp [payload]
  | writeMultipleRegisters addr qty data hpos hmax => simp [payload]

theorem isFixed_congr {op op' : Operation} (h : op.fc = op'.fc)
    : op.isFixed = op'.isFixed := by
  unfold isFixed
  rw [h]

-- The dispatch looks at no more of a request of the fixed layout than its first five bytes.
theorem requestedCall_append {op : Operation} (h : op.isFixed = true) (extra : List UInt8)
    : requestedCall (op.bytes ++ extra) = requestedCall op.bytes := by
  cases op with
  | readBits fc addr qty hfc hpos hmax =>
    unfold requestedCall
    rcases hfc with rfl | rfl <;> rfl
  | readRegisters fc addr qty hfc hpos hmax =>
    unfold requestedCall
    rcases hfc with rfl | rfl <;> rfl
  | writeSingleCoil addr value => rfl
  | writeSingleRegister addr value => rfl
  | writeMultipleCoils addr qty values hpos hmax => contradiction
  | writeMultipleRegisters addr qty data hpos hmax => contradiction

end Operation

theorem Handlers.Complete.invoke {h : Handlers σ} (hcomplete : h.Complete) (locals : Locals)
    (call : Call) (s : σ)
    : (h.invoke locals call s).isSome := by
  obtain ⟨hread, hwrite, hreadBits, hwriteBits⟩ := hcomplete
  unfold Handlers.invoke
  cases call with
  | readRegisters fc addr qty => simpa using hread
  | writeRegisters addr qty data => simpa using hwrite
  | readBits fc addr qty => simpa using hreadBits
  | writeBits addr qty bits => simpa using hwriteBits

theorem Handlers.Complete.present {h : Handlers σ} (hcomplete : h.Complete) (fc : UInt8)
    : h.present fc = true := by
  obtain ⟨hread, hwrite, hreadBits, hwriteBits⟩ := hcomplete
  unfold Handlers.present
  split
  . exact hreadBits
  . split
    . exact hread
    . split
      . exact hwriteBits
      . exact hwrite

theorem respond_calls {h : Handlers σ} (hcomplete : h.Complete) (locals : Locals) (s : σ)
    {pdu : List UInt8} {call : Call} (hfc : isRead (fcOf pdu) = true ∨ isWrite (fcOf pdu) = true)
    (hlen : 5 ≤ pdu.length) (hcall : requestedCall pdu = .ok call)
    : (respond h locals pdu s).calls = [call] := by
  obtain ⟨ans, hinvoke⟩ := Option.isSome_iff_exists.mp (hcomplete.invoke locals call s)
  rw [respond_of_supported h locals pdu s hfc hlen, hcomplete.present, hcall]
  simp only [hinvoke, Bool.not_true, Bool.false_eq_true, if_false]
  unfold Reply.returned
  split
  . rfl
  . rfl

theorem Operation.eq_writeMultipleCoils {op : Operation} (h : op.fc = funcWriteMultipleCoils)
    : ∃ addr qty values hpos hmax, op = .writeMultipleCoils addr qty values hpos hmax := by
  cases op with
  | readBits fc addr qty hfc hpos hmax => rcases hfc with rfl | rfl <;> simp [fc] at h
  | readRegisters fc addr qty hfc hpos hmax => rcases hfc with rfl | rfl <;> simp [fc] at h
  | writeMultipleCoils addr qty values hpos hmax => exact ⟨addr, qty, values, hpos, hmax, rfl⟩
  | _ => simp [fc] at h

theorem requestedCall_coils (addr qty : UInt16) (byteCount : UInt8) (data : List UInt8)
    : requestedCall (header funcWriteMultipleCoils addr qty ++ byteCount :: data)
        =
      checkLayout (header funcWriteMultipleCoils addr qty ++ byteCount :: data) maxWriteBits
        (.writeBits addr qty ((Bits.unpack data qty.toNat).map Bool.toUInt8)) := by
  have hfc : fcOf (header funcWriteMultipleCoils addr qty ++ byteCount :: data)
      = funcWriteMultipleCoils := by
    rfl
  have haddr : addrOf (header funcWriteMultipleCoils addr qty ++ byteCount :: data) = addr := by
    exact u16Of_u16Bytes addr
  have hqty : qtyOf (header funcWriteMultipleCoils addr qty ++ byteCount :: data) = qty := by
    exact u16Of_u16Bytes qty
  unfold requestedCall
  rw [hfc, haddr, hqty]
  rfl

-- A request that is built but for the padding consists of the built header and of data with the same bits.
theorem eq_of_clearPadding {pdu packed : List UInt8} {addr qty : UInt16} {byteCount : UInt8}
    (h : header funcWriteMultipleCoils addr qty ++ byteCount :: packed = clearPadding pdu)
    : ∃ data, pdu = header funcWriteMultipleCoils addr qty ++ byteCount :: data ∧
        Bits.clear data qty.toNat = packed := by
  have hfc : fcOf pdu = funcWriteMultipleCoils := by
    rw [← fcOf_clearPadding, ← h]
    rfl
  have hlen : 6 ≤ pdu.length := by
    rw [← length_clearPadding, ← h, List.length_append, Operation.length_header, List.length_cons]
    omega
  have htake : (pdu.take 6).length = 6 := List.length_take_of_le hlen
  unfold clearPadding at h
  rw [if_pos hfc] at h
  have hhead : header funcWriteMultipleCoils addr qty ++ [byteCount] = pdu.take 6 := by
    have := congrArg (List.take 6) h
    rw [List.take_left' htake] at this
    exact this
  have hdata : packed = Bits.clear (payloadOf pdu) (qtyOf pdu).toNat := by
    have := congrArg (List.drop 6) h
    rw [List.drop_left' htake] at this
    exact this
  have hpdu : pdu = header funcWriteMultipleCoils addr qty ++ byteCount :: payloadOf pdu := by
    unfold payloadOf
    rw [List.append_cons, hhead, List.take_append_drop]
  have hqty : qtyOf pdu = qty := by
    rw [hpdu]
    exact u16Of_u16Bytes qty
  rw [hqty] at hdata
  exact ⟨payloadOf pdu, hpdu, hdata.symm⟩

-- A request of FC15 that is built but for its padding asks for the same coils.
theorem requestedCall_clearPadding {pdu : List UInt8} {op : Operation} (h : op.bytes = clearPadding pdu)
    : requestedCall pdu = requestedCall op.bytes := by
  by_cases hfc : op.fc = funcWriteMultipleCoils
  . obtain ⟨addr, qty, values, hpos, hmax, rfl⟩ := Operation.eq_writeMultipleCoils hfc
    obtain ⟨data, hpdu, hclear⟩ := eq_of_clearPadding h
    dsimp only [Operation.addr, Operation.qty] at hpdu hclear
    have hpacked : (Bits.clear data qty.toNat).length = dataLen funcWriteMultipleCoils qty := by
      rw [hclear]
      simp [boolsOf, dataLen, isBitFc, bitByteCount]
    have hdata : data.length = dataLen funcWriteMultipleCoils qty := by
      rw [← hpacked, Bits.length_clear]
    have hbytes : (Operation.writeMultipleCoils addr qty values hpos hmax).bytes
        = header funcWriteMultipleCoils addr qty
            ++ UInt8.ofNat (dataLen funcWriteMultipleCoils qty) :: Bits.clear data qty.toNat := by
      rw [hclear]
      rfl
    have hpdu' : pdu = header funcWriteMultipleCoils addr qty
        ++ UInt8.ofNat (dataLen funcWriteMultipleCoils qty) :: data := by
      exact hpdu
    rw [hbytes, hpdu', requestedCall_coils, requestedCall_coils, Bits.unpack_clear]
    rw [Operation.checkLayout_header _ _ _ _ _ _ hdata hpos hmax]
    rw [Operation.checkLayout_header _ _ _ _ _ _ hpacked hpos hmax]
  . rw [h, clearPadding_of_ne]
    rw [← fcOf_clearPadding, ← h, op.fcOf_bytes]
    exact hfc

theorem Encodes.respond {h : Handlers σ} (hcomplete : h.Complete) (locals : Locals) (s : σ)
    {pdu : List UInt8} {call : Call} (hencodes : Encodes pdu call)
    : (respond h locals pdu s).calls = [call] := by
  obtain ⟨op, hrange, hcall, hbytes⟩ := encodes_iff.mp hencodes
  apply respond_calls hcomplete locals s
  . rw [← fcOf_clearPadding, ← hbytes, op.fcOf_bytes]
    exact op.fc_supported
  . rw [← length_clearPadding, ← hbytes]
    exact op.five_le_length
  . rw [requestedCall_clearPadding hbytes, op.requestedCall_bytes, if_neg hrange, hcall]

-- The fixed part of an overlong request is what a builder makes of it.
theorem Overlong.fixed {pdu : List UInt8} (h : Overlong pdu)
    : ∃ op : Operation, ¬op.overflows ∧ op.isFixed = true ∧ pdu = op.bytes ++ pdu.drop 5 := by
  obtain ⟨hlen, call, hencodes⟩ := h
  obtain ⟨op, hrange, hcall, hbytes⟩ := encodes_iff.mp hencodes
  have hfive : op.bytes.length = 5 := by
    rw [hbytes, length_clearPadding, List.length_take_of_le (Nat.le_of_lt hlen)]
  have hfixed : op.isFixed = true := by
    apply eq_true_of_ne_false
    intro hmultiple
    have := Operation.length_bytes_of_multiple hmultiple
    omega
  refine ⟨op, hrange, hfixed, ?_⟩
  rw [hbytes, clearPadding_of_ne, List.take_append_drop]
  rw [← fcOf_clearPadding, ← hbytes, op.fcOf_bytes]
  unfold Operation.isFixed at hfixed
  exact (of_decide_eq_true hfixed).1

theorem Overlong.not_encodes {pdu : List UInt8} (h : Overlong pdu) (call : Call)
    : ¬Encodes pdu call := by
  intro hencodes
  obtain ⟨op, -, hfixed, hpdu⟩ := h.fixed
  obtain ⟨op', -, -, hbytes⟩ := encodes_iff.mp hencodes
  have hfc : op'.fc = op.fc := by
    rw [← op'.fcOf_bytes, hbytes, fcOf_clearPadding, hpdu]
    rfl
  have hlen := Operation.length_bytes_of_fixed ((Operation.isFixed_congr hfc).trans hfixed)
  rw [hbytes, length_clearPadding] at hlen
  have := h.1
  omega

-- It is accepted whatever follows it.
theorem Overlong.respond {h : Handlers σ} (hcomplete : h.Complete) (locals : Locals) (s : σ)
    {pdu : List UInt8} (hoverlong : Overlong pdu)
    : ∃ call, (respond h locals pdu s).calls = [call] := by
  obtain ⟨op, hrange, hfixed, hpdu⟩ := hoverlong.fixed
  have hfc : fcOf pdu = op.fc := by
    rw [hpdu]
    rfl
  refine ⟨op.call, ?_⟩
  apply respond_calls hcomplete locals s
  . rw [hfc]
    exact op.fc_supported
  . exact Nat.le_of_lt hoverlong.1
  . rw [hpdu, Operation.requestedCall_append hfixed, op.requestedCall_bytes, if_neg hrange]

theorem encodes_fixed {op : Operation} (hfixed : op.isFixed = true) (hrange : ¬op.overflows)
    (extra : List UInt8)
    : Encodes (op.bytes ++ extra) op.call ∨ Overlong (op.bytes ++ extra) := by
  have hne : fcOf op.bytes ≠ funcWriteMultipleCoils := by
    unfold Operation.isFixed at hfixed
    exact (of_decide_eq_true hfixed).1
  have hencodes : Encodes op.bytes op.call := by
    apply encodes_iff.mpr
    exact ⟨op, hrange, rfl, (clearPadding_of_ne hne).symm⟩
  have hfive := Operation.length_bytes_of_fixed hfixed
  cases extra with
  | nil =>
    rw [List.append_nil]
    exact .inl hencodes
  | cons byte extra =>
    right
    constructor
    . rw [List.length_append, hfive, List.length_cons]
      omega
    . rw [List.take_left' hfive]
      exact ⟨op.call, hencodes⟩

theorem normalise_toUInt8 (b : Bool)
    : normalise b.toUInt8 = b.toUInt8 := by
  cases b with
  | false => rfl
  | true => rfl

theorem boolsOf_toUInt8 (bits : List Bool)
    : boolsOf (bits.map Bool.toUInt8) = bits := by
  unfold boolsOf
  rw [List.map_map]
  apply List.map_id''
  intro b
  cases b with
  | false => rfl
  | true => rfl

theorem encodes_coils {addr qty : UInt16} {byteCount : UInt8} {payload : List UInt8}
    (hpos : 1 ≤ qty.toNat) (hmax : qty.toNat ≤ maxWriteBits) (hrange : addr.toNat + qty.toNat ≤ 65536)
    (hlen : payload.length = (qty.toNat + 7) / 8) (hcount : byteCount.toNat = payload.length)
    : Encodes (header funcWriteMultipleCoils addr qty ++ byteCount :: payload)
        (.writeBits addr qty ((Bits.unpack payload qty.toNat).map Bool.toUInt8)) := by
  obtain ⟨values, hvalues⟩ : ∃ values : Mem UInt8, values = fun i => (Bits.get payload i).toUInt8 := by
    exact ⟨_, rfl⟩
  have hslice : values.slice 0 qty.toNat = (Bits.unpack payload qty.toNat).map Bool.toUInt8 := by
    rw [hvalues]
    simp [Mem.slice, Bits.unpack]
  have hbyteCount : byteCount = UInt8.ofNat (bitByteCount qty) := by
    unfold bitByteCount
    rw [← hlen, ← hcount, UInt8.ofNat_toNat]
  have hqty : qtyOf (header funcWriteMultipleCoils addr qty ++ byteCount :: payload) = qty := by
    exact u16Of_u16Bytes qty
  apply encodes_iff.mpr
  refine ⟨.writeMultipleCoils addr qty values hpos hmax, ?_, ?_, ?_⟩
  . unfold Operation.overflows
    omega
  . unfold Operation.call
    dsimp only
    rw [hslice, List.map_map]
    simp only [Function.comp_def, normalise_toUInt8]
  . unfold clearPadding
    rw [hqty]
    unfold Operation.bytes Operation.payload
    dsimp only
    rw [hslice, boolsOf_toUInt8, Bits.pack_unpack hlen, hbyteCount]
    rfl

theorem encodes_registers {addr qty : UInt16} {byteCount : UInt8} {data : List UInt16}
    (hpos : 1 ≤ qty.toNat) (hmax : qty.toNat ≤ maxWriteRegisters)
    (hrange : addr.toNat + qty.toNat ≤ 65536) (hlen : data.length = qty.toNat)
    (hcount : byteCount.toNat = data.length * 2)
    : Encodes (header funcWriteMultipleRegisters addr qty ++ byteCount :: data.flatMap u16Bytes)
        (.writeRegisters addr qty data) := by
  obtain ⟨registers, hregisters⟩ : ∃ registers : Mem UInt16, registers = fun i => data.getD i 0 := by
    exact ⟨_, rfl⟩
  have hslice : registers.slice 0 qty.toNat = data := by
    rw [hregisters, ← hlen]
    apply List.ext_getElem
    . simp
    . intro i h h'
      simp [Mem.slice, h']
  have hbyteCount : byteCount = UInt8.ofNat (qty.toNat * 2) := by
    rw [← hlen, ← hcount, UInt8.ofNat_toNat]
  apply encodes_iff.mpr
  refine ⟨.writeMultipleRegisters addr qty registers hpos hmax, ?_, ?_, ?_⟩
  . unfold Operation.overflows
    omega
  . unfold Operation.call
    dsimp only
    rw [hslice]
  . rw [clearPadding_of_ne (by rw [fcOf_header_append]; decide)]
    unfold Operation.bytes Operation.payload
    dsimp only
    rw [hslice, hbyteCount]
    rfl

-- What the dispatch accepts is in the grammar, or has bytes behind it.
theorem Requests.encodes {pdu : List UInt8} {call : Call} (h : Requests pdu call)
    (hlimits : call.WithinLimits)
    : Encodes pdu call ∨ Overlong pdu := by
  cases h with
  | readBits fc addr qty extra hfc =>
    obtain ⟨-, hpos, hmax, hrange⟩ := hlimits
    have hfixed : (Operation.readBits fc addr qty hfc hpos hmax).isFixed = true := by
      rcases hfc with rfl | rfl <;> rfl
    apply encodes_fixed hfixed
    unfold Operation.overflows
    omega
  | readRegisters fc addr qty extra hfc =>
    obtain ⟨-, hpos, hmax, hrange⟩ := hlimits
    have hfixed : (Operation.readRegisters fc addr qty hfc hpos hmax).isFixed = true := by
      rcases hfc with rfl | rfl <;> rfl
    apply encodes_fixed hfixed
    unfold Operation.overflows
    omega
  | coilOn addr extra => exact @encodes_fixed (.writeSingleCoil addr 1) rfl not_false extra
  | coilOff addr extra => exact @encodes_fixed (.writeSingleCoil addr 0) rfl not_false extra
  | register addr value extra => exact @encodes_fixed (.writeSingleRegister addr value) rfl not_false extra
  | coils addr qty byteCount payload hlen hcount =>
    obtain ⟨hpos, hmax, hrange, -⟩ := hlimits
    exact .inl (encodes_coils hpos hmax hrange hlen hcount)
  | registers addr qty byteCount data hlen hcount =>
    obtain ⟨hpos, hmax, hrange, -⟩ := hlimits
    exact .inl (encodes_registers hpos hmax hrange hlen hcount)

-- The dispatch accepts exactly the grammar, but for a request of the fixed layout with bytes behind it.
theorem handleRequest_grammar_iff (h : Handlers σ) (hcomplete : h.Complete) (locals : Locals)
    (req resp : Mem UInt8) (reqLen : Nat) (s : σ) (hpos : 1 ≤ reqLen)
    : AcceptsGrammar (req.slice 0 reqLen) (handleRequest h locals req reqLen resp s).calls ↔
        ¬Overlong (req.slice 0 reqLen) := by
  rw [handleRequest_eq_respond h locals req resp reqLen s hpos]
  generalize req.slice 0 reqLen = pdu
  unfold Reply.store
  dsimp only
  constructor
  . intro haccepts hoverlong
    obtain ⟨call, hcalls⟩ := hoverlong.respond hcomplete locals s
    exact hoverlong.not_encodes call ((haccepts.1 call).mp hcalls)
  . intro hfits
    have hone : (respond h locals pdu s).calls = [] ∨
        ∃ call, (respond h locals pdu s).calls = [call] ∧ Encodes pdu call := by
      obtain ⟨code, heq⟩ | ⟨call, ans, hreq, hlimits, hinvoke, heq⟩ := respond_cases h locals pdu s
      . rw [heq]
        exact .inl rfl
      . right
        refine ⟨call, ?_, (hreq.encodes hlimits).resolve_right hfits⟩
        rw [heq]
        unfold Reply.returned
        split
        . rfl
        . rfl
    constructor
    . intro call
      constructor
      . intro hcalls
        cases hone with
        | inl hnone =>
          rw [hnone] at hcalls
          contradiction
        | inr hcall =>
          obtain ⟨call', hcalls', hencodes⟩ := hcall
          rw [hcalls'] at hcalls
          rw [← List.head_eq_of_cons_eq hcalls]
          exact hencodes
      . intro hencodes
        apply hencodes.respond hcomplete locals s
    . cases hone with
      | inl hnone => exact .inl hnone
      | inr hcall =>
        obtain ⟨call, hcalls, -⟩ := hcall
        exact .inr ⟨call, hcalls⟩

def sampleHandlers : Handlers Unit where
  readRegisters := some fun _ _ _ _ s => ⟨0, fun _ => 7, s⟩
  writeRegisters := some fun _ _ _ s => ⟨0, s⟩
  readBits := some fun _ _ _ out s => ⟨0, out, s⟩
  writeBits := some fun _ _ _ s => ⟨0, s⟩

def sampleLocals : Locals :=
  ⟨fun _ => 0, fun _ => 0⟩

def sampleRequest (pdu : List UInt8) : Mem UInt8 :=
  Mem.write (fun _ => 0) 0 pdu

theorem encodes_sample
    : Encodes [6, 0, 0, 0, 5] (.writeRegisters 0 1 [5]) := by
  apply encodes_iff.mpr
  exact ⟨.writeSingleRegister 0 5, not_false, rfl, rfl⟩

-- FC06 to register 0 with a byte too many.
theorem overlong_request_executed
    : sampleHandlers.Complete ∧
      (handleRequest sampleHandlers sampleLocals (sampleRequest [6, 0, 0, 0, 5, 0xAA]) 6 (fun _ => 0)
          ()).calls
        = [.writeRegisters 0 1 [5]] ∧
      ¬∃ call, Encodes [6, 0, 0, 0, 5, 0xAA] call := by
  have hoverlong : Overlong [6, 0, 0, 0, 5, 0xAA] := by
    exact ⟨by decide, _, encodes_sample⟩
  refine ⟨⟨rfl, rfl, rfl, rfl⟩, by decide, ?_⟩
  intro hencodes
  obtain ⟨call, hencodes⟩ := hencodes
  exact hoverlong.not_encodes call hencodes

-- FC06 without it.
theorem fitting_request_executed
    : AcceptsGrammar ((sampleRequest [6, 0, 0, 0, 5]).slice 0 5)
        (handleRequest sampleHandlers sampleLocals (sampleRequest [6, 0, 0, 0, 5]) 5 (fun _ => 0)
          ()).calls := by
  apply (handleRequest_grammar_iff sampleHandlers ⟨rfl, rfl, rfl, rfl⟩ sampleLocals _ _ 5 ()
    (by decide)).mpr
  intro hoverlong
  have hlen := hoverlong.1
  rw [Mem.length_slice] at hlen
  contradiction

end Pdu
