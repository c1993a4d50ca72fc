import ModbusProtocol.Rtu.Impl.Frame
import ModbusProtocol.Rtu.Lemmas.Accept

/-!
This module contains what the frame builders of `modbus_rtu.c` store: the ADU as a whole, or nothing.
-/

open Modbus Posix

namespace Rtu

variable {σ : Type}

namespace Client

theorem adusOf_sendFrame (cfg : ClientConfig) (line : Line) (buf : List UInt8)
    : adusOf (sendFrame cfg line buf).2.2 = [buf] := by
  unfold sendFrame
  dsimp only
  split
  . rfl
  . rfl

theorem awaitResponse_events (ses : Session) (pdu resp : Mem UInt8) (req : List UInt8) (line : Line)
    (events : List Event)
    : (awaitResponse ses pdu resp req line events).events = events := by
  unfold awaitResponse
  dsimp only
  split
  . rfl
  split
  . rfl
  split
  . rfl
  split
  . rfl
  . rfl

-- What a transaction sends of all, its request.
theorem adusOf_transact {ses : Session} {pdu : Mem UInt8} (hinit : ses.ctx.initialized = true)
    (hwrite : ses.unitId = rtuBroadcastAddress → Pdu.isWrite (pdu 0) = true) (req : Mem UInt8)
    (pduLen : Nat) (resp : Mem UInt8)
    : let framed := frameRequest ses.unitId req pdu pduLen
      adusOf (transact ses req pdu pduLen resp).events = [framed.1.slice 0 framed.2] := by
  intro framed
  have hsent := adusOf_sendFrame ses.ctx.cfg ses.flushed (framed.1.slice 0 framed.2)
  unfold transact
  dsimp only
  rw [if_neg (by simp [hinit]), if_neg]
  . split
    . next line events hsend =>
      rw [hsend] at hsent
      exact hsent
    . next line events hsend =>
      rw [hsend] at hsent
      rw [awaitResponse_events]
      exact hsent
  . intro ⟨hbroadcast, hread⟩
    rw [hwrite hbroadcast] at hread
    contradiction

-- `adu` is what the client makes of the PDU that `encode` stores: what `transact` frames, whatever its local
-- arrays hold, and all that a session sends.
structure Frames (unitId : UInt8) (encode : Mem UInt8 → Mem UInt8 × Nat) (adu : List UInt8) : Prop where
  framed : ∀ req buf,
    let framed := frameRequest unitId req (encode buf).1 (encode buf).2
    framed.1.slice 0 framed.2 = adu
  sent : ∀ (ses : Session) req buf resp, ses.ctx.initialized = true → ses.unitId = unitId →
    (unitId = rtuBroadcastAddress → Pdu.isWrite ((encode buf).1 0) = true) →
    adusOf (transact ses req (encode buf).1 (encode buf).2 resp).events = [adu]

theorem frames_encoder {call : RequestCall} {encode : Mem UInt8 → Mem UInt8 × Nat}
    (h : call.encoder = some encode) (unitId : UInt8)
    : Frames unitId encode (withCrc (unitId :: call.bytes)) := by
  have hmax : call.bytes.length ≤ 252 := RequestCall.length_bytes_le (by rw [h]; rfl)
  have hframed : ∀ req buf,
      (frameRequest unitId req (encode buf).1 (encode buf).2).1.slice 0
        (frameRequest unitId req (encode buf).1 (encode buf).2).2
        = withCrc (unitId :: call.bytes) := by
    intro req buf
    rw [RequestCall.encoder_eq_write h, frameRequest_eq _ _ _ _ (Nat.le_succ_of_le hmax)]
    rw [Mem.slice_write_same]
  constructor
  . exact hframed
  . intro ses req buf resp hinit hunit hwrite
    rw [← hunit] at hwrite hframed
    have hsent := adusOf_transact hinit hwrite req (encode buf).2 resp
    dsimp only at hsent
    rw [hframed, hunit] at hsent
    exact hsent

end Client

-- What a call of `server_on_process` sends that has read registers for a request.
theorem serverOnProcess_reads {cfg : ServerConfig σ} {stack : Stack σ} {srv : Server σ} {fc unitId : UInt8}
    {addr qty : UInt16} {data : Mem UInt16} {pdu : List UInt8}
    (hroom : srv.ctx.rxLen ≤ rtuMaxAduLength)
    (hframes : framesOf (serverOnProcess cfg stack srv).events = [unitId :: pdu])
    (hcalls : callsOf (serverOnProcess cfg stack srv).events = [.readRegisters fc addr qty])
    (hreads : cfg.handlers.Reads (stack.locals srv.state) srv.state fc addr qty data)
    : qty.toNat ≤ maxReadRegisters ∧
        adusOf (serverOnProcess cfg stack srv).events = [withCrc (unitId :: fc ::
          UInt8.ofNat (qty.toNat * 2) :: (data.slice 0 qty.toNat).flatMap Pdu.u16Bytes)] := by
  obtain hnone | ⟨frame, hevents⟩ := serverOnProcess_events cfg stack srv hroom
  . rw [hnone] at hcalls
    contradiction
  rw [hevents, framesOf_serveFrame] at hframes
  injection hframes with hframe
  subst hframe
  rw [hevents, callsOf_serveFrame] at hcalls
  rw [hevents, adusOf_serveFrame]
  rw [show (unitId :: pdu).getD 0 0 = unitId by rfl] at hcalls ⊢
  split at hcalls
  . next haccepts =>
    have hcall : .readRegisters fc addr qty ∈
        (Pdu.respond cfg.handlers (stack.locals srv.state) (pduOf (unitId :: pdu)) srv.state).calls := by
      rw [hcalls]
      apply List.mem_singleton_self
    obtain ⟨hrequests, hlimits, -⟩ := Pdu.respond_called hcall
    rw [Pdu.respond_reads hcall hreads, if_pos]
    . exact ⟨hlimits.2.2.1, rfl⟩
    . refine ⟨haccepts, ?_⟩
      intro hbroadcast
      -- a broadcast is only accepted when it writes
      unfold ServerConfig.accepts at haccepts
      rw [if_pos hbroadcast] at haccepts
      generalize hpdu : pduOf (unitId :: pdu) = read at hrequests
      cases hrequests with
      | readRegisters _ _ _ extra hfc =>
        have hhead : (pdu.take (pdu.length - 2)).head? = some fc := congrArg List.head? hpdu
        cases pdu with
        | nil => contradiction
        | cons first pdu =>
          have hfirst : first = fc := by
            rw [List.head?_take] at hhead
            split at hhead
            . contradiction
            . injection hhead
          rw [show (unitId :: first :: pdu).getD 1 0 = first by rfl, hfirst] at haccepts
          rcases hfc with rfl | rfl
          . contradiction
          . contradiction
  . contradiction

namespace Frame

theorem appendCrc_stored {frame : Mem UInt8} {bytes : List UInt8} {frameLen cap : Nat} {m : Mem UInt8}
    (hframe : m = frame.write 0 bytes) (hlen : frameLen = bytes.length) (hcap : bytes.length + 2 ≤ cap)
    : appendCrc m frameLen cap = some (frame.write 0 (withCrc bytes)) := by
  rw [hframe, hlen]
  exact appendCrc_write frame bytes hcap

theorem buildRequestBasis_eq (unitId : UInt8) (function addr : Int) (nb : UInt16) (m : Mem UInt8)
    (cap : Nat)
    : buildRequestBasis unitId function addr nb (some m) cap
        =
      if (0 ≤ function ∧ function ≤ 255 ∧ 0 ≤ addr ∧ addr ≤ 65535) ∧ 8 ≤ cap then
        ⟨8, some (m.write 0 (withCrc (unitId ::
          Pdu.header (UInt8.ofInt function) (UInt16.ofInt addr) nb)))⟩
      else
        ⟨-1, some m⟩ := by
  unfold buildRequestBasis
  dsimp only [rtuMinReqLength, standardPduLen]
  split
  . next hcap =>
    rw [if_neg (by omega)]
  split
  . next hrange =>
    rw [if_neg (by omega)]
  next hcap hrange =>
  rw [if_pos (by omega)]
  have haddr := @addrBytes addr (by omega) (by omega)
  rw [@appendCrc_stored m (unitId :: Pdu.header (UInt8.ofInt function) (UInt16.ofInt addr) nb)]
  . rfl
  . unfold Pdu.header
    rw [← haddr]
    simp only [Pdu.u16Bytes, List.cons_append, List.nil_append, Mem.write_cons_set, Mem.write_nil]
  . rfl
  . simp [Pdu.header]
    omega

theorem buildFc16Request_eq (unitId : UInt8) (addr n : UInt16) (values : Mem UInt16) (m : Mem UInt8)
    (cap : Nat)
    : buildFc16Request unitId addr n (some values) (some m) cap
        =
      if (1 ≤ n.toNat ∧ n.toNat ≤ maxWriteRegisters) ∧ 9 + n.toNat * 2 ≤ cap then
        ⟨(9 + n.toNat * 2 : Nat), some (m.write 0 (withCrc (unitId ::
          (RequestCall.fc16 addr n (some values)).bytes)))⟩
      else
        ⟨-1, some m⟩ := by
  have hzero : n = 0 ↔ n.toNat = 0 := UInt16.toNat_inj.symm
  unfold buildFc16Request
  dsimp only [maxWriteRegisters, rtuMaxAduLength, rtuCrcLen]
  simp only [hzero]
  split
  . rw [if_neg (by omega)]
  next hrange =>
  have hcount : (UInt8.ofNat (n.toNat * 2)).toNat = n.toNat * 2 := by
    simp
    omega
  rw [hcount]
  split
  . rw [if_neg (by omega)]
  next hcap =>
  rw [if_pos (by omega)]
  rw [@appendCrc_stored m (unitId :: (RequestCall.fc16 addr n (some values)).bytes)]
  . rw [storeRegisters_eq_write]
    simp only [RequestCall.bytes, Pdu.header, Pdu.u16Bytes, List.cons_append, List.nil_append,
      Mem.write_cons_set]
    rfl
  . rw [List.length_cons, RequestCall.length_fc16]
    omega
  . rw [List.length_cons, RequestCall.length_fc16]
    omega

theorem build_eq (unitId : UInt8) (call : RequestCall) (m : Mem UInt8) (cap : Nat)
    : build unitId call (some m) cap
        =
      if call.encoder.isSome ∧ call.bytes.length + 3 ≤ cap then
        ⟨(call.bytes.length + 3 : Nat), some (m.write 0 (withCrc (unitId :: call.bytes)))⟩
      else
        ⟨-1, some m⟩ := by
  unfold build
  cases call with
  | basis function addr nb =>
    dsimp only
    rw [buildRequestBasis_eq]
    simp [RequestCall.encoder, RequestCall.bytes, Pdu.header]
  | fc06 addr value =>
    dsimp only
    unfold buildFc06Request
    have haddr : (0 : Int) ≤ addr.toNat ∧ (addr.toNat : Int) ≤ 65535 := by
      have := addr.toNat_lt
      omega
    rw [buildRequestBasis_eq, ofInt_toNat]
    simp [RequestCall.encoder, RequestCall.bytes, Pdu.header, haddr]
    rfl
  | fc16 addr n values =>
    cases values with
    | none => rfl
    | some values =>
      dsimp only
      rw [buildFc16Request_eq, RequestCall.length_fc16]
      unfold RequestCall.encoder
      dsimp only
      grind

theorem buildReadRegistersResponse_eq (functionCode unitId : UInt8) (data : Mem UInt16) (quantity : UInt16)
    (m : Mem UInt8) (cap : Nat)
    : buildReadRegistersResponse functionCode unitId (some data) quantity (some m) cap
        =
      if quantity.toNat ≤ maxReadRegisters ∧ 5 + quantity.toNat * 2 ≤ cap then
        ⟨(5 + quantity.toNat * 2 : Nat), some (m.write 0 (withCrc (unitId :: functionCode ::
          UInt8.ofNat (quantity.toNat * 2) :: (data.slice 0 quantity.toNat).flatMap Pdu.u16Bytes)))⟩
      else
        ⟨-1, some m⟩ := by
  unfold buildReadRegistersResponse
  dsimp only [maxReadRegisters, rtuMaxAduLength, rtuCrcLen, readResponseBase]
  split
  . rw [if_neg (by omega)]
  next hrange =>
  split
  . rw [if_neg (by omega)]
  next hcap =>
  rw [if_pos (by omega)]
  rw [@appendCrc_stored m (unitId :: functionCode :: UInt8.ofNat (quantity.toNat * 2) ::
    (data.slice 0 quantity.toNat).flatMap Pdu.u16Bytes)]
  . rw [storeRegisters_eq_write]
    simp only [Mem.write_cons_set]
  . simp
    omega
  . simp
    omega

end Frame

end Rtu
