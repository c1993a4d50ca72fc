import ModbusProtocol.Tcp.Impl.Frame
import ModbusProtocol.Tcp.Lemmas.Read
import ModbusProtocol.Tcp.Lemmas.Replies

/-!
This module contains what the frame builders of `modbus_tcp.c` store, and the transaction ids that a
sequence of calls of them uses.
-/

open Modbus Posix

namespace Tcp

variable {σ : Type}

theorem length_mbapAdu {tid : List UInt8} (htid : tid.length = 2) (unitId : UInt8) (pdu : List UInt8)
    : (mbapAdu tid unitId pdu).length = 7 + pdu.length := by
  simp [mbapAdu, htid]
  omega

theorem callsOf_serveFrame (cfg : ServerConfig σ) (locals : σ → Pdu.Locals) (frame : List UInt8) (s : σ)
    : callsOf (serveFrame cfg locals frame s).2
        =
      if (frame.drop 2).take 2 = [0, 0] ∧ cfg.accepts (frame.getD 6 0) then
        (Pdu.respond cfg.handlers (locals s) (frame.drop 7) s).calls
      else
        [] := by
  unfold serveFrame
  dsimp only
  split
  . rw [List.cons_append, ← List.singleton_append, callsOf_append, callsOf_append, callsOf_calls]
    apply List.append_nil
  . rfl

theorem adusOf_serveFrame (cfg : ServerConfig σ) (locals : σ → Pdu.Locals) (frame : List UInt8) (s : σ)
    : adusOf (serveFrame cfg locals frame s).2
        =
      if (frame.drop 2).take 2 = [0, 0] ∧ cfg.accepts (frame.getD 6 0) then
        [mbapAdu (frame.take 2) (frame.getD 6 0)
          (Pdu.respond cfg.handlers (locals s) (frame.drop 7) s).bytes]
      else
        [] := by
  unfold serveFrame
  dsimp only
  split
  . rw [List.cons_append, ← List.singleton_append, adusOf_append, adusOf_append, adusOf_calls]
    rfl
  . rfl

-- What a call of `server_on_process` sends that has read registers for a request.
theorem serverOnProcess_reads {cfg : ServerConfig σ} {stack : Stack σ} {srv : Server σ} {fc unitId : UInt8}
    {tid addr qty : UInt16} {data : Mem UInt16} {frame : List UInt8}
    (hframes : framesOf (serverOnProcess cfg stack srv).events = [frame])
    (htid : frame.take 2 = Pdu.u16Bytes tid) (hunit : frame.getD 6 0 = unitId)
    (hcalls : callsOf (serverOnProcess cfg stack srv).events = [.readRegisters fc addr qty])
    (hreads : cfg.handlers.Reads (stack.locals srv.state) srv.state fc addr qty data)
    : qty.toNat ≤ maxReadRegisters ∧
        adusOf (serverOnProcess cfg stack srv).events = [mbapAdu (Pdu.u16Bytes tid) unitId (fc ::
          UInt8.ofNat (qty.toNat * 2) :: (data.slice 0 qty.toNat).flatMap Pdu.u16Bytes)] := by
  cases serverOnProcess_step cfg stack srv with
  | closed hserver hevents hrc hcalm =>
    rw [hevents] at hcalls
    contradiction
  | served n line hverdict htook hserves =>
    have hevents : (serverOnProcess cfg stack srv).events = _ := congrArg Prod.snd hserves.served
    dsimp only at hevents
    rw [hevents, framesOf_serveFrame] at hframes
    injection hframes with hframe
    rw [hframe] at hevents
    rw [hevents, callsOf_serveFrame] at hcalls
    rw [hevents, adusOf_serveFrame, htid, hunit]
    split at hcalls
    . next haccepts =>
      have hcall : .readRegisters fc addr qty ∈
          (Pdu.respond cfg.handlers (stack.locals srv.state) (frame.drop 7) srv.state).calls := by
        rw [hcalls]
        apply List.mem_singleton_self
      obtain ⟨-, hlimits, -⟩ := Pdu.respond_called hcall
      rw [hunit] at haccepts
      rw [Pdu.respond_reads hcall hreads, if_pos haccepts]
      exact ⟨hlimits.2.2.1, rfl⟩
    . contradiction

namespace Client

theorem awaitReply_events (ctx : ClientCtx) (tid : UInt16) (pdu resp : Mem UInt8) (line : Line)
    (events : List Event)
    : (awaitReply ctx tid pdu resp line events).events = events := by
  unfold awaitReply
  dsimp only
  split
  . rfl
  split
  . rfl
  split
  . rfl
  split
  . rfl
  . rfl

-- What a transaction sends of all, its request.
theorem adusOf_transact {ses : Session} (hinit : ses.ctx.initialized = true) (hsock : 0 ≤ ses.ctx.sock)
    (req pdu : Mem UInt8) (pduLen : Nat) (resp : Mem UInt8)
    : adusOf (transact ses req pdu pduLen resp).events
        =
      [frameRequest (nextTid ses.ctx.tid) ses.ctx.cfg.unitId req pdu pduLen] := by
  unfold transact
  dsimp only
  rw [if_neg (by simp [hinit]), if_neg (by omega)]
  split
  . rfl
  . rw [awaitReply_events]
    rfl

-- `adu` is what the client makes of the PDU that `encode` stores: what `transact` frames under this
-- transaction id, whatever its local arrays hold, and all that a session sends.
structure Frames (tid : UInt16) (unitId : UInt8) (encode : Mem UInt8 → Mem UInt8 × Nat)
    (adu : List UInt8) : Prop where
  framed : ∀ req buf, frameRequest tid unitId req (encode buf).1 (encode buf).2 = adu
  sent : ∀ (ses : Session) req buf resp, ses.ctx.initialized = true → 0 ≤ ses.ctx.sock →
    ses.ctx.cfg.unitId = unitId → nextTid ses.ctx.tid = tid →
    adusOf (transact ses req (encode buf).1 (encode buf).2 resp).events = [adu]

theorem frames_encoder {call : RequestCall} {encode : Mem UInt8 → Mem UInt8 × Nat}
    (h : call.encoder = some encode) (tid : UInt16) (unitId : UInt8)
    : Frames tid unitId encode (mbapAdu (Pdu.u16Bytes tid) unitId call.bytes) := by
  have hframed : ∀ req buf, frameRequest tid unitId req (encode buf).1 (encode buf).2
      = mbapAdu (Pdu.u16Bytes tid) unitId call.bytes := by
    intro req buf
    rw [RequestCall.encoder_eq_write h, frameRequest_eq, Mem.slice_write_same]
  constructor
  . exact hframed
  . intro ses req buf resp hinit hsock hunit htid
    rw [adusOf_transact hinit hsock, hunit, htid, hframed]

end Client

namespace Frame

open Client (nextTid)

-- the counter each of the builders has its own copy of
theorem tid_step (ctx : Ctx)
    : (if ctx.tid < 0xFFFF then ctx.tid + 1 else 1) = nextTid ctx.tid := by
  rfl

theorem buildRequestBasis_eq (ctx : Ctx) (modbusUid : UInt8) (function addr : Int) (nb : UInt16)
    (m : Mem UInt8) (cap : Nat)
    : buildRequestBasis (some ctx) modbusUid function addr nb (some m) cap
        =
      if (0 ≤ function ∧ function ≤ 255 ∧ 0 ≤ addr ∧ addr ≤ 65535) ∧ 12 ≤ cap then
        ⟨⟨0, some (m.write 0 (mbapAdu (Pdu.u16Bytes (nextTid ctx.tid)) modbusUid
          (Pdu.header (UInt8.ofInt function) (UInt16.ofInt addr) nb)))⟩, some ⟨nextTid ctx.tid⟩⟩
      else
        ⟨⟨-1, some m⟩, some ctx⟩ := by
  unfold buildRequestBasis
  dsimp only [minReadReqLength]
  rw [tid_step]
  split
  . rw [if_neg (by omega)]
  split
  . rw [if_neg (by omega)]
  rw [if_pos (by omega)]
  have haddr := @addrBytes addr (by omega) (by omega)
  have hlen : UInt16.ofNat (1 + (Pdu.header (UInt8.ofInt function) (UInt16.ofInt addr) nb).length)
      = 1 + 5 := by
    rfl
  unfold mbapAdu
  rw [hlen]
  unfold Pdu.header
  rw [← haddr]
  simp only [Pdu.u16Bytes, List.cons_append, List.nil_append, Mem.write_cons_set, Mem.write_nil]

theorem buildFc06Request_eq (ctx : Ctx) (modbusUid : UInt8) (addr value : UInt16) (m : Mem UInt8)
    (cap : Nat)
    : buildFc06Request (some ctx) modbusUid addr value (some m) cap
        =
      if 12 ≤ cap then
        ⟨⟨0, some (m.write 0 (mbapAdu (Pdu.u16Bytes (nextTid ctx.tid)) modbusUid
          (Pdu.header funcWriteSingleRegister addr value)))⟩, some ⟨nextTid ctx.tid⟩⟩
      else
        ⟨⟨-1, some m⟩, some ctx⟩ := by
  unfold buildFc06Request
  dsimp only [minReadReqLength]
  rw [tid_step]
  split
  . rw [if_neg (by omega)]
  rw [if_pos (by omega)]
  have hlen : (Pdu.header funcWriteSingleRegister addr value).length = 5 := by
    rfl
  have hstandard : Pdu.u16Bytes (UInt16.ofNat (1 + 5)) = [0, mbapLenStandardReq] := by
    decide
  unfold mbapAdu
  rw [hlen, hstandard]
  simp only [Pdu.header, Pdu.u16Bytes, List.cons_append, List.nil_append, Mem.write_cons_set,
    Mem.write_nil]

theorem buildFc16Request_eq (ctx : Ctx) (modbusUid : UInt8) (addr n : UInt16) (values : Mem UInt16)
    (m : Mem UInt8) (cap : Nat)
    : buildFc16Request (some ctx) modbusUid addr n (some values) (some m) cap
        =
      if (1 ≤ n.toNat ∧ n.toNat ≤ maxWriteRegisters) ∧ 13 + n.toNat * 2 ≤ cap then
        ⟨⟨(13 + n.toNat * 2 : Nat), some (m.write 0 (mbapAdu (Pdu.u16Bytes (nextTid ctx.tid)) modbusUid
          (RequestCall.fc16 addr n (some values)).bytes))⟩, some ⟨nextTid ctx.tid⟩⟩
      else
        ⟨⟨-1, some m⟩, some ctx⟩ := by
  have hzero : n = 0 ↔ n.toNat = 0 := UInt16.toNat_inj.symm
  unfold buildFc16Request
  dsimp only [maxWriteRegisters, tcpMbapHeaderLen]
  simp only [hzero, tid_step]
  split
  . rw [if_neg (by omega)]
  next hrange =>
  have hlen : (7 : UInt16) + (UInt8.ofNat (n.toNat * 2)).toUInt16
      = UInt16.ofNat (1 + (RequestCall.fc16 addr n (some values)).bytes.length) := by
    apply UInt16.toNat_inj.mp
    rw [RequestCall.length_fc16]
    simp
    omega
  have htotal : 6 + (UInt16.ofNat (1 + (RequestCall.fc16 addr n (some values)).bytes.length)).toNat
      = 13 + n.toNat * 2 := by
    rw [RequestCall.length_fc16]
    simp
    omega
  rw [hlen, htotal]
  split
  . rw [if_neg (by omega)]
  rw [if_pos (by omega), storeRegisters_eq_write]
  unfold mbapAdu
  generalize UInt16.ofNat (1 + (RequestCall.fc16 addr n (some values)).bytes.length) = len
  simp only [RequestCall.bytes, Pdu.header, Pdu.u16Bytes, List.cons_append, List.nil_append,
    Mem.write_cons_set]
  rfl

-- The builder of FC16 requests returns the length of the frame, the other two do not.
def returnCode : RequestCall → Int
  | .basis _ _ _ => 0
  | .fc06 _ _ => 0
  | .fc16 _ numRegisters _ => (13 + numRegisters.toNat * 2 : Nat)

theorem returnCode_nonneg (call : RequestCall)
    : 0 ≤ returnCode call := by
  cases call with
  | basis function addr nb => apply Int.le_refl
  | fc06 addr value => apply Int.le_refl
  | fc16 addr n values => apply Int.natCast_nonneg

theorem build_eq (ctx : Ctx) (modbusUid : UInt8) (call : RequestCall) (m : Mem UInt8) (cap : Nat)
    : build (some ctx) modbusUid call (some m) cap
        =
      if call.encoder.isSome ∧ 7 + call.bytes.length ≤ cap then
        ⟨⟨returnCode call, some (m.write 0 (mbapAdu (Pdu.u16Bytes (nextTid ctx.tid)) modbusUid
          call.bytes))⟩, some ⟨nextTid ctx.tid⟩⟩
      else
        ⟨⟨-1, some m⟩, some ctx⟩ := by
  unfold build returnCode
  cases call with
  | basis function addr nb =>
    dsimp only
    rw [buildRequestBasis_eq]
    simp [RequestCall.encoder, RequestCall.bytes, Pdu.header]
  | fc06 addr value =>
    dsimp only
    rw [buildFc06Request_eq]
    simp [RequestCall.encoder, RequestCall.bytes, Pdu.header]
  | fc16 addr n values =>
    cases values with
    | none => rfl
    | some values =>
      dsimp only
      rw [buildFc16Request_eq, RequestCall.length_fc16]
      unfold RequestCall.encoder
      dsimp only
      grind

theorem buildReadRegistersResponse_eq (tid : UInt16) (functionCode unitId : UInt8) (data : Mem UInt16)
    (quantity : UInt16) (m : Mem UInt8) (cap : Nat)
    : buildReadRegistersResponse tid functionCode unitId (some data) quantity (some m) cap
        =
      if quantity.toNat ≤ 125 ∧ 9 + quantity.toNat * 2 ≤ cap then
        ⟨(9 + quantity.toNat * 2 : Nat), some (m.write 0 (mbapAdu (Pdu.u16Bytes tid) unitId
          (functionCode :: UInt8.ofNat (quantity.toNat * 2) ::
            (data.slice 0 quantity.toNat).flatMap Pdu.u16Bytes)))⟩
      else
        ⟨-1, some m⟩ := by
  unfold buildReadRegistersResponse
  dsimp only [mbapPrefixLen]
  split
  . rw [if_neg (by omega)]
  split
  . rw [if_neg (by omega)]
  rw [if_pos (by omega), storeRegisters_eq_write]
  have hlen : (functionCode :: UInt8.ofNat (quantity.toNat * 2) ::
      (data.slice 0 quantity.toNat).flatMap Pdu.u16Bytes).length = 1 + 1 + quantity.toNat * 2 := by
    simp
    omega
  have hsmall : (UInt16.ofNat (1 + (1 + 1 + quantity.toNat * 2))).toNat
      = 1 + (1 + 1 + quantity.toNat * 2) := by
    simp
    omega
  have hhigh : UInt8.ofNat ((1 + (1 + 1 + quantity.toNat * 2)) >>> 8)
      = (UInt16.ofNat (1 + (1 + 1 + quantity.toNat * 2)) >>> 8).toUInt8 := by
    apply UInt8.toNat_inj.mp
    rw [Pdu.toNat_high, hsmall]
    simp [Nat.shiftRight_eq_div_pow]
    omega
  have hlow : UInt8.ofNat ((1 + (1 + 1 + quantity.toNat * 2)) &&& 0xFF)
      = (UInt16.ofNat (1 + (1 + 1 + quantity.toNat * 2)) &&& 0xFF).toUInt8 := by
    apply UInt8.toNat_inj.mp
    rw [Pdu.toNat_low, hsmall]
    simp
    rw [show (255 : Nat) = 2 ^ 8 - 1 by rfl, Nat.and_two_pow_sub_one_eq_mod]
    omega
  have htid : ((tid >>> 8) &&& 0xFF).toUInt8 = (tid >>> 8).toUInt8 := by
    apply UInt8.toNat_inj.mp
    rw [Pdu.toNat_low]
    simp
  unfold mbapAdu
  rw [hhigh, hlow, hlen, htid, show 6 + (1 + (1 + 1 + quantity.toNat * 2)) = 9 + quantity.toNat * 2 by omega]
  simp only [Pdu.u16Bytes, List.cons_append, List.nil_append, Mem.write_cons_set]

-- A call stores the ADU under the next transaction id as a whole, or does nothing.
inductive Step (call : Call) (ctx : Ctx) : CtxBuilt → Prop where
  | rejected : Step call ctx ⟨⟨-1, call.req⟩, some ctx⟩
  | built (rc : Int) (m : Mem UInt8) (rest : List UInt8) (hrc : 0 ≤ rc) (hreq : call.req = some m)
      (hcap : 2 + rest.length ≤ call.reqCap)
      : Step call ctx
          ⟨⟨rc, some (m.write 0 (Pdu.u16Bytes (nextTid ctx.tid) ++ rest))⟩, some ⟨nextTid ctx.tid⟩⟩

theorem Call.run_step (call : Call) (ctx : Ctx)
    : Step call ctx (call.run ctx) := by
  unfold Call.run
  cases hreq : call.req with
  | none =>
    have hnone : build (some ctx) call.modbusUid call.request none call.reqCap
        = ⟨⟨-1, call.req⟩, some ctx⟩ := by
      rw [hreq]
      cases call.request with
      | basis function addr nb => rfl
      | fc06 addr value => rfl
      | fc16 addr n values => rfl
    rw [hnone]
    exact .rejected
  | some m =>
    rw [build_eq]
    split
    . next hroom =>
      unfold mbapAdu
      rw [List.append_assoc, List.append_assoc]
      apply Step.built _ m _ (returnCode_nonneg call.request) hreq
      simp
      omega
    . rw [← hreq]
      exact .rejected

-- The transaction ids of the requests that have been built, in their order.
def tidsOf (results : List CtxBuilt) : List UInt16 :=
  results.filterMap fun built => if built.rc < 0 then none else built.buf.map Pdu.getU16

def successes (results : List CtxBuilt) : Nat :=
  results.countP fun built => 0 ≤ built.rc

theorem getU16_written (m : Mem UInt8) (v : UInt16) (rest : List UInt8)
    : Pdu.getU16 (m.write 0 (Pdu.u16Bytes v ++ rest)) = v := by
  exact Pdu.u16Of_u16Bytes v

theorem tidsOf_runCalls (calls : List Call) (ctx : Ctx)
    : tidsOf (runCalls calls ctx)
        =
      (List.range (successes (runCalls calls ctx))).map fun k => nextTid^[k + 1] ctx.tid := by
  induction calls generalizing ctx with
  | nil => rfl
  | cons call calls ih =>
    have hstep := call.run_step ctx
    unfold runCalls
    dsimp only
    generalize call.run ctx = built at hstep
    cases hstep with
    | rejected =>
      have htail := ih ctx
      unfold tidsOf successes at htail ⊢
      rw [List.filterMap_cons_none (by rfl), List.countP_cons_of_neg (by simp)]
      exact htail
    | built rc m rest hrc hreq hcap =>
      have htail := ih ⟨nextTid ctx.tid⟩
      unfold tidsOf successes at htail ⊢
      rw [List.filterMap_cons_some (b := nextTid ctx.tid), List.countP_cons_of_pos (by simpa using hrc)]
      . rw [Option.getD_some, htail, List.range_succ_eq_map, List.map_cons, List.map_map]
        rfl
      . dsimp only
        rw [if_neg (by omega), Option.map_some, getU16_written]

-- From a fresh context on the ids count from one and start again behind 65535.
theorem tidsOf_started (calls : List Call)
    : tidsOf (runCalls calls Ctx.started)
        =
      (List.range (successes (runCalls calls Ctx.started))).map
        fun k => UInt16.ofNat (k % 65535 + 1) := by
  rw [tidsOf_runCalls]
  apply List.map_congr_left
  intro k _
  apply UInt16.toNat_inj.mp
  rw [show Ctx.started.tid = 0 by rfl, Client.nextTid_iterate]
  simp
  omega

end Frame

end Tcp
