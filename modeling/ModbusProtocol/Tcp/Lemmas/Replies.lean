import ModbusProtocol.Tcp.Lemmas.Client

/-!
This module contains the calls of a client on one connection: what they read of it is whole MBAP frames for
as long as the socket is open, and no call is answered with the reply to another one.
-/

open Modbus Posix

namespace Tcp.Client

-- A call of the client API: how long after the one before it is made, the unit id that is set for it, and
-- what its buffers hold.
structure Call where
  pause : Nat
  unitId : Option UInt8
  op : Pdu.Operation
  buf : Mem UInt8
  req : Mem UInt8
  resp : Mem UInt8
  out : Pdu.Out

def Call.ready (call : Call) (ses : Session) : Session :=
  let ctx := match call.unitId with
    | none => ses.ctx
    | some unitId => setUnitId ses.ctx unitId
  ⟨ctx, ses.line.pass call.pause⟩

def Call.make (call : Call) (ses : Session) : Performed :=
  perform (call.ready ses) call.op call.buf call.req call.resp call.out

structure Exchange where
  call : Call
  before : Line
  result : Performed

-- The calls on one connection, one after the other.
def runCalls (ses : Session) : List Call → List Exchange
  | [] => []
  | call :: calls =>
    let result := call.make ses
    ⟨call, ses.line, result⟩ :: runCalls result.ses calls

-- The bytes that have been read between two states of a connection.
def consumed (before after : Line) : List UInt8 :=
  before.bytes.take (before.bytes.length - after.bytes.length)

namespace Exchange

def request (e : Exchange) : List UInt8 :=
  transmitted e.result.events

def frames (e : Exchange) : List (List UInt8) :=
  ((mbapFraming 1).scan (consumed e.before e.result.ses.line)).1

end Exchange

-- The peer gives a frame the transaction id of the request it replies to, `origin n i` for the i-th frame
-- that is read during the n-th call. No reply is read 65535 calls after its request.
structure RepliesInTime (run : List Exchange) (origin : Nat → Nat → Option Nat) : Prop where
  tid : ∀ {n i k : Nat} {e : Exchange} {frame : List UInt8}, run[n]? = some e →
    e.frames[i]? = some frame → origin n i = some k →
    ∃ e', run[k]? = some e' ∧ frame.take 2 = e'.request.take 2
  inTime : ∀ {n i k : Nat} {e : Exchange} {frame : List UInt8}, run[n]? = some e →
    e.frames[i]? = some frame → origin n i = some k → k ≤ n ∧ n ≤ k + 65534

structure Matched (line : Line) (run : List Exchange) : Prop where
  aligned : ∀ {n : Nat} {e : Exchange}, run[n]? = some e → 0 ≤ e.result.ses.ctx.sock →
    ((mbapFraming 1).scan (consumed line e.result.ses.line)).2 = []
  replied : ∀ {n : Nat} {e : Exchange}, run[n]? = some e → 0 ≤ e.result.rc →
    ∃ frame, e.frames.getLast? = some frame ∧ (frame.drop 2).take 2 = [0, 0] ∧
      frame.take 2 = e.request.take 2 ∧ e.call.op.AnsweredBy (frame.drop 7) e.result.rc ∧
      e.result.out = if e.result.rc = ok then e.call.op.decode (memoryOf (frame.drop 7)) e.call.out
        else e.call.out
  own : ∀ {origin : Nat → Nat → Option Nat}, RepliesInTime run origin →
    ∀ {n k : Nat} {e : Exchange}, run[n]? = some e → 0 ≤ e.result.rc →
      origin n (e.frames.length - 1) = some k → k = n

theorem consumed_of_append {before after : Line} {chunk : List UInt8}
    (h : before.bytes = chunk ++ after.bytes)
    : consumed before after = chunk := by
  unfold consumed
  rw [h, List.length_append, Nat.add_sub_cancel, List.take_left]

theorem ready_ctx (call : Call) (ses : Session)
    : (call.ready ses).ctx.initialized = ses.ctx.initialized ∧
      (call.ready ses).ctx.sock = ses.ctx.sock ∧ (call.ready ses).ctx.tid = ses.ctx.tid := by
  unfold Call.ready setUnitId
  dsimp only
  split
  . simp
  . split
    . simp
    . simp

theorem ready_bytes (call : Call) (ses : Session)
    : (call.ready ses).line.bytes = ses.line.bytes := by
  rfl

theorem make_closed {call : Call} {ses : Session} (hinit : ses.ctx.initialized = true)
    (hsock : ses.ctx.sock < 0)
    : (call.make ses).rc = errNotConnected ∧ (call.make ses).events = [] ∧
      (call.make ses).ses = call.ready ses := by
  have hctx := ready_ctx call ses
  unfold Call.make perform
  dsimp only
  rw [transact_closed (by rw [hctx.1, hinit]) (by rw [hctx.2.1]; exact hsock)]
  simp

-- The transaction behind a call on an open socket.
theorem make_open (call : Call) {ses : Session} (hinit : ses.ctx.initialized = true)
    (hsock : 0 ≤ ses.ctx.sock)
    : ∃ t : Transacted, Exchanges (call.ready ses) call.op t ∧
      call.make ses = ⟨t.rc, if t.rc = ok then call.op.decode (t.resp.shift 7) call.out else call.out,
        t.resp, t.ses, t.events⟩ := by
  have hctx := ready_ctx call ses
  refine ⟨transact (call.ready ses) call.req (call.op.build call.buf).1 (call.op.build call.buf).2
    call.resp, ?_, rfl⟩
  apply transact_exchanges
  . rw [hctx.1, hinit]
  . rw [hctx.2.1]
    exact hsock

-- A session that `n` calls have led to.
structure Reached (n : Nat) (first ses : Session) : Prop where
  initialized : ses.ctx.initialized = true
  tid : 0 ≤ ses.ctx.sock → ses.ctx.tid = nextTid^[n] first.ctx.tid
  whole : 0 ≤ ses.ctx.sock → ∃ frames : List (List UInt8),
    first.line.bytes = frames.flatten ++ ses.line.bytes ∧ ∀ frame ∈ frames, MbapFrame frame

theorem Reached.zero {ses : Session} (hinit : ses.ctx.initialized = true)
    : Reached 0 ses ses := by
  constructor
  . exact hinit
  . intro _
    rfl
  . intro _
    exact ⟨[], rfl, by simp⟩

theorem Reached.make {n : Nat} {first ses : Session} (h : Reached n first ses) (call : Call)
    : Reached (n + 1) first (call.make ses).ses := by
  have hctx := ready_ctx call ses
  by_cases hsock : ses.ctx.sock < 0
  . rw [(make_closed h.initialized hsock).2.2]
    constructor
    . rw [hctx.1, h.initialized]
    . intro hopen
      omega
    . intro hopen
      omega
  . obtain ⟨t, ht, hmake⟩ := make_open call h.initialized (Int.not_lt.mp hsock)
    rw [hmake]
    constructor
    . rw [ht.ctx.1, hctx.1, h.initialized]
    . intro _
      rw [ht.ctx.2, hctx.2.2, h.tid (Int.not_lt.mp hsock), Function.iterate_succ_apply']
    . intro hopen
      obtain ⟨frames, hsplit, hframes⟩ := h.whole (Int.not_lt.mp hsock)
      obtain ⟨later, hlater, hwhole, -⟩ := ht.whole hopen
      refine ⟨frames ++ later, ?_, ?_⟩
      . rw [ready_bytes] at hlater
        rw [hsplit, hlater, List.flatten_append, List.append_assoc]
      . intro frame hmem
        rw [List.mem_append] at hmem
        cases hmem with
        | inl hmem => exact hframes frame hmem
        | inr hmem => exact hwhole frame hmem

theorem runCalls_get {m n : Nat} {first ses : Session} {calls : List Call} {e : Exchange}
    (hreached : Reached m first ses) (h : (runCalls ses calls)[n]? = some e)
    : ∃ ses', Reached (m + n) first ses' ∧ e = ⟨e.call, ses'.line, e.call.make ses'⟩ := by
  induction calls generalizing m n ses with
  | nil => simp [runCalls] at h
  | cons call calls ih =>
    unfold runCalls at h
    cases n with
    | zero =>
      rw [List.getElem?_cons_zero] at h
      injection h with h
      exact ⟨ses, hreached, by rw [← h]⟩
    | succ n =>
      rw [List.getElem?_cons_succ] at h
      obtain ⟨ses', hreached', heq⟩ := ih (hreached.make call) h
      refine ⟨ses', ?_, heq⟩
      rwa [Nat.add_right_comm] at hreached'

theorem nextTid_iterate (n : Nat)
    : (nextTid^[n + 1] 0).toNat = n % 65535 + 1 := by
  induction n with
  | zero => rfl
  | succ n ih =>
    rw [Function.iterate_succ_apply']
    generalize nextTid^[n + 1] 0 = tid at ih
    unfold nextTid
    split
    . next hlt =>
      have hlt' := UInt16.lt_iff_toNat_lt.mp hlt
      simp at hlt' ⊢
      omega
    . next hge =>
      have hge' := mt UInt16.lt_iff_toNat_lt.mpr hge
      simp at hge' ⊢
      omega

-- The request and the reply of a call that succeeds or is refused by the server.
theorem make_replied {call : Call} {ses : Session} (hinit : ses.ctx.initialized = true)
    (hrc : 0 ≤ (call.make ses).rc)
    : ∃ frame, (Exchange.mk call ses.line (call.make ses)).frames.getLast? = some frame ∧
      RepliesTo call.op (nextTid ses.ctx.tid) frame (call.make ses).rc ∧
      (call.make ses).out = if (call.make ses).rc = ok then
        call.op.decode (memoryOf (frame.drop 7)) call.out else call.out := by
  have hctx := ready_ctx call ses
  by_cases hsock : ses.ctx.sock < 0
  . rw [(make_closed hinit hsock).1] at hrc
    contradiction
  . obtain ⟨t, ht, hmake⟩ := make_open call hinit (Int.not_lt.mp hsock)
    rw [hmake] at hrc ⊢
    obtain ⟨frames, hsplit, hframes, hreply⟩ := ht.whole (ht.isOpen hrc)
    obtain ⟨frame, hlast, hreplies, hresp⟩ := hreply hrc
    rw [ready_bytes] at hsplit
    rw [hctx.2.2] at hreplies
    refine ⟨frame, ?_, hreplies, ?_⟩
    . unfold Exchange.frames
      rw [consumed_of_append hsplit, Framing.scan_flatten hframes]
      exact hlast
    . dsimp only
      split
      . next hok =>
        apply call.op.decode_congr
        apply slice_memoryOf hresp
        obtain ⟨-, -, hlen⟩ | ⟨code, hcode, hrc, -⟩ := hreplies.answer.shape
        . rw [hlen]
        . exfalso
          have hzero : code.toNat = 0 := by
            rw [hrc] at hok
            exact Int.ofNat_eq_zero.mp hok
          exact hcode (UInt8.toNat_inj.mp hzero)
      . rfl

theorem make_request {call : Call} {ses : Session} (hinit : ses.ctx.initialized = true)
    (hsock : 0 ≤ ses.ctx.sock)
    : (Exchange.mk call ses.line (call.make ses)).request.take 2
        = Pdu.u16Bytes (nextTid ses.ctx.tid) := by
  obtain ⟨t, ht, hmake⟩ := make_open call hinit hsock
  obtain ⟨adu, hevents, hadu⟩ := ht.request
  unfold Exchange.request
  rw [hmake]
  dsimp only
  rw [hevents, ← (ready_ctx call ses).2.2, ← hadu]
  simp [transmitted]

theorem open_of_rc {call : Call} {ses : Session} (hinit : ses.ctx.initialized = true)
    (hrc : 0 ≤ (call.make ses).rc)
    : 0 ≤ ses.ctx.sock := by
  by_contra hsock
  rw [(make_closed hinit (Int.not_le.mp hsock)).1] at hrc
  contradiction

theorem open_of_request {call : Call} {ses : Session} (hinit : ses.ctx.initialized = true)
    (hrequest : (Exchange.mk call ses.line (call.make ses)).request ≠ [])
    : 0 ≤ ses.ctx.sock := by
  by_contra hsock
  unfold Exchange.request at hrequest
  rw [(make_closed hinit (Int.not_le.mp hsock)).2.1] at hrequest
  contradiction

-- What a connect that succeeds leaves behind.
theorem connect_ok {env : ClientEnv} {owner : Owner} {ctx fresh : ClientCtx} {cfg : ClientConfig}
    {acts : List Act} (h : connect env owner ctx cfg = (0, fresh, acts))
    : fresh.initialized = true ∧ fresh.tid = 0 := by
  unfold connect at h
  grind

-- The requests of a connection are numbered from 1 to 65535, over and over.
theorem tid_period {k n : Nat} (hle : k ≤ n) (hperiod : n ≤ k + 65534)
    (h : nextTid^[k + 1] 0 = nextTid^[n + 1] 0)
    : k = n := by
  have htids := congrArg UInt16.toNat h
  rw [nextTid_iterate, nextTid_iterate] at htids
  omega

theorem calls_matched {env : ClientEnv} {owner : Owner} {ctx fresh : ClientCtx} {cfg : ClientConfig}
    {acts : List Act} (h : connect env owner ctx cfg = (0, fresh, acts)) (line : Line)
    (calls : List Call)
    : Matched line (runCalls ⟨fresh, line⟩ calls) := by
  obtain ⟨hinit, htid⟩ := connect_ok h
  have hget : ∀ {n : Nat} {e : Exchange}, (runCalls ⟨fresh, line⟩ calls)[n]? = some e →
      ∃ ses, Reached n ⟨fresh, line⟩ ses ∧ e = ⟨e.call, ses.line, e.call.make ses⟩ := by
    intro n e he
    have hrun := runCalls_get (Reached.zero hinit) he
    rwa [Nat.zero_add] at hrun
  have hrequest : ∀ {n : Nat} {e : Exchange}, (runCalls ⟨fresh, line⟩ calls)[n]? = some e →
      e.request ≠ [] → e.request.take 2 = Pdu.u16Bytes (nextTid^[n + 1] 0) := by
    intro n e he hne
    obtain ⟨ses, hreached, heq⟩ := hget he
    rw [heq] at hne ⊢
    have hsock := open_of_request hreached.initialized hne
    rw [make_request hreached.initialized hsock, hreached.tid hsock]
    dsimp only
    rw [htid, Function.iterate_succ_apply']
  constructor
  . intro n e he hopen
    obtain ⟨ses, hreached, heq⟩ := hget he
    rw [heq] at hopen ⊢
    obtain ⟨frames, hsplit, hframes⟩ := (hreached.make e.call).whole hopen
    rw [consumed_of_append hsplit, Framing.scan_flatten hframes]
  . intro n e he hrc
    obtain ⟨ses, hreached, heq⟩ := hget he
    rw [heq] at hrc ⊢
    obtain ⟨frame, hlast, hreplies, hout⟩ := make_replied hreached.initialized hrc
    refine ⟨frame, hlast, hreplies.protocolId, ?_, hreplies.answer, hout⟩
    rw [hreplies.tid, make_request hreached.initialized (open_of_rc hreached.initialized hrc)]
  . intro origin hpeer n k e he hrc horigin
    obtain ⟨ses, hreached, heq⟩ := hget he
    obtain ⟨frame, hlast, htake⟩ : ∃ frame, e.frames.getLast? = some frame ∧
        frame.take 2 = Pdu.u16Bytes (nextTid^[n + 1] 0) := by
      rw [heq] at hrc ⊢
      obtain ⟨frame, hlast, hreplies, -⟩ := make_replied hreached.initialized hrc
      refine ⟨frame, hlast, ?_⟩
      rw [hreplies.tid, hreached.tid (open_of_rc hreached.initialized hrc)]
      dsimp only
      rw [htid, Function.iterate_succ_apply']
    rw [List.getLast?_eq_getElem?] at hlast
    obtain ⟨e', he', hsame⟩ := hpeer.tid he hlast horigin
    obtain ⟨hle, hperiod⟩ := hpeer.inTime he hlast horigin
    have hne : e'.request ≠ [] := by
      intro hnil
      rw [hsame, hnil] at htake
      contradiction
    apply tid_period hle hperiod
    apply Pdu.u16Bytes_injective
    rw [← hrequest he' hne, ← hsame, htake]

def clientSample : ClientConfig :=
  ⟨"10.0.0.1", 502, "", 1, 0⟩

def callSample : Call :=
  ⟨0, none, .writeSingleRegister 0 5, fun _ => 0, fun _ => 0, fun _ => 0, ⟨fun _ => 0, fun _ => 0⟩⟩

-- The reply to the first request comes when that has timed out.
def lateSample : Line where
  now := 0
  incoming := (mbapAdu [0, 1] 1 [6, 0, 0, 0, 5] ++ mbapAdu [0, 2] 1 [6, 0, 0, 0, 5]).map
    (⟨1500000000, ·⟩)
  outgoing := []
  turns := []
  recvTimeout := some 1000000000

theorem calls_matched_late
    : (runCalls ⟨⟨3, 0, true, clientSample⟩, lateSample⟩ [callSample, callSample]).map (·.result.rc)
        = [errTimeout, ok] ∧
      Matched lateSample
        (runCalls ⟨⟨3, 0, true, clientSample⟩, lateSample⟩ [callSample, callSample]) := by
  constructor
  . decide +kernel
  . exact @calls_matched ⟨true, ⟨3, true, true, true, true, false⟩⟩ (.context 0)
      ⟨0, 0, false, clientSample⟩ _ clientSample _ rfl lateSample _

end Tcp.Client
