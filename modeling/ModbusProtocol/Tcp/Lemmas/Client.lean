import ModbusProtocol.Pdu.Lemmas.Response
import ModbusProtocol.Tcp.Impl.Client
import ModbusProtocol.Tcp.Lemmas.Server

/-!
This module contains what a transaction of the TCP client takes from its connection: whole MBAP frames for
as long as the connection stays open, the last of which is the reply if there is one.
-/

open Modbus Posix

namespace Tcp.Client

theorem monotonicMs_took (line : Line)
    : Line.Took line [] (monotonicMs line).2 := by
  apply Line.turn_took

theorem waitLoop_took (deadlineMs fuel : Nat) (line : Line)
    : Line.Took line [] (waitLoop deadlineMs fuel line).2 := by
  induction fuel generalizing line with
  | zero => apply Line.Took.refl
  | succ fuel ih =>
    have hclock := monotonicMs_took line
    unfold waitLoop
    dsimp only
    split
    . exact hclock
    . have hpoll := hclock.trans (Line.poll_took (monotonicMs line).2
        (pollTimeout (deadlineMs - (monotonicMs line).1)))
      generalize (monotonicMs line).2.poll _ = result at hpoll
      obtain ⟨woken, line'⟩ := result
      cases woken with
      | intr => exact hpoll.trans (ih line')
      | _ => exact hpoll

-- The wait does not depend on its fuel once there is enough of it.
theorem waitLoop_fuel (deadlineMs : Nat) {fuel fuel' : Nat} {line : Line}
    (hfuel : line.turns.length < fuel) (hfuel' : line.turns.length < fuel')
    : waitLoop deadlineMs fuel line = waitLoop deadlineMs fuel' line := by
  induction fuel generalizing fuel' line with
  | zero => omega
  | succ fuel ih =>
    obtain ⟨fuel', rfl⟩ : ∃ n, fuel' = n + 1 := Nat.exists_eq_succ_of_ne_zero (by omega)
    have hclock := (monotonicMs_took line).turns.length_le
    unfold waitLoop
    dsimp only
    split
    . rfl
    . have hpoll := @Line.poll_turns (monotonicMs line).2
        (pollTimeout (deadlineMs - (monotonicMs line).1))
      generalize (monotonicMs line).2.poll _ = result at hpoll
      obtain ⟨woken, line'⟩ := result
      cases woken with
      | intr =>
        have hlt := hpoll rfl
        dsimp only at hlt
        apply ih
        . omega
        . omega
      | _ => rfl

theorem waitLoop_rc (deadlineMs fuel : Nat) (line : Line)
    : (waitLoop deadlineMs fuel line).1 = 0 ∨ (waitLoop deadlineMs fuel line).1 = -1 ∨
      (waitLoop deadlineMs fuel line).1 = -2 := by
  induction fuel generalizing line with
  | zero => exact .inr (.inl rfl)
  | succ fuel ih =>
    unfold waitLoop
    dsimp only
    split
    . exact .inr (.inr rfl)
    . split
      . exact .inl rfl
      . exact .inr (.inr rfl)
      . apply ih
      . exact .inr (.inl rfl)

theorem waitReadable_rc (line : Line) (deadlineMs : Nat)
    : (waitReadable line deadlineMs).1 = 0 ∨ (waitReadable line deadlineMs).1 = -1 ∨
      (waitReadable line deadlineMs).1 = -2 := by
  apply waitLoop_rc

theorem waitReadable_took (line : Line) (deadlineMs : Nat)
    : Line.Took line [] (waitReadable line deadlineMs).2 := by
  apply waitLoop_took

theorem recvExact_took (line : Line) (len : Nat)
    : Line.Took line (recvExact line len).2.1 (recvExact line len).2.2 := by
  have htook := (Line.recvAll_receives line len).took
  unfold recvExact
  split
  all_goals
    next heq =>
      rw [heq] at htook
      exact htook

theorem recvExact_ok {line : Line} {len : Nat} (h : (recvExact line len).1 = 0)
    : (recvExact line len).2.1.length = len := by
  have hok := (Line.recvAll_receives line len).ok
  unfold recvExact at h ⊢
  split at h
  . next heq =>
    rw [heq] at hok
    exact hok rfl
  all_goals contradiction

theorem recvExact_short {line : Line} {len : Nat} (h : (recvExact line len).1 ≠ 0)
    : (recvExact line len).2.1.length < len := by
  have hshort := (Line.recvAll_receives line len).short
  unfold recvExact at h ⊢
  split at h
  . contradiction
  all_goals
    next heq =>
      rw [heq] at hshort
      exact hshort (by simp)

def MbapFrame (frame : List UInt8) : Prop :=
  mbapVerdict 1 frame = .take frame.length

-- What has been received when a response has: a frame and nothing more.
structure Holds (frame : List UInt8) (received : Received) : Prop where
  whole : MbapFrame frame
  buf : received.buf.slice 0 frame.length = frame
  totalLen : received.totalLen = frame.length

-- What `recv_response` may leave of the connection. When it does not fail badly that is at the boundary of
-- a frame.
inductive Leaves (line : Line) (received : Received) : Prop where
  | frame (frame : List UInt8) (took : Line.Took line frame received.line)
      (holds : Holds frame received)
      (rc : received.rc = if (frame.drop 2).take 2 = [0, 0] then 0 else recvProtocolIdError)
  | nothing (took : Line.Took line [] received.line) (rc : received.rc = -2)
  | broken (chunk : List UInt8) (took : Line.Took line chunk received.line)
      (short : ∀ frame, MbapFrame frame → frame <+: line.bytes → chunk.length < frame.length)
      (rc : received.rc = -1 ∨ received.rc = recvPartialTimeout)

theorem recvExact_rc (line : Line) (len : Nat)
    : (recvExact line len).1 = 0 ∨ (recvExact line len).1 = -1 ∨ (recvExact line len).1 = -2 := by
  unfold recvExact
  split
  . exact .inl rfl
  . exact .inr (.inr rfl)
  . exact .inr (.inl rfl)
  . exact .inr (.inl rfl)

-- `recv_response` takes a timeout inside a frame for the loss of the boundary.
theorem partial_rc {rc : Int} (h : rc = 0 ∨ rc = -1 ∨ rc = -2) (hfail : rc ≠ 0)
    : (if rc = -2 then recvPartialTimeout else rc) = -1 ∨
      (if rc = -2 then recvPartialTimeout else rc) = recvPartialTimeout := by
  obtain hok | herror | htimeout := h
  . contradiction
  . subst herror
    exact .inl rfl
  . subst htimeout
    exact .inr rfl

theorem MbapFrame.seven_le {frame : List UInt8} (h : MbapFrame frame)
    : 7 ≤ frame.length := by
  have htake := mbapVerdict_take h
  omega

theorem mbapFrame_append {head body : List UInt8} (hhead : head.length = 6)
    (hbody : body.length = mbapLen head) (hmin : 1 ≤ mbapLen head) (hmax : mbapLen head ≤ 254)
    : MbapFrame (head ++ body) := by
  unfold MbapFrame mbapVerdict
  rw [mbapLen_append (by omega), List.length_append, hhead, hbody]
  rw [if_neg (by simp), if_neg (by simp; omega), if_neg (by simp)]

theorem recvBody_leaves {line₀ line : Line} {head : List UInt8} {buf : Mem UInt8} (totalLen : Nat)
    (htook : Line.Took line₀ head line) (hhead : buf.slice 0 6 = head)
    : Leaves line₀ (recvBody buf totalLen line) := by
  have hlen : head.length = 6 := by
    rw [← hhead, Mem.length_slice]
  have hmbap : (((buf 4).toUInt16 <<< 8) ||| (buf 5).toUInt16).toNat = mbapLen head := by
    apply mbapLen_header
    . omega
    . rw [hhead, List.take_of_length_le (by omega)]
  unfold recvBody
  dsimp only
  generalize ((buf offsetLenHigh).toUInt16 <<< 8) ||| (buf offsetLenLow).toUInt16 = mbapRemaining
    at hmbap ⊢
  split
  . apply Leaves.broken head htook
    . intro frame hframe _
      have hseven := hframe.seven_le
      omega
    . exact .inl rfl
  . next hbounds =>
    rw [not_or] at hbounds
    have hpos : mbapRemaining.toNat ≠ 0 := by
      intro hzero
      exact hbounds.1 (UInt16.toNat_inj.mp hzero)
    have hmax : ¬mbapRemaining.toNat > 254 := hbounds.2
    have hrest := recvExact_took line mbapRemaining.toNat
    have hgot := @recvExact_ok line mbapRemaining.toNat
    have hshort := @recvExact_short line mbapRemaining.toNat
    have hrc := recvExact_rc line mbapRemaining.toNat
    generalize recvExact line mbapRemaining.toNat = result at hrest hgot hshort hrc
    obtain ⟨rc, got, line'⟩ := result
    dsimp only at hrest hgot hshort hrc ⊢
    split
    . next hfail =>
      apply Leaves.broken (head ++ got) (htook.trans hrest)
      . intro frame hframe hprefix
        have hshort' : got.length < mbapRemaining.toNat := hshort hfail
        have hframeLen := (mbapVerdict_take hframe).1
        have hsame : mbapLen frame = mbapLen head := by
          obtain ⟨rest, hrest⟩ := hprefix
          have hbytes := htook.bytes
          rw [← hrest] at hbytes
          rw [← mbapLen_append (by have := hframe.seven_le; omega) rest, hbytes,
            mbapLen_append (by omega)]
        rw [List.length_append]
        omega
      . exact partial_rc hrc hfail
    . next hok =>
      have hgot' : got.length = mbapRemaining.toNat := hgot (not_not.mp hok)
      have hframe : (buf.write 6 got).slice 0 (head ++ got).length = head ++ got := by
        rw [List.length_append]
        have hreceived := @Mem.slice_received _ buf head got (by rw [hlen, hhead])
        rw [hlen] at hreceived ⊢
        exact hreceived
      have hholds : ∀ rc, Holds (head ++ got)
          ⟨rc, buf.write 6 got, 6 + mbapRemaining.toNat, line'⟩ := by
        intro rc
        constructor
        . apply mbapFrame_append hlen
          . omega
          . omega
          . omega
        . exact hframe
        . rw [List.length_append, hlen, hgot']
      have hprotocol : ((head ++ got).drop 2).take 2
          = [(buf.write 6 got) 2, (buf.write 6 got) 3] := by
        have hseven : 7 ≤ (head ++ got).length := by
          rw [List.length_append]
          omega
        rw [← hframe, Mem.drop_slice _ _ _ _ (by omega), Mem.take_slice _ _ _ _ (by omega)]
        rfl
      split
      . next hforeign =>
        refine .frame (head ++ got) (htook.trans hrest) (hholds _) ?_
        rw [hprotocol, if_neg]
        intro hzero
        injection hzero with hhigh hlow
        injection hlow with hlow
        cases hforeign with
        | inl h => exact h hhigh
        | inr h => exact h hlow
      . next hmodbus =>
        refine .frame (head ++ got) (htook.trans hrest) (hholds _) ?_
        rw [not_or, not_not, not_not] at hmodbus
        rw [hprotocol, if_pos]
        rw [hmodbus.1, hmodbus.2]

theorem recvResponse_leaves (line : Line) (buf : Mem UInt8) (deadlineMs totalLen : Nat)
    : Leaves line (recvResponse line buf deadlineMs totalLen) := by
  have hwait := waitReadable_took line deadlineMs
  have hwaitRc := waitReadable_rc line deadlineMs
  unfold recvResponse
  generalize waitReadable line deadlineMs = result at hwait hwaitRc
  obtain ⟨rc, line₁⟩ := result
  dsimp only at hwait hwaitRc ⊢
  split
  . next hfail =>
    obtain hok | herror | htimeout := hwaitRc
    . contradiction
    . apply Leaves.broken [] hwait
      . intro frame hframe _
        exact Nat.lt_of_lt_of_le (by simp) hframe.seven_le
      . exact .inl herror
    . exact .nothing hwait htimeout
  . have hrest := recvExact_took line₁ 6
    have hgot := @recvExact_ok line₁ 6
    have hshort := @recvExact_short line₁ 6
    have hrc := recvExact_rc line₁ 6
    dsimp only [tcpMbapHeaderLen]
    generalize recvExact line₁ 6 = result at hrest hgot hshort hrc
    obtain ⟨rc, got, line₂⟩ := result
    dsimp only at hrest hgot hshort hrc ⊢
    split
    . next hfail =>
      apply Leaves.broken got (hwait.trans hrest)
      . intro frame hframe _
        have hseven := hframe.seven_le
        have hshort' : got.length < 6 := hshort hfail
        omega
      . exact partial_rc hrc hfail
    . next hok =>
      have hlen : got.length = 6 := hgot (not_not.mp hok)
      apply recvBody_leaves totalLen (hwait.trans hrest)
      have hslice := Mem.slice_write_same buf 0 got
      rw [hlen] at hslice
      exact hslice

theorem tidOf_eq_iff {frame : List UInt8} {received : Received} (h : Holds frame received)
    (tid : UInt16)
    : tidOf received.buf = tid ↔ frame.take 2 = Pdu.u16Bytes tid := by
  have hseven := h.whole.seven_le
  have htake : frame.take 2 = [received.buf 0, received.buf 1] := by
    rw [← h.buf, Mem.take_slice _ _ _ _ (by omega)]
    rfl
  rw [htake, ← Pdu.u16Bytes_u16Of]
  constructor
  . intro heq
    rw [← heq]
    rfl
  . intro heq
    exact Pdu.u16Bytes_injective heq

-- What the receive loop may leave of the connection. The last of the frames it has taken is the reply if
-- there is one.
structure Consumes (line : Line) (tid : UInt16) (received : Received) : Prop where
  took : ∃ chunk, Line.Took line chunk received.line
  whole : received.rc ≠ -1 → received.rc ≠ recvPartialTimeout →
    ∃ frames : List (List UInt8), Line.Took line frames.flatten received.line ∧
      (∀ frame ∈ frames, MbapFrame frame) ∧
      (received.rc = 0 → ∃ frame, frames.getLast? = some frame ∧ Holds frame received ∧
        (frame.drop 2).take 2 = [0, 0] ∧ frame.take 2 = Pdu.u16Bytes tid)

theorem Consumes.behind {line : Line} {tid : UInt16} {stale : List UInt8} {last received : Received}
    (hstale : MbapFrame stale) (htook : Line.Took line stale last.line)
    (h : Consumes last.line tid received)
    : Consumes line tid received := by
  constructor
  . obtain ⟨chunk, hchunk⟩ := h.took
    exact ⟨_, htook.trans hchunk⟩
  . intro hfail hpartial
    obtain ⟨frames, hframes, hwhole, hreply⟩ := h.whole hfail hpartial
    refine ⟨stale :: frames, htook.trans hframes, ?_, ?_⟩
    . intro frame hmem
      rw [List.mem_cons] at hmem
      cases hmem with
      | inl heq => exact heq ▸ hstale
      | inr hmem => exact hwhole frame hmem
    . intro hok
      obtain ⟨frame, hlast, hreply⟩ := hreply hok
      refine ⟨frame, ?_, hreply⟩
      rw [List.getLast?_cons, hlast]
      rfl

theorem Leaves.consumes {line : Line} {tid : UInt16} {received : Received}
    (h : Leaves line received) (htid : received.rc = 0 → tidOf received.buf = tid)
    : Consumes line tid received := by
  cases h with
  | frame frame htook hholds hrc =>
    constructor
    . exact ⟨frame, htook⟩
    . intro _ _
      refine ⟨[frame], by simpa using htook, by simpa using hholds.whole, ?_⟩
      intro hok
      refine ⟨frame, rfl, hholds, ?_, (tidOf_eq_iff hholds tid).mp (htid hok)⟩
      by_contra hforeign
      rw [if_neg hforeign, hok] at hrc
      contradiction
  | nothing htook hrc =>
    constructor
    . exact ⟨[], htook⟩
    . intro _ _
      refine ⟨[], htook, by simp, ?_⟩
      intro hok
      rw [hok] at hrc
      contradiction
  | broken chunk htook _ hrc =>
    constructor
    . exact ⟨chunk, htook⟩
    . intro hfail hpartial
      cases hrc with
      | inl hrc => exact absurd hrc hfail
      | inr hrc => exact absurd hrc hpartial

theorem recvLoop_consumes (tid : UInt16) (deadlineMs fuel : Nat) (last : Received)
    (staleSeen : Bool)
    : Consumes last.line tid (recvLoop tid deadlineMs fuel last staleSeen).1 := by
  induction fuel generalizing last staleSeen with
  | zero =>
    constructor
    . exact ⟨[], Line.Took.refl last.line⟩
    . intro hfail _
      contradiction
  | succ fuel ih =>
    have hleaves := recvResponse_leaves last.line last.buf deadlineMs last.totalLen
    unfold recvLoop
    dsimp only
    generalize recvResponse last.line last.buf deadlineMs last.totalLen = received at hleaves
    split
    . next hfail =>
      apply hleaves.consumes
      intro hok
      contradiction
    . next hok =>
      rw [not_not] at hok
      split
      . next htid =>
        apply hleaves.consumes
        intro _
        exact htid
      . cases hleaves with
        | frame frame htook hholds _ => exact .behind hholds.whole htook (ih received true)
        | nothing _ hrc =>
          rw [hok] at hrc
          contradiction
        | broken _ _ _ hrc =>
          rw [hok] at hrc
          simp at hrc

-- The loop does not depend on its fuel once there is enough of it: every round takes a frame.
theorem recvLoop_fuel (tid : UInt16) (deadlineMs : Nat) {fuel fuel' : Nat} {last : Received}
    (staleSeen : Bool) (hfuel : last.line.incoming.length < fuel)
    (hfuel' : last.line.incoming.length < fuel')
    : recvLoop tid deadlineMs fuel last staleSeen = recvLoop tid deadlineMs fuel' last staleSeen := by
  induction fuel generalizing fuel' last staleSeen with
  | zero => omega
  | succ fuel ih =>
    obtain ⟨fuel', rfl⟩ : ∃ n, fuel' = n + 1 := Nat.exists_eq_succ_of_ne_zero (by omega)
    have hleaves := recvResponse_leaves last.line last.buf deadlineMs last.totalLen
    unfold recvLoop
    dsimp only
    generalize recvResponse last.line last.buf deadlineMs last.totalLen = received at hleaves
    split
    . rfl
    . next hok =>
      rw [not_not] at hok
      split
      . rfl
      . cases hleaves with
        | frame frame htook hholds _ =>
          have hseven := hholds.whole.seven_le
          have hlen := congrArg List.length htook.bytes
          rw [List.length_append] at hlen
          simp only [Line.bytes, List.length_map] at hlen
          apply ih
          . omega
          . omega
        | nothing _ hrc =>
          rw [hok] at hrc
          contradiction
        | broken _ _ _ hrc =>
          rw [hok] at hrc
          simp at hrc

theorem take_frameRequest (tid : UInt16) (unitId : UInt8) (req pdu : Mem UInt8) (pduLen : Nat)
    : (frameRequest tid unitId req pdu pduLen).take 2 = Pdu.u16Bytes tid := by
  unfold frameRequest
  dsimp only
  rw [Mem.take_slice _ _ _ _ (by simp; omega)]
  simp [Mem.slice, Mem.set, List.range_succ, Pdu.u16Bytes]

theorem recvErrToClientErr_neg (rc : Int)
    : recvErrToClientErr rc < 0 := by
  unfold recvErrToClientErr
  split
  . decide
  . split
    . decide
    . decide

-- The memory in which a PDU stands.
def memoryOf (bytes : List UInt8) : Mem UInt8 :=
  fun i => bytes.getD i 0

theorem slice_memoryOf {m : Mem UInt8} {bytes : List UInt8} (h : m.slice 0 bytes.length = bytes)
    {len : Nat} (hlen : len ≤ bytes.length)
    : m.slice 0 len = (memoryOf bytes).slice 0 len := by
  apply Mem.slice_congr
  intro i hi
  unfold memoryOf
  rw [Nat.zero_add, Pdu.apply_of_slice_eq h i (by omega)]

-- A reply to `op` under the transaction id `tid`, and what the call that has received it returns.
structure RepliesTo (op : Pdu.Operation) (tid : UInt16) (frame : List UInt8) (rc : Int) : Prop where
  protocolId : (frame.drop 2).take 2 = [0, 0]
  tid : frame.take 2 = Pdu.u16Bytes tid
  answer : op.AnsweredBy (frame.drop 7) rc

-- What a transaction on an open connection may do to it.
structure Exchanges (ses : Session) (op : Pdu.Operation) (t : Transacted) : Prop where
  ctx : t.ses.ctx.initialized = ses.ctx.initialized ∧ t.ses.ctx.tid = nextTid ses.ctx.tid
  request : ∃ adu, t.events = [.send adu] ∧ adu.take 2 = Pdu.u16Bytes (nextTid ses.ctx.tid)
  isOpen : 0 ≤ t.rc → 0 ≤ t.ses.ctx.sock
  whole : 0 ≤ t.ses.ctx.sock → ∃ frames : List (List UInt8),
    ses.line.bytes = frames.flatten ++ t.ses.line.bytes ∧ (∀ frame ∈ frames, MbapFrame frame) ∧
    (0 ≤ t.rc → ∃ frame, frames.getLast? = some frame ∧
      RepliesTo op (nextTid ses.ctx.tid) frame t.rc ∧
      (t.resp.shift 7).slice 0 (frame.drop 7).length = frame.drop 7)

theorem awaitReply_exchanges {ses : Session} {op : Pdu.Operation} {pdu resp : Mem UInt8}
    {line : Line} {adu : List UInt8} (hsock : 0 ≤ ses.ctx.sock)
    (hpdu : pdu.slice 0 5 = Pdu.header op.fc op.addr op.qty) (hline : line.bytes = ses.line.bytes)
    (hadu : adu.take 2 = Pdu.u16Bytes (nextTid ses.ctx.tid))
    : Exchanges ses op (awaitReply { ses.ctx with tid := nextTid ses.ctx.tid }
        (nextTid ses.ctx.tid) pdu resp line [.send adu]) := by
  have hclock := monotonicMs_took line
  unfold awaitReply
  generalize monotonicMs line = result at hclock
  obtain ⟨nowMs, line'⟩ := result
  dsimp only at hclock ⊢
  generalize nowMs + effectiveResponseTimeoutMs ses.ctx.cfg = deadlineMs
  have hconsumes : Consumes line' (nextTid ses.ctx.tid)
      (recvMatching line' resp (nextTid ses.ctx.tid) deadlineMs).1 := by
    unfold recvMatching
    exact recvLoop_consumes _ _ _ ⟨0, resp, 0, line'⟩ _
  generalize recvMatching line' resp (nextTid ses.ctx.tid) deadlineMs = result at hconsumes
  obtain ⟨received, staleSeen⟩ := result
  dsimp only at hconsumes ⊢
  have hbytes : line'.bytes = ses.line.bytes := by
    rw [← hline, hclock.bytes]
    rfl
  -- whatever else comes out of it, the frames that have been taken are whole as long as the socket is open
  have hwhole : 0 ≤ (if received.rc = -1 ∨ received.rc = recvPartialTimeout then -1 else ses.ctx.sock)
      → ∃ frames : List (List UInt8), ses.line.bytes = frames.flatten ++ received.line.bytes ∧
        (∀ frame ∈ frames, MbapFrame frame) ∧
        (received.rc = 0 → ∃ frame, frames.getLast? = some frame ∧ Holds frame received ∧
          (frame.drop 2).take 2 = [0, 0] ∧ frame.take 2 = Pdu.u16Bytes (nextTid ses.ctx.tid)) := by
    intro hopen
    split at hopen
    . contradiction
    . next hrc =>
      rw [not_or] at hrc
      obtain ⟨frames, htook, hframes, hreply⟩ := hconsumes.whole hrc.1 hrc.2
      refine ⟨frames, ?_, hframes, hreply⟩
      rw [← hbytes]
      exact htook.bytes
  have hfails : ∀ rc, rc < 0 → Exchanges ses op ⟨rc, received.buf,
      ⟨⟨if received.rc = -1 ∨ received.rc = recvPartialTimeout then -1 else ses.ctx.sock,
        nextTid ses.ctx.tid, ses.ctx.initialized, ses.ctx.cfg⟩, received.line⟩, [.send adu]⟩ := by
    intro rc hrc
    constructor
    . exact ⟨rfl, rfl⟩
    . exact ⟨adu, rfl, hadu⟩
    . intro hpos
      exact absurd hpos (by dsimp only; omega)
    . intro hopen
      obtain ⟨frames, hsplit, hframes, -⟩ := hwhole hopen
      refine ⟨frames, hsplit, hframes, ?_⟩
      intro hpos
      exact absurd hpos (by dsimp only; omega)
  split
  . apply hfails
    decide
  . split
    . apply hfails
      apply recvErrToClientErr_neg
    . next hok =>
      rw [not_not] at hok
      split
      . apply hfails
        decide
      . next hlong =>
        split
        . apply hfails
          decide
        . next hcheck =>
          constructor
          . exact ⟨rfl, rfl⟩
          . exact ⟨adu, rfl, hadu⟩
          . intro _
            dsimp only
            rw [if_neg (by rw [hok]; decide)]
            exact hsock
          . intro hopen
            obtain ⟨frames, hsplit, hframes, hreply⟩ := hwhole hopen
            refine ⟨frames, hsplit, hframes, ?_⟩
            intro _
            obtain ⟨frame, hlast, hholds, hprotocol, htid⟩ := hreply hok
            have hanswer : (received.buf.shift 7).slice 0 (received.totalLen - 7) = frame.drop 7 := by
              rw [hholds.totalLen, Mem.slice_shift, ← Mem.drop_slice _ 0 _ _ hholds.whole.seven_le]
              rw [hholds.buf]
            have hcheckEq := Pdu.checkResponse_eq_check pdu (received.buf.shift 7)
              (received.totalLen - 7) op.fc op.addr op.qty hpdu
            rw [hanswer] at hcheckEq
            dsimp only [offsetPdu] at hcheck ⊢
            rw [hcheckEq] at hcheck ⊢
            refine ⟨frame, hlast, ⟨hprotocol, htid, Pdu.answer_of_check op hcheck⟩, ?_⟩
            rw [List.length_drop, ← hholds.totalLen]
            exact hanswer

theorem transact_exchanges {ses : Session} {op : Pdu.Operation} {req buf resp : Mem UInt8}
    (hinit : ses.ctx.initialized = true) (hsock : 0 ≤ ses.ctx.sock)
    : Exchanges ses op (transact ses req (op.build buf).1 (op.build buf).2 resp) := by
  have hadu := take_frameRequest (nextTid ses.ctx.tid) ses.ctx.cfg.unitId req (op.build buf).1
    (op.build buf).2
  unfold transact
  rw [if_neg (by simp [hinit]), if_neg (by omega)]
  dsimp only
  generalize frameRequest (nextTid ses.ctx.tid) ses.ctx.cfg.unitId req (op.build buf).1
    (op.build buf).2 = adu at hadu
  split
  . constructor
    . exact ⟨rfl, rfl⟩
    . exact ⟨adu, rfl, hadu⟩
    . intro hpos
      contradiction
    . intro hopen
      contradiction
  . next line hsend =>
    obtain ⟨sent, hput, -⟩ := Line.writeAll_put false ses.line adu
    unfold sendAll at hsend
    rw [hsend] at hput
    apply awaitReply_exchanges hsock (op.slice_build buf)
    . unfold Line.bytes
      rw [hput.incoming]
    . exact hadu

theorem transact_closed {ses : Session} {req pdu resp : Mem UInt8} {pduLen : Nat}
    (hinit : ses.ctx.initialized = true) (hsock : ses.ctx.sock < 0)
    : transact ses req pdu pduLen resp = ⟨errNotConnected, resp, ses, []⟩ := by
  unfold transact
  rw [if_neg (by simp [hinit]), if_pos hsock]

end Tcp.Client
