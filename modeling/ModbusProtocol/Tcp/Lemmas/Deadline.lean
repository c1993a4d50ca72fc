import ModbusProtocol.Posix.Schedule
import ModbusProtocol.Tcp.Lemmas.Client

/-!
This module contains on which schedules the TCP client keeps to the deadline of a request.
-/

open Modbus Posix

namespace Tcp.Client

-- How many bytes the client reads for one frame: of a length that is out of range, only the header.
def wanted (l : List UInt8) : Nat :=
  if l.length < 6 ∨ mbapLen l < 1 ∨ mbapLen l > 254 then 6 else 6 + mbapLen l

-- A late reply to another request.
structure Stale (tid : UInt16) (frame : List UInt8) : Prop where
  whole : MbapFrame frame
  protocolId : (frame.drop 2).take 2 = [0, 0]
  tid : frame.take 2 ≠ Pdu.u16Bytes tid

-- For a client that waits for a frame from `now` on: the frame that begins while it waits is there, or has
-- been missing a byte for the timeout, by the deadline. From 2^31 milliseconds on it waits without a limit.
structure Begins (timeoutMs deadlineMs now : Nat) (arrivals : List Arrival) : Prop where
  limit : 2 ^ 31 ≤ deadlineMs - now / 1000000 →
    ∃ next later, arrivals = next :: later ∧ next.time / 1000000 ≤ deadlineMs
  frame : ∀ next later, arrivals = next :: later →
    (next.time ≤ now + 1000000 * (deadlineMs - now / 1000000) ∨
      2 ^ 31 ≤ deadlineMs - now / 1000000) →
    (gather (1000000 * timeoutMs) (wanted (arrivals.map Arrival.byte)) (max now next.time)
      arrivals).2.1 / 1000000 ≤ deadlineMs

-- Whenever a client that sends its request at `now` waits for a frame behind late replies.
def OnTime (tid : UInt16) (timeoutMs deadlineMs now : Nat) (arrivals : List Arrival) : Prop :=
  ∀ (stale : List (List Arrival)) (rest : List Arrival), arrivals = stale.flatten ++ rest →
    (∀ frame ∈ stale, Stale tid (frame.map Arrival.byte)) →
    due now stale.flatten / 1000000 < deadlineMs →
    Begins timeoutMs deadlineMs (due now stale.flatten) rest

section

variable {tid : UInt16} {timeoutMs deadlineMs now : Nat} {arrivals : List Arrival}

theorem onTime_iff
    : OnTime tid timeoutMs deadlineMs now arrivals ↔
      (now / 1000000 < deadlineMs → Begins timeoutMs deadlineMs now arrivals) ∧
      ∀ frame rest, arrivals = frame ++ rest → Stale tid (frame.map Arrival.byte) →
        OnTime tid timeoutMs deadlineMs (due now frame) rest := by
  constructor
  . intro h
    constructor
    . intro hnow
      apply h [] arrivals rfl
      . simp
      . exact hnow
    . intro frame rest hsplit hstale stale rest' hrest hall hdue
      rw [← due_append] at hdue ⊢
      apply h (frame :: stale) rest'
      . rw [hsplit, hrest, List.flatten_cons, List.append_assoc]
      . rw [List.forall_mem_cons]
        exact ⟨hstale, hall⟩
      . exact hdue
  . intro ⟨hbegins, hbehind⟩ stale rest hsplit hall hdue
    cases stale with
    | nil =>
      rw [List.flatten_nil, List.nil_append] at hsplit
      rw [← hsplit]
      exact hbegins hdue
    | cons frame stale =>
      rw [List.forall_mem_cons] at hall
      rw [List.flatten_cons, due_append] at hdue ⊢
      apply hbehind frame (stale.flatten ++ rest)
      . rw [hsplit, List.flatten_cons, List.append_assoc]
      . exact hall.1
      . rfl
      . exact hall.2
      . exact hdue

-- Nothing is asked of what comes behind the deadline.
theorem onTime_of_expired (h : deadlineMs ≤ now / 1000000)
    : OnTime tid timeoutMs deadlineMs now arrivals := by
  intro stale rest _ _ hdue
  have hle := Nat.div_le_div_right (c := 1000000) (le_due now stale.flatten)
  omega

theorem MbapFrame.unique {frame frame' rest rest' : List UInt8} (h : MbapFrame frame)
    (h' : MbapFrame frame') (heq : frame ++ rest = frame' ++ rest')
    : frame = frame' := by
  have htake := (mbapFraming 1).verdict_append_take h rest
  have htake' := (mbapFraming 1).verdict_append_take h' rest'
  rw [heq, htake'] at htake
  injection htake with hlen
  exact (List.append_inj heq hlen.symm).1

-- A line that begins with a frame is waited on behind that frame or not at all.
theorem onTime_frame {frame rest : List Arrival} (hwhole : MbapFrame (frame.map Arrival.byte))
    : OnTime tid timeoutMs deadlineMs now (frame ++ rest) ↔
      (now / 1000000 < deadlineMs → Begins timeoutMs deadlineMs now (frame ++ rest)) ∧
      (Stale tid (frame.map Arrival.byte) → OnTime tid timeoutMs deadlineMs (due now frame) rest) := by
  rw [onTime_iff]
  apply and_congr_right
  intro _
  constructor
  . intro hbehind
    exact hbehind frame rest rfl
  . intro hbehind frame' rest' hsplit hstale
    have hsame : frame.map Arrival.byte = frame'.map Arrival.byte := by
      apply @MbapFrame.unique _ _ (rest.map Arrival.byte) (rest'.map Arrival.byte) hwhole hstale.whole
      rw [← List.map_append, hsplit, List.map_append]
    have hlen := congrArg List.length hsame
    rw [List.length_map, List.length_map] at hlen
    obtain ⟨hframe, hrest⟩ := List.append_inj hsplit hlen
    rw [← hframe, ← hrest]
    apply hbehind
    rw [hframe]
    exact hstale

theorem wanted_of_frame {frame : List UInt8} (h : MbapFrame frame) (rest : List UInt8)
    : wanted (frame ++ rest) = frame.length := by
  have htake := mbapVerdict_take h
  have hseven := h.seven_le
  unfold wanted
  rw [mbapLen_append (by omega), List.length_append, if_neg (by omega)]
  omega

theorem pollTimeout_eq {ms : Nat} (h : ms < 2 ^ 32)
    : pollTimeout ms = if 2 ^ 31 ≤ ms then none else some (1000000 * ms) := by
  unfold pollTimeout
  dsimp only
  rw [BitVec.toInt_eq_toNat_cond, BitVec.toNat_ofNat, Nat.mod_eq_of_lt h]
  split
  . next hsmall =>
    rw [if_neg (by omega), if_neg (by omega)]
    simp
  . next hlarge => rw [if_pos (by omega), if_pos (by omega)]

-- The client does not see the first byte of a frame before the deadline.
theorem onTime_of_asleep (tid : UInt16) (timeoutMs : Nat) {woken : Bool × Nat}
    (hsmall : deadlineMs - now / 1000000 < 2 ^ 32) (hlt : now / 1000000 < deadlineMs)
    (hwoken : await (pollTimeout (deadlineMs - now / 1000000)) now arrivals = woken)
    (hasleep : woken.1 = false)
    : woken.2 / 1000000 = deadlineMs ∧ now ≤ woken.2 ∧ OnTime tid timeoutMs deadlineMs now arrivals := by
  rw [pollTimeout_eq hsmall] at hwoken
  split at hwoken
  . cases arrivals with
    | nil =>
      rw [← hwoken] at hasleep
      contradiction
    | cons next later =>
      rw [← hwoken] at hasleep
      contradiction
  . next hlimit =>
    have hlate : ∀ next later, arrivals = next :: later →
        now + 1000000 * (deadlineMs - now / 1000000) < next.time := by
      intro next later heq
      subst heq
      by_contra hsoon
      rw [await] at hwoken
      rw [if_pos (by omega)] at hwoken
      rw [← hwoken] at hasleep
      contradiction
    have hend : woken.2 = now + 1000000 * (deadlineMs - now / 1000000) := by
      cases arrivals with
      | nil =>
        rw [← hwoken]
        rfl
      | cons next later =>
        have := hlate next later rfl
        rw [← hwoken, await]
        rw [if_neg (by omega)]
    refine ⟨by rw [hend]; omega, by rw [hend]; omega, ?_⟩
    rw [onTime_iff]
    constructor
    . intro _
      constructor
      . intro hlarge
        contradiction
      . intro next later heq hbegun
        have := hlate next later heq
        omega
    . intro frame rest hsplit hstale
      have hseven := hstale.whole.seven_le
      rw [List.length_map] at hseven
      cases frame with
      | nil => contradiction
      | cons next frame =>
        apply onTime_of_expired
        have hfirst := hlate next (frame ++ rest) hsplit
        have hdue := @time_le_due (next :: frame) now next List.mem_cons_self
        omega

-- The client sees the first byte of a frame, or waits for it without a limit.
theorem begins_iff (timeoutMs : Nat) {woken : Bool × Nat} (hsmall : deadlineMs - now / 1000000 < 2 ^ 32)
    (hwoken : await (pollTimeout (deadlineMs - now / 1000000)) now arrivals = woken)
    (hready : woken.1 = true)
    : Begins timeoutMs deadlineMs now arrivals ↔
      (gather (1000000 * timeoutMs) (wanted (arrivals.map Arrival.byte)) woken.2 arrivals).2.1
        / 1000000 ≤ deadlineMs := by
  rw [pollTimeout_eq hsmall] at hwoken
  cases arrivals with
  | nil =>
    have hlarge : 2 ^ 31 ≤ deadlineMs - now / 1000000 := by
      by_contra hlimit
      rw [if_neg hlimit] at hwoken
      rw [← hwoken] at hready
      contradiction
    rw [if_pos hlarge] at hwoken
    constructor
    . intro hbegins
      obtain ⟨next, later, heq, -⟩ := hbegins.limit hlarge
      contradiction
    . intro htime
      exfalso
      have hle := le_gather (1000000 * timeoutMs) (wanted ([].map Arrival.byte)) woken.2 []
      have hend : woken.2 = now + 1000000 * 2 ^ 64 := by
        rw [← hwoken]
        rfl
      omega
  | cons next later =>
    have hend : woken.2 = max now next.time ∧
        (next.time ≤ now + 1000000 * (deadlineMs - now / 1000000) ∨
          2 ^ 31 ≤ deadlineMs - now / 1000000) := by
      split at hwoken
      . next hlarge =>
        rw [← hwoken]
        exact ⟨rfl, .inr hlarge⟩
      . rw [await] at hwoken
        split at hwoken
        . next hsoon =>
          rw [← hwoken]
          exact ⟨rfl, .inl hsoon⟩
        . rw [← hwoken] at hready
          contradiction
    rw [hend.1]
    constructor
    . intro hbegins
      exact hbegins.frame next later rfl hend.2
    . intro htime
      constructor
      . intro _
        refine ⟨next, later, rfl, ?_⟩
        have hle := le_gather (1000000 * timeoutMs) (wanted ((next :: later).map Arrival.byte))
          (max now next.time) (next :: later)
        omega
      . intro next' later' heq _
        injection heq with hnext hlater
        subst hnext
        exact htime

end

-- A wait on a prompt line: interruptions make no difference.
theorem waitLoop_prompt (deadlineMs : Nat) {fuel : Nat} {line : Line} (h : Line.Prompt line)
    (hfuel : line.turns.length < fuel)
    : (deadlineMs ≤ line.now / 1000000 →
        (waitLoop deadlineMs fuel line).1 = -2 ∧
          Line.Idles line line.now (waitLoop deadlineMs fuel line).2) ∧
      (line.now / 1000000 < deadlineMs →
        ∀ woken, await (pollTimeout (deadlineMs - line.now / 1000000)) line.now line.incoming = woken →
          (waitLoop deadlineMs fuel line).1 = (if woken.1 then 0 else -2) ∧
            Line.Idles line woken.2 (waitLoop deadlineMs fuel line).2) := by
  induction fuel generalizing line with
  | zero => omega
  | succ fuel ih =>
    have hclock : Line.Idles line line.now (monotonicMs line).2 := h.clock
    have hms : (monotonicMs line).1 = line.now / 1000000 := by
      unfold monotonicMs
      exact congrArg (· / 1000000) hclock.now
    have hturns := (monotonicMs_took line).turns.length_le
    unfold waitLoop
    dsimp only
    rw [hms]
    generalize (monotonicMs line).2 = line₁ at hclock hturns
    constructor
    . intro hexpired
      rw [if_pos hexpired]
      exact ⟨rfl, hclock⟩
    . intro hlt woken hwoken
      rw [if_neg (by omega)]
      have hpoll := hclock.prompt.poll (pollTimeout (deadlineMs - line.now / 1000000))
      have hpollTurns := @Line.poll_turns line₁ (pollTimeout (deadlineMs - line.now / 1000000))
      rw [hclock.now, hclock.incoming, hwoken] at hpoll
      generalize line₁.poll (pollTimeout (deadlineMs - line.now / 1000000)) = result
        at hpoll hpollTurns
      obtain ⟨outcome, line₂⟩ := result
      dsimp only at hpoll hpollTurns
      obtain ⟨hintr, hidles⟩ | ⟨hready, hidles⟩ := hpoll
      . subst hintr
        have hrest := hclock.trans hidles
        dsimp only
        have hlt' : line₂.now / 1000000 < deadlineMs := by
          rw [hrest.now]
          exact hlt
        obtain ⟨hrc, hagain⟩ := (@ih line₂ hrest.prompt (by
          have := hpollTurns rfl
          omega)).2 hlt' woken (by rw [hrest.now, hrest.incoming, hwoken])
        exact ⟨hrc, hrest.trans hagain⟩
      . have hrest := hclock.trans hidles
        subst hready
        cases woken.1 with
        | true => exact ⟨rfl, hrest⟩
        | false => exact ⟨rfl, hrest⟩

theorem recvExact_prompt {line : Line} {timeout : Nat} (h : Line.Prompt line)
    (htimeout : line.recvTimeout = some timeout) (len : Nat)
    : ∃ status, Line.Gathers timeout len line status (recvExact line len).2.2 ∧
      ((recvExact line len).1 = 0 ↔ status = .ok) := by
  have hgathers := h.recvAll htimeout len
  refine ⟨(line.recvAll len).1, ?_, ?_⟩
  . unfold recvExact
    split
    all_goals
      next heq =>
        rw [heq] at hgathers ⊢
        exact hgathers
  . unfold recvExact
    split
    all_goals
      next heq =>
        rw [heq]
        simp

-- What a receive of `k` bytes that begins at `now` makes of a prompt line.
structure Settles (timeout k now : Nat) (line after : Line) : Prop where
  prompt : Line.Prompt after
  recvTimeout : after.recvTimeout = some timeout
  gather : ∃ whole, gather timeout k now line.incoming = (whole, after.now, after.incoming)

theorem recvBody_settles {line : Line} {timeout : Nat} (h : Line.Prompt line)
    (htimeout : line.recvTimeout = some timeout) {buf : Mem UInt8} {head : List UInt8} (totalLen : Nat)
    (hhead : buf.slice 0 6 = head)
    : Settles timeout (wanted (head ++ line.bytes) - 6) line.now line
        (recvBody buf totalLen line).line := by
  have hlen : head.length = 6 := by
    rw [← hhead, Mem.length_slice]
  have hmbap : (((buf 4).toUInt16 <<< 8) ||| (buf 5).toUInt16).toNat = mbapLen (head ++ line.bytes) := by
    rw [mbapLen_append (by omega)]
    apply mbapLen_header
    . omega
    . rw [hhead, List.take_of_length_le (by omega)]
  unfold recvBody wanted
  dsimp only
  generalize ((buf offsetLenHigh).toUInt16 <<< 8) ||| (buf offsetLenLow).toUInt16 = mbapRemaining
    at hmbap ⊢
  rw [← hmbap]
  have hzero : mbapRemaining = 0 ↔ mbapRemaining.toNat < 1 := by
    rw [← UInt16.toNat_inj]
    simp
  by_cases hbounds : mbapRemaining = 0 ∨ mbapRemaining.toNat > tcpMaxAduLength - tcpMbapHeaderLen
  . rw [if_pos hbounds, if_pos (.inr (hbounds.imp hzero.mp id))]
    exact ⟨h, htimeout, true, rfl⟩
  . have hshort : ¬(head ++ line.bytes).length < 6 := by
      rw [List.length_append]
      omega
    have hrange : ¬(mbapRemaining.toNat < 1 ∨ mbapRemaining.toNat > 254) :=
      mt (Or.imp hzero.mpr id) hbounds
    rw [if_neg hbounds, if_neg (not_or.mpr ⟨hshort, hrange⟩), Nat.add_sub_cancel_left]
    obtain ⟨status, hgathers, -⟩ := recvExact_prompt h htimeout mbapRemaining.toNat
    generalize recvExact line mbapRemaining.toNat = result at hgathers
    obtain ⟨rc, got, line'⟩ := result
    have hsettles : Settles timeout mbapRemaining.toNat line.now line line' :=
      ⟨hgathers.prompt, hgathers.recvTimeout, _, hgathers.gather⟩
    dsimp only
    split
    . exact hsettles
    . split
      . exact hsettles
      . exact hsettles

theorem recvResponse_expired {line : Line} {deadlineMs : Nat} (h : Line.Prompt line)
    (hexpired : deadlineMs ≤ line.now / 1000000) (buf : Mem UInt8) (totalLen : Nat)
    : (recvResponse line buf deadlineMs totalLen).rc = -2 ∧
      Line.Idles line line.now (recvResponse line buf deadlineMs totalLen).line := by
  obtain ⟨hrc, hidles⟩ := (waitLoop_prompt deadlineMs h (Nat.lt_succ_self _)).1 hexpired
  unfold recvResponse waitReadable
  dsimp only
  rw [hrc, if_pos (by decide)]
  exact ⟨rfl, hidles⟩

theorem recvResponse_asleep {line : Line} {deadlineMs : Nat} {woken : Bool × Nat}
    (h : Line.Prompt line) (hlt : line.now / 1000000 < deadlineMs)
    (hwoken : await (pollTimeout (deadlineMs - line.now / 1000000)) line.now line.incoming = woken)
    (hasleep : woken.1 = false) (buf : Mem UInt8) (totalLen : Nat)
    : (recvResponse line buf deadlineMs totalLen).rc = -2 ∧
      Line.Idles line woken.2 (recvResponse line buf deadlineMs totalLen).line := by
  obtain ⟨hrc, hidles⟩ := (waitLoop_prompt deadlineMs h (Nat.lt_succ_self _)).2 hlt woken hwoken
  rw [hasleep] at hrc
  unfold recvResponse waitReadable
  dsimp only
  rw [hrc, if_pos (by decide)]
  exact ⟨rfl, hidles⟩

-- A response of which the first byte, or the end of the stream, has been waited for.
theorem recvResponse_begun {line : Line} {timeout deadlineMs : Nat} {woken : Bool × Nat}
    (h : Line.Prompt line) (htimeout : line.recvTimeout = some timeout)
    (hlt : line.now / 1000000 < deadlineMs)
    (hwoken : await (pollTimeout (deadlineMs - line.now / 1000000)) line.now line.incoming = woken)
    (hready : woken.1 = true) (buf : Mem UInt8) (totalLen : Nat)
    : Settles timeout (wanted line.bytes) woken.2 line
        (recvResponse line buf deadlineMs totalLen).line := by
  obtain ⟨hrc, hidles⟩ := (waitLoop_prompt deadlineMs h (Nat.lt_succ_self _)).2 hlt
    woken hwoken
  unfold recvResponse waitReadable
  generalize waitLoop deadlineMs (line.turns.length + 1) line = result at hrc hidles
  obtain ⟨rc, line₁⟩ := result
  dsimp only at hrc hidles ⊢
  rw [hready, if_pos rfl] at hrc
  rw [if_neg (not_not.mpr hrc)]
  have hsix : 6 ≤ wanted line.bytes := by
    unfold wanted
    split
    . omega
    . omega
  have hadd := gather_add timeout 6 (wanted line.bytes - 6) woken.2 line.incoming
  rw [Nat.add_sub_cancel' hsix] at hadd
  obtain ⟨status, hgathers, hok⟩ := recvExact_prompt hidles.prompt
    (by rw [hidles.recvTimeout, htimeout]) 6
  dsimp only [tcpMbapHeaderLen]
  have htook := recvExact_took line₁ 6
  have hlen := @recvExact_ok line₁ 6
  generalize recvExact line₁ 6 = result at hgathers hok htook hlen
  obtain ⟨rc, got, line₂⟩ := result
  dsimp only at hgathers hok htook hlen ⊢
  have hheader := hgathers.gather
  rw [hidles.now, hidles.incoming] at hheader
  split
  . next hfail =>
    refine ⟨hgathers.prompt, hgathers.recvTimeout, false, ?_⟩
    rw [hadd, hheader, decide_eq_false (mt hok.mpr hfail)]
  . next hzero =>
    have hstatus := hok.mp (not_not.mp hzero)
    have hsix : got.length = 6 := hlen (not_not.mp hzero)
    have hbody : Settles timeout (wanted (got ++ line₂.bytes) - 6) line₂.now line₂
        (recvBody (buf.write 0 got) totalLen line₂).line := by
      apply recvBody_settles hgathers.prompt hgathers.recvTimeout
      have hslice := Mem.slice_write_same buf 0 got
      rw [hsix] at hslice
      exact hslice
    have hbytes : got ++ line₂.bytes = line.bytes := by
      rw [← htook.bytes]
      unfold Line.bytes
      rw [hidles.incoming]
    rw [hbytes] at hbody
    obtain ⟨whole, hrest⟩ := hbody.gather
    refine ⟨hbody.prompt, hbody.recvTimeout, whole, ?_⟩
    rw [hadd, hheader, decide_eq_true hstatus]
    exact hrest

theorem recvLoop_expired (tid : UInt16) {deadlineMs : Nat} (fuel : Nat) {last : Received}
    (staleSeen : Bool) (h : Line.Prompt last.line) (hexpired : deadlineMs ≤ last.line.now / 1000000)
    : Line.Idles last.line last.line.now (recvLoop tid deadlineMs fuel last staleSeen).1.line := by
  cases fuel with
  | zero => exact ⟨h, rfl, rfl, rfl⟩
  | succ fuel =>
    obtain ⟨hrc, hidles⟩ := recvResponse_expired h hexpired last.buf last.totalLen
    unfold recvLoop
    dsimp only
    rw [if_pos (by rw [hrc]; decide)]
    exact hidles

theorem stale_iff {tid : UInt16} {frame : List UInt8} {received : Received} (h : Holds frame received)
    (hrc : received.rc = if (frame.drop 2).take 2 = [0, 0] then 0 else recvProtocolIdError)
    : Stale tid frame ↔ received.rc = 0 ∧ tidOf received.buf ≠ tid := by
  have htid := tidOf_eq_iff h tid
  constructor
  . intro hstale
    rw [if_pos hstale.protocolId] at hrc
    exact ⟨hrc, mt htid.mp hstale.tid⟩
  . intro ⟨hok, hother⟩
    refine ⟨h.whole, ?_, mt htid.mpr hother⟩
    by_contra hforeign
    rw [if_neg hforeign, hok] at hrc
    contradiction

section

variable {tid : UInt16} {timeoutMs deadlineMs now : Nat} {arrivals : List Arrival}

-- Without a frame that is whole in time there is nothing behind which the client would wait on.
theorem onTime_of_short {start consumed time : Nat} {whole : Bool} {rest : List Arrival}
    (hdeadline : deadlineMs ≤ now / 1000000 + timeoutMs) (hstart : now ≤ start)
    (hbegins : Begins timeoutMs deadlineMs now arrivals)
    (hgather : gather (1000000 * timeoutMs) (wanted (arrivals.map Arrival.byte)) start arrivals
      = (whole, time, rest)) (hrest : rest = arrivals.drop consumed)
    (hshort : ∀ frame, MbapFrame frame → frame <+: arrivals.map Arrival.byte →
      consumed < frame.length)
    : OnTime tid timeoutMs deadlineMs now arrivals := by
  rw [onTime_iff]
  refine ⟨fun _ => hbegins, ?_⟩
  intro frame behind hsplit hstale
  have hbytes : arrivals.map Arrival.byte = frame.map Arrival.byte ++ behind.map Arrival.byte := by
    rw [hsplit, List.map_append]
  have hlt := hshort _ hstale.whole ⟨_, hbytes.symm⟩
  have hwanted := wanted_of_frame hstale.whole (behind.map Arrival.byte)
  rw [← hbytes] at hwanted
  rw [hwanted] at hgather
  rw [List.length_map] at hlt hgather
  have hlen : arrivals.length = frame.length + behind.length := by
    rw [hsplit, List.length_append]
  cases whole with
  | true =>
    have heq := (gather_true (congrArg Prod.fst hgather)).2
    rw [heq] at hgather
    injection hgather with _ hgather
    injection hgather with _ hdrop
    rw [hrest] at hdrop
    have := congrArg List.length hdrop
    simp only [List.length_drop] at this
    omega
  | false =>
    obtain ⟨j, hj, -, -, hlate⟩ := gather_false (congrArg Prod.fst hgather)
    apply onTime_of_expired
    have hget : arrivals[j]? = some frame[j] := by
      rw [hsplit, List.getElem?_append_left hj]
      exact List.getElem?_eq_getElem hj
    have hgap := hlate _ hget
    have hdue := time_le_due now (List.getElem_mem hj)
    have hwaited := le_due start (arrivals.take j)
    omega

end

section

variable {tid : UInt16} {deadlineMs fuel : Nat} {last : Received} {staleSeen : Bool}

theorem recvLoop_ends (h : ¬((recvResponse last.line last.buf deadlineMs last.totalLen).rc = 0 ∧
      tidOf (recvResponse last.line last.buf deadlineMs last.totalLen).buf ≠ tid))
    : (recvLoop tid deadlineMs (fuel + 1) last staleSeen).1
        =
      recvResponse last.line last.buf deadlineMs last.totalLen := by
  unfold recvLoop
  dsimp only
  split
  . rfl
  . next hok =>
    rw [if_pos]
    by_contra hother
    exact h ⟨not_not.mp hok, hother⟩

theorem recvLoop_goes_on (h : (recvResponse last.line last.buf deadlineMs last.totalLen).rc = 0 ∧
      tidOf (recvResponse last.line last.buf deadlineMs last.totalLen).buf ≠ tid)
    : recvLoop tid deadlineMs (fuel + 1) last staleSeen
        =
      recvLoop tid deadlineMs fuel (recvResponse last.line last.buf deadlineMs last.totalLen) true := by
  rw [recvLoop, if_neg (not_not.mpr h.1), if_neg h.2]

end

-- A frame that has been received is there when its last byte is.
theorem Settles.now_eq {line after : Line} {timeout : Nat} {frame : List UInt8} {woken : Bool × Nat}
    {limit : Option Nat} (h : Settles timeout (wanted line.bytes) woken.2 line after)
    (hwoken : await limit line.now line.incoming = woken) (hready : woken.1 = true)
    (hwhole : MbapFrame frame) (htook : Line.Took line frame after)
    : after.now = due line.now (line.incoming.take frame.length) := by
  have hseven := hwhole.seven_le
  have hlen := congrArg List.length htook.bytes
  simp only [Line.bytes, List.length_append, List.length_map] at hlen
  obtain ⟨whole, hgather⟩ := h.gather
  rw [htook.bytes, wanted_of_frame hwhole] at hgather
  cases whole with
  | true =>
    rw [(gather_true (congrArg Prod.fst hgather)).2] at hgather
    injection hgather with _ hgather
    injection hgather with hnow _
    rw [← hnow, ← hwoken]
    apply due_await
    . omega
    . omega
    . rw [hwoken, hready]
  | false =>
    exfalso
    obtain ⟨j, hj, -, heq, -⟩ := gather_false (congrArg Prod.fst hgather)
    rw [hgather] at heq
    injection heq with _ hdrop
    rw [htook.incoming] at hdrop
    have := congrArg List.length hdrop
    simp only [List.length_drop] at this
    omega

section

variable {tid : UInt16} {timeoutMs deadlineMs : Nat} {line : Line} {received : Received}

-- A round that goes on has passed over a late reply, and what is behind it decides.
theorem onTime_goes_on {frame : List UInt8} (htook : Line.Took line frame received.line)
    (hholds : Holds frame received)
    (hrc : received.rc = if (frame.drop 2).take 2 = [0, 0] then 0 else recvProtocolIdError)
    (hgoes : received.rc = 0 ∧ tidOf received.buf ≠ tid)
    (hnow : received.line.now = due line.now (line.incoming.take frame.length))
    (hbegins : Begins timeoutMs deadlineMs line.now line.incoming)
    : OnTime tid timeoutMs deadlineMs line.now line.incoming ↔
      OnTime tid timeoutMs deadlineMs received.line.now received.line.incoming := by
  have hfront : (line.incoming.take frame.length).map Arrival.byte = frame := by
    have hbytes := congrArg (List.take frame.length) htook.bytes
    rwa [List.take_left, Line.bytes, ← List.map_take] at hbytes
  have hwhole : MbapFrame ((line.incoming.take frame.length).map Arrival.byte) := by
    rw [hfront]
    exact hholds.whole
  have hstale := (stale_iff hholds hrc).mpr hgoes
  have hframe := @onTime_frame tid timeoutMs deadlineMs line.now _ (line.incoming.drop frame.length) hwhole
  rw [List.take_append_drop, hfront] at hframe
  rw [hframe, hnow, htook.incoming]
  constructor
  . rintro ⟨-, hbehind⟩
    exact hbehind hstale
  . intro hbehind
    exact ⟨fun _ => hbegins, fun _ => hbehind⟩

-- Behind a round that ends nothing is waited for.
theorem onTime_ends {start : Nat} {whole : Bool} (hleaves : Leaves line received)
    (hends : ¬(received.rc = 0 ∧ tidOf received.buf ≠ tid))
    (hdeadline : deadlineMs ≤ line.now / 1000000 + timeoutMs) (hstart : line.now ≤ start)
    (hgather : gather (1000000 * timeoutMs) (wanted line.bytes) start line.incoming
      = (whole, received.line.now, received.line.incoming))
    (hbegins : Begins timeoutMs deadlineMs line.now line.incoming)
    : OnTime tid timeoutMs deadlineMs line.now line.incoming := by
  cases hleaves with
  | frame frame htook hholds hrc =>
    rw [onTime_iff]
    refine ⟨fun _ => hbegins, ?_⟩
    intro frame' behind hsplit hstale
    exfalso
    apply hends
    rw [← stale_iff hholds hrc]
    have hbytes : frame'.map Arrival.byte ++ behind.map Arrival.byte = frame ++ received.line.bytes := by
      rw [← List.map_append, ← hsplit, ← htook.bytes]
      rfl
    rw [← MbapFrame.unique hstale.whole hholds.whole hbytes]
    exact hstale
  | nothing htook _ =>
    apply onTime_of_short hdeadline hstart hbegins hgather htook.incoming
    intro frame hframe _
    exact Nat.lt_of_lt_of_le (by simp) hframe.seven_le
  | broken chunk htook hshort _ =>
    exact onTime_of_short hdeadline hstart hbegins hgather htook.incoming hshort

end

-- By induction on the rounds of the loop. Each of them ends at the deadline, or without a late reply, or it
-- goes on behind one.
theorem recvLoop_onTime {tid : UInt16} {timeoutMs deadlineMs : Nat} (htimeoutMs : timeoutMs < 2 ^ 32)
    {fuel : Nat} {last : Received} (staleSeen : Bool) (h : Line.Prompt last.line)
    (htimeout : last.line.recvTimeout = some (1000000 * timeoutMs))
    (hfuel : last.line.incoming.length < fuel)
    (hdeadline : deadlineMs ≤ last.line.now / 1000000 + timeoutMs)
    (hnow : last.line.now / 1000000 ≤ deadlineMs)
    : Line.Waited last.line (recvLoop tid deadlineMs fuel last staleSeen).1.line ∧
      ((recvLoop tid deadlineMs fuel last staleSeen).1.line.now / 1000000 ≤ deadlineMs ↔
        OnTime tid timeoutMs deadlineMs last.line.now last.line.incoming) := by
  induction fuel generalizing last staleSeen with
  | zero => omega
  | succ fuel ih =>
    by_cases hexpired : deadlineMs ≤ last.line.now / 1000000
    . have hidles := recvLoop_expired tid (fuel + 1) staleSeen h hexpired
      refine ⟨hidles.waited (Nat.le_refl _), ?_⟩
      rw [hidles.now]
      exact iff_of_true hnow (onTime_of_expired hexpired)
    . rw [Nat.not_le] at hexpired
      have hsmall : deadlineMs - last.line.now / 1000000 < 2 ^ 32 := by
        omega
      generalize hwoken : await (pollTimeout (deadlineMs - last.line.now / 1000000)) last.line.now
        last.line.incoming = woken
      cases hready : woken.1 with
      | false =>
        obtain ⟨hrc, hidles⟩ := recvResponse_asleep h hexpired hwoken hready last.buf last.totalLen
        obtain ⟨hend, hle, hontime⟩ := onTime_of_asleep tid timeoutMs hsmall hexpired
          hwoken hready
        unfold recvLoop
        dsimp only
        rw [if_pos (by rw [hrc]; decide)]
        refine ⟨hidles.waited hle, ?_⟩
        rw [hidles.now]
        exact iff_of_true (Nat.le_of_eq hend) hontime
      | true =>
        have hset := recvResponse_begun h htimeout hexpired hwoken hready last.buf last.totalLen
        have hleaves := recvResponse_leaves last.line last.buf deadlineMs last.totalLen
        obtain ⟨whole, hgather⟩ := hset.gather
        have hstart := le_await (pollTimeout (deadlineMs - last.line.now / 1000000)) last.line.now
          last.line.incoming
        rw [hwoken] at hstart
        have hwaited := Line.waited_of_gather hstart hgather
        have hbegins := begins_iff timeoutMs hsmall hwoken hready
        change _ ↔ (gather _ (wanted last.line.bytes) _ _).2.1 / _ ≤ _ at hbegins
        rw [hgather] at hbegins
        dsimp only at hbegins
        by_cases hgoes : (recvResponse last.line last.buf deadlineMs last.totalLen).rc = 0 ∧
            tidOf (recvResponse last.line last.buf deadlineMs last.totalLen).buf ≠ tid
        . rw [recvLoop_goes_on hgoes]
          generalize recvResponse last.line last.buf deadlineMs last.totalLen = received
            at hset hleaves hgather hwaited hbegins hgoes
          have hle := hwaited.now_le
          by_cases htime : received.line.now / 1000000 ≤ deadlineMs
          . cases hleaves with
            | frame frame htook hholds hrc =>
              have hseven := hholds.whole.seven_le
              have hlen := congrArg List.length htook.bytes
              simp only [Line.bytes, List.length_append, List.length_map] at hlen
              obtain ⟨hrest, hiff⟩ := @ih received true hset.prompt hset.recvTimeout (by omega)
                (by omega) htime
              refine ⟨hwaited.trans hrest, ?_⟩
              have hdue := hset.now_eq hwoken hready hholds.whole htook
              rw [hiff, onTime_goes_on htook hholds hrc hgoes hdue (hbegins.mpr htime)]
            | nothing _ hrc =>
              rw [hgoes.1] at hrc
              contradiction
            | broken _ _ _ hrc =>
              rw [hgoes.1] at hrc
              simp at hrc
          . have hidles := recvLoop_expired tid fuel true hset.prompt
              (Nat.le_of_lt (Nat.not_le.mp htime))
            refine ⟨hwaited.trans (hidles.waited (Nat.le_refl _)), ?_⟩
            rw [hidles.now]
            apply iff_of_false htime
            intro hontime
            exact htime (hbegins.mp ((onTime_iff.mp hontime).1 hexpired))
        . rw [recvLoop_ends hgoes]
          generalize recvResponse last.line last.buf deadlineMs last.totalLen = received
            at hset hleaves hgather hwaited hbegins hgoes
          refine ⟨hwaited, ?_⟩
          rw [← hbegins]
          constructor
          . exact onTime_ends hleaves hgoes hdeadline hstart hgather
          . intro hontime
            exact (onTime_iff.mp hontime).1 hexpired

theorem effectiveResponseTimeoutMs_lt (cfg : ClientConfig)
    : effectiveResponseTimeoutMs cfg < 2 ^ 32 := by
  unfold effectiveResponseTimeoutMs
  split
  . exact cfg.responseTimeoutMs.toNat_lt
  . decide

theorem awaitReply_line (ctx : ClientCtx) (tid : UInt16) (pdu resp : Mem UInt8) (line : Line)
    (events : List Event)
    : (awaitReply ctx tid pdu resp line events).ses.line
        =
      (recvMatching (monotonicMs line).2 resp tid
        ((monotonicMs line).1 + effectiveResponseTimeoutMs ctx.cfg)).1.line := by
  unfold awaitReply
  dsimp only
  split
  . rfl
  . split
    . rfl
    . split
      . rfl
      . split
        . rfl
        . rfl

-- From the sent request on, with the timeout that connecting has set for each receive.
theorem awaitReply_punctual_iff {ctx : ClientCtx} {line : Line} (h : Line.Prompt line)
    (htimeout : line.recvTimeout = some (1000000 * effectiveResponseTimeoutMs ctx.cfg)) (tid : UInt16)
    (pdu resp : Mem UInt8) (events : List Event)
    : Line.Punctual 1000000 (line.now / 1000000 + effectiveResponseTimeoutMs ctx.cfg) line
        (awaitReply ctx tid pdu resp line events).rc (awaitReply ctx tid pdu resp line events).ses.line ↔
      OnTime tid (effectiveResponseTimeoutMs ctx.cfg)
        (line.now / 1000000 + effectiveResponseTimeoutMs ctx.cfg) line.now line.incoming := by
  have hclock : Line.Idles line line.now (monotonicMs line).2 := h.clock
  have hms : (monotonicMs line).1 = line.now / 1000000 := by
    unfold monotonicMs
    exact congrArg (· / 1000000) hclock.now
  rw [awaitReply_line, hms]
  generalize (monotonicMs line).2 = line₁ at hclock
  have hloop := @recvLoop_onTime tid _ (line.now / 1000000 + effectiveResponseTimeoutMs ctx.cfg)
    (effectiveResponseTimeoutMs_lt ctx.cfg) (line₁.incoming.length + 1) ⟨0, resp, 0, line₁⟩ false
    hclock.prompt (by rw [hclock.recvTimeout, htimeout]) (Nat.lt_succ_self _)
    (by dsimp only; rw [hclock.now]) (by dsimp only; rw [hclock.now]; omega)
  dsimp only at hloop
  rw [hclock.now, hclock.incoming] at hloop
  rw [Line.punctual_iff]
  . rw [← hloop.2]
    unfold recvMatching
    rw [hclock.incoming]
  . apply (hclock.waited (Nat.le_refl _)).trans
    unfold recvMatching
    rw [hclock.incoming]
    exact hloop.1

end Tcp.Client
