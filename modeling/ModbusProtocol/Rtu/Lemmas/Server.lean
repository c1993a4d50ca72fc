import ModbusProtocol.Pdu.Lemmas.Validation
import ModbusProtocol.Rtu.Lemmas.Assembly

/-!
This module contains the RTU server as a stream transducer: what one call of `server_on_process` does,
and that a run of calls does to the bytes of its line what one scan of the whole stream says, however
the bytes are spread over the calls.
-/

open Modbus Posix

namespace Rtu

variable {σ : Type}

theorem clock_took (line : Line)
    : Line.Took line [] (currentTimeUs line).2 ∧ Line.Put line [] (currentTimeUs line).2 := by
  exact ⟨Line.turn_took line, Line.turn_put line⟩

theorem sleep_put (line : Line) (us : Nat)
    : Line.Put line [] (line.sleep us) := by
  exact (Line.turn_put line).trans (Line.pass_put _ us)

theorem waitResponseSilence_put (line : Line) (sinceUs requiredUs : Nat)
    : Line.Put line [] (waitResponseSilence line sinceUs requiredUs) := by
  have hclock := (clock_took line).2
  unfold waitResponseSilence
  split
  . exact Line.Put.refl line
  . split
    . exact sleep_put line requiredUs
    . dsimp only
      split
      . exact hclock.trans (sleep_put _ _)
      . split
        . exact hclock.trans (sleep_put _ _)
        . exact hclock

theorem drain_put (line : Line)
    : Line.Put line [] line.drain.2 := by
  exact Line.turn_put line

theorem writeAll_put (line : Line) (buf : List UInt8)
    : ∃ sent, Line.Put line sent (writeAll line buf).2 ∧ sent <+: buf ∧
      ((writeAll line buf).1 = true → sent = buf) := by
  obtain ⟨sent, hput, hprefix, hall⟩ := Line.writeAll_put true line buf
  unfold writeAll
  split
  . next line' heq =>
    rw [heq] at hput
    exact ⟨sent, hput, hprefix, by simp⟩
  . next line' heq =>
    rw [heq] at hput hall
    have hdrain := hput.trans (drain_put line')
    rw [List.append_nil] at hdrain
    exact ⟨sent, hdrain, hprefix, fun _ => hall rfl⟩

theorem sendFrame_put (cfg : ServerConfig σ) (line : Line) (buf : List UInt8)
    : (sendFrame cfg line buf).2.2 = cfg.sendEvents buf ∧
      ∃ sent, Line.Put line sent (sendFrame cfg line buf).2.1 ∧ sent <+: buf ∧
        ((sendFrame cfg line buf).1 = true → sent = buf) := by
  have hwrite := writeAll_put line buf
  unfold sendFrame ServerConfig.sendEvents
  dsimp only
  split
  . exact ⟨rfl, hwrite⟩
  . exact ⟨rfl, hwrite⟩

theorem echoLoop_took (deadlineUs len fuel : Nat) (line : Line) (got : Nat)
    : ∃ echo, Line.Took line echo (echoLoop deadlineUs len fuel line got) := by
  induction fuel generalizing line got with
  | zero => exact ⟨[], Line.Took.refl line⟩
  | succ fuel ih =>
    have hclock := (clock_took line).1
    unfold echoLoop
    split
    . dsimp only
      split
      . exact ⟨[], hclock⟩
      . have hselect := hclock.trans (Line.select_took (currentTimeUs line).2
          (deadlineUs - (currentTimeUs line).1))
        generalize hready : (currentTimeUs line).2.select _ = result at hselect
        obtain ⟨woken, line'⟩ := result
        have hnext : ∀ got', ∃ echo, Line.Took line echo (echoLoop deadlineUs len fuel line' got') := by
          intro got'
          obtain ⟨echo, htook⟩ := ih line' got'
          exact ⟨_, hselect.trans htook⟩
        cases woken with
        | ready =>
          dsimp only
          obtain ⟨chunk, hread⟩ := (Line.read_receives line' (len - got)).any
          generalize line'.read (len - got) = result at hread
          obtain ⟨ret, line''⟩ := result
          have htook := hselect.trans hread
          have hnext' : ∀ got', ∃ echo,
              Line.Took line echo (echoLoop deadlineUs len fuel line'' got') := by
            intro got'
            obtain ⟨echo, hlater⟩ := ih line'' got'
            exact ⟨_, htook.trans hlater⟩
          cases ret with
          | bytes chunk => exact hnext' _
          | hangup => exact ⟨_, htook⟩
          | intr => exact hnext' _
          | again => exact hnext' _
          | error => exact ⟨_, htook⟩
        | timeout => exact hnext got
        | intr => exact hnext got
        | error => exact hnext got
    . exact ⟨[], Line.Took.refl line⟩

theorem discardEcho_took (cfg : ServerConfig σ) (line : Line) (len : Nat)
    : ∃ echo, Line.Took line echo (discardEcho cfg line len) := by
  obtain ⟨echo, htook⟩ := echoLoop_took
    ((currentTimeUs line).1 + effectiveTimeoutMs cfg * 1000) len
    ((currentTimeUs line).2.effort + 2) (currentTimeUs line).2 0
  exact ⟨_, (clock_took line).1.trans htook⟩

theorem accepts_iff (cfg : ServerConfig σ) (unitId fc : UInt8)
    : cfg.accepts unitId fc
        ↔ unitIdMatches cfg unitId = true ∧
          ¬(unitId = rtuBroadcastAddress ∧ (!Pdu.isWrite fc) = true) := by
  unfold ServerConfig.accepts unitIdMatches
  by_cases hbroadcast : unitId = rtuBroadcastAddress
  . simp [hbroadcast]
  . simp [hbroadcast]

theorem transmitted_sendEvents (cfg : ServerConfig σ) (adu : List UInt8)
    : transmitted (cfg.sendEvents adu) = adu := by
  unfold ServerConfig.sendEvents
  split
  . simp [transmitted]
  . simp [transmitted]

-- No reply has been sent whose echo has to be read back.
def EchoFree (cfg : ServerConfig σ) (events : List Event) : Prop :=
  cfg.localEcho = true → ∀ adu, .send adu ∉ events

theorem echoFree_of_localEcho {cfg : ServerConfig σ} (h : cfg.localEcho = false)
    (events : List Event)
    : EchoFree cfg events := by
  intro hecho
  simp [h] at hecho

theorem send_mem_sendEvents (cfg : ServerConfig σ) (adu : List UInt8)
    : .send adu ∈ cfg.sendEvents adu := by
  unfold ServerConfig.sendEvents
  split
  . simp
  . simp

-- What a call that has extracted `frame` may leave: it has done to the application what the frame asks
-- for, and has put its reply on the wire unless it reports a failure.
structure Serves (cfg : ServerConfig σ) (locals : σ → Pdu.Locals) (srv : Server σ)
    (frame : List UInt8) (p : Processed σ) : Prop where
  served : (p.server.state, p.events) = serveFrame cfg locals frame srv.state
  ctx : p.server.ctx = srv.ctx
  rest : p.server.line.bytes <:+ srv.line.bytes
  sent : EchoFree cfg p.events → ∃ sent, Line.Put srv.line sent p.server.line ∧
    sent <+: transmitted p.events ∧ (p.rc = 0 → sent = transmitted p.events)

theorem pduOf_slice (adu : Mem UInt8) (len : Nat) (h : 3 ≤ len)
    : (adu.shift 1).slice 0 (len - 1 - 2) = pduOf (adu.slice 0 len) := by
  unfold pduOf
  rw [Mem.length_slice, Mem.drop_slice _ _ _ _ (by omega), Mem.take_slice _ _ _ _ (by omega)]
  rw [Mem.slice_shift]
  congr 1

-- The response buffer of `server_on_process` once the reply stands in it.
theorem appendCrc_reply (resp : Mem UInt8) (unitId : UInt8) (bytes : List UInt8)
    (hlen : bytes.length ≤ 253)
    : ∃ adu, appendCrc ((resp.splice 1 ((resp.shift 1).write 0 bytes)).set 0 unitId)
          (1 + bytes.length) rtuMaxAduLength = some adu ∧
        adu.slice 0 (1 + bytes.length + 2) = withCrc (unitId :: bytes) := by
  have hslice : ((resp.write 1 bytes).write 0 [unitId]).slice 0 (unitId :: bytes).length
      = unitId :: bytes := by
    rw [List.length_cons, Nat.add_comm, Mem.slice_add]
    rw [show 1 = [unitId].length by rfl, Mem.slice_write_same]
    rw [Mem.slice_write_of_disjoint _ _ _ _ _ (by simp)]
    rw [Nat.zero_add, Mem.slice_write_same, List.singleton_append]
  have hframe := slice_appendCrc _ _ hslice
  have hcomm : 1 + bytes.length = (unitId :: bytes).length := by simp [Nat.add_comm]
  rw [Mem.splice_write_shift, Nat.add_zero, Mem.set_eq_write, hcomm]
  rw [appendCrc_eq _ _ _ (by simp; omega), hslice]
  exact ⟨_, rfl, hframe⟩

theorem processFrame_serves (cfg : ServerConfig σ) (stack : Stack σ) (srv : Server σ)
    (adu : Mem UInt8) (len requestEndUs : Nat) (hlen : 4 ≤ len)
    : Serves cfg stack.locals srv (adu.slice 0 len)
        (processFrame cfg stack srv adu len requestEndUs) := by
  have hunit : (adu.slice 0 len).getD 0 0 = adu 0 := Pdu.getD_slice _ _ _ (by omega)
  have hfc : (adu.slice 0 len).getD 1 0 = adu 1 := Pdu.getD_slice _ _ _ (by omega)
  have hpdu := pduOf_slice adu len (by omega)
  have haccepts := accepts_iff cfg (adu 0) (adu 1)
  have hnone : Line.Put srv.line [] srv.line := Line.Put.refl srv.line
  unfold processFrame
  dsimp only [offsetUnitId, offsetFc, offsetPdu, rtuCrcLen]
  split
  . next hmatch =>
    have hrefused : ¬cfg.accepts (adu 0) (adu 1) := by
      rw [haccepts]
      simp_all
    refine ⟨?_, rfl, List.suffix_refl _, fun _ => ⟨[], hnone, List.nil_prefix, ?_⟩⟩
    . unfold serveFrame
      rw [hunit, hfc, if_neg hrefused]
    . simp [transmitted]
  . next hmatch =>
    split
    . next hread =>
      have hrefused : ¬cfg.accepts (adu 0) (adu 1) := by
        rw [haccepts]
        simp_all
      refine ⟨?_, rfl, List.suffix_refl _, fun _ => ⟨[], hnone, List.nil_prefix, ?_⟩⟩
      . unfold serveFrame
        rw [hunit, hfc, if_neg hrefused]
      . simp [transmitted]
    . next hread =>
      have haccepted : cfg.accepts (adu 0) (adu 1) := by
        rw [haccepts]
        simp_all
      rw [Pdu.handleRequest_eq_respond _ _ _ _ _ _ (by omega), hpdu]
      generalize hreply : Pdu.respond cfg.handlers (stack.locals srv.state) (pduOf (adu.slice 0 len))
        srv.state = reply
      have hserve : serveFrame cfg stack.locals (adu.slice 0 len) srv.state
          = (reply.state, .frame (adu.slice 0 len) :: reply.calls.map .call ++
            (if adu 0 = rtuBroadcastAddress then [] else
              cfg.sendEvents (withCrc (adu 0 :: reply.bytes)))) := by
        unfold serveFrame
        rw [hunit, hfc, if_pos haccepted, hreply]
      have hbytes := Pdu.length_respond cfg.handlers (stack.locals srv.state) (pduOf (adu.slice 0 len))
        srv.state
      rw [hreply] at hbytes
      dsimp only [Pdu.Reply.store]
      split
      . next hbroadcast =>
        rw [if_pos hbroadcast, List.append_nil] at hserve
        refine ⟨hserve.symm, rfl, List.suffix_refl _, fun _ => ⟨[], hnone, List.nil_prefix, ?_⟩⟩
        intro
        rw [transmitted_append, transmitted_calls]
        rfl
      . next hunicast =>
        rw [if_neg hunicast] at hserve
        obtain ⟨resp, happend, hslice⟩ := appendCrc_reply (stack.resp srv.state) (adu 0) reply.bytes hbytes.2
        rw [happend]
        dsimp only
        rw [hslice]
        generalize hline : waitResponseSilence srv.line _ _ = line
        have hwait : Line.Put srv.line [] line := hline ▸ waitResponseSilence_put _ _ _
        obtain ⟨hevents, sent, hsent, hprefix, hall⟩ :=
          sendFrame_put cfg line (withCrc (adu 0 :: reply.bytes))
        have htransmitted : transmitted ([.frame (adu.slice 0 len)] ++ reply.calls.map .call
            ++ cfg.sendEvents (withCrc (adu 0 :: reply.bytes))) = withCrc (adu 0 :: reply.bytes) := by
          rw [transmitted_append, transmitted_append, transmitted_calls, transmitted_sendEvents]
          rfl
        split
        . next line' events' heq =>
          rw [heq] at hevents hsent
          dsimp only at hevents
          subst hevents
          have hput := hwait.trans hsent
          refine ⟨hserve.symm, rfl, hput.rest, fun _ => ⟨sent, hput, ?_, ?_⟩⟩
          . rw [htransmitted]
            exact hprefix
          . simp
        . next line' events' heq =>
          rw [heq] at hevents hsent hall
          dsimp only at hevents
          subst hevents
          have hput := hwait.trans hsent
          refine ⟨hserve.symm, rfl, ?_, fun hfree => ⟨sent, ?_, ?_, ?_⟩⟩
          . dsimp only
            split
            . obtain ⟨echo, htook⟩ := discardEcho_took cfg line'
                (1 + reply.bytes.length + 2)
              exact htook.rest.trans hput.rest
            . exact hput.rest
          . have hecho : cfg.localEcho = false := by
              rw [← Bool.not_eq_true]
              intro hecho
              exact hfree hecho _ (List.mem_append_right _ (send_mem_sendEvents cfg _))
            rw [hecho]
            exact hput
          . rw [htransmitted]
            exact hprefix
          . intro
            rw [htransmitted]
            exact hall rfl

theorem framesOf_serveFrame (cfg : ServerConfig σ) (locals : σ → Pdu.Locals) (frame : List UInt8) (s : σ)
    : framesOf (serveFrame cfg locals frame s).2 = [frame] := by
  have hsend : ∀ adu, framesOf (cfg.sendEvents adu) = [] := by
    intro adu
    unfold ServerConfig.sendEvents
    split
    . simp [framesOf]
    . simp [framesOf]
  unfold serveFrame
  dsimp only
  split
  . rw [List.cons_append, ← List.singleton_append, framesOf_append, framesOf_append, framesOf_calls]
    split
    . rfl
    . rw [hsend]
      rfl
  . rfl

theorem callsOf_sendEvents (cfg : ServerConfig σ) (adu : List UInt8)
    : callsOf (cfg.sendEvents adu) = [] ∧ adusOf (cfg.sendEvents adu) = [adu] := by
  unfold ServerConfig.sendEvents
  split
  . simp [callsOf, adusOf]
  . simp [callsOf, adusOf]

theorem callsOf_serveFrame (cfg : ServerConfig σ) (locals : σ → Pdu.Locals) (frame : List UInt8) (s : σ)
    : callsOf (serveFrame cfg locals frame s).2
        =
      if cfg.accepts (frame.getD 0 0) (frame.getD 1 0) then
        (Pdu.respond cfg.handlers (locals s) (pduOf frame) s).calls
      else
        [] := by
  unfold serveFrame
  dsimp only
  split
  . rw [List.cons_append, ← List.singleton_append, callsOf_append, callsOf_append, callsOf_calls]
    split
    . apply List.append_nil
    . rw [(callsOf_sendEvents cfg _).1]
      apply List.append_nil
  . rfl

theorem adusOf_serveFrame (cfg : ServerConfig σ) (locals : σ → Pdu.Locals) (frame : List UInt8) (s : σ)
    : adusOf (serveFrame cfg locals frame s).2
        =
      if cfg.accepts (frame.getD 0 0) (frame.getD 1 0) ∧ frame.getD 0 0 ≠ rtuBroadcastAddress then
        [withCrc (frame.getD 0 0 :: (Pdu.respond cfg.handlers (locals s) (pduOf frame) s).bytes)]
      else
        [] := by
  unfold serveFrame
  dsimp only
  split
  . next haccepts =>
    rw [List.cons_append, ← List.singleton_append, adusOf_append, adusOf_append, adusOf_calls]
    split
    . next hbroadcast =>
      rw [if_neg fun h => h.2 hbroadcast]
      rfl
    . next hunicast =>
      rw [(callsOf_sendEvents cfg _).2, if_pos ⟨haccepts, hunicast⟩]
      rfl
  . next hrefused =>
    rw [if_neg fun h => hrefused h.1]
    rfl

-- What one call may leave that has read `chunk`: unless the read has failed, it has extracted at most one
-- frame from what it holds then, and has served that frame.
structure Called (cfg : ServerConfig σ) (locals : σ → Pdu.Locals) (srv : Server σ) (chunk : List UInt8)
    (p : Processed σ) : Prop where
  extracted :
    (p.rc ≠ 0 ∧ p.events = [] ∧ p.server.ctx.held = srv.ctx.held ++ chunk) ∨
      ∃ frame, requestFraming.extract (srv.ctx.held ++ chunk) = (frame, p.server.ctx.held) ∧
        framesOf p.events = frame.toList
  served : transduce (serveFrame cfg locals) (framesOf p.events) srv.state = (p.server.state, p.events)
  line : EchoFree cfg p.events → srv.line.bytes = chunk ++ p.server.line.bytes ∧
    (p.rc = 0 → p.server.line.outgoing = srv.line.outgoing ++ transmitted p.events)
  rest : p.server.line.bytes <:+ srv.line.bytes.drop chunk.length
  room : p.server.ctx.rxLen ≤ rtuMaxAduLength

theorem serverOnProcess_called (cfg : ServerConfig σ) (stack : Stack σ) (srv : Server σ)
    (hroom : srv.ctx.rxLen ≤ rtuMaxAduLength)
    (htimeout : assemblyTimedOut cfg srv.ctx (currentTimeUs srv.line).1 = false)
    : ∃ chunk, Line.Took srv.line chunk
          (readAvailableBytes srv.ctx (currentTimeUs srv.line).2 (currentTimeUs srv.line).1).2.2 ∧
        Called cfg stack.locals srv chunk (serverOnProcess cfg stack srv) := by
  have hclock := (clock_took srv.line).1
  obtain ⟨chunk, htook, hheld, hcap⟩ :=
    readAvailableBytes_reads srv.ctx (currentTimeUs srv.line).2 (currentTimeUs srv.line).1 hroom
  replace htook := hclock.trans htook
  rw [List.nil_append] at htook
  refine ⟨chunk, htook, ?_⟩
  unfold serverOnProcess
  dsimp only
  rw [htimeout]
  simp only [Bool.false_eq_true, ↓reduceIte]
  split
  . next ctx line heq =>
    rw [heq] at htook hheld hcap
    exact ⟨.inl ⟨by simp, rfl, hheld⟩, rfl, fun _ => ⟨htook.bytes, by simp⟩, htook.drop, hcap⟩
  . next ctx line heq =>
    rw [heq] at htook hheld hcap
    dsimp only at htook hheld hcap
    have hlimit : ctx.rxLen < sizeLimit := Nat.lt_of_le_of_lt hcap (by decide)
    obtain ⟨hlen, hextract⟩ := extractRequestFrame_eq ctx (stack.adu srv.state) hlimit
    rw [hheld] at hextract
    split
    . next ctx' hnone =>
      rw [hnone] at hextract hlen
      refine ⟨.inr ⟨none, hextract, rfl⟩, rfl, fun _ => ⟨htook.bytes, ?_⟩, htook.drop,
        Nat.le_trans hlen hcap⟩
      intro
      rw [htook.outgoing]
      exact (List.append_nil _).symm
    . next adu len ctx' hsome =>
      rw [hsome] at hlen hextract
      dsimp only [Option.map_some] at hlen hextract
      have hframe := (Framing.extract_some hextract).choose_spec.2
      have hfour : 4 ≤ len := by
        have := requestLen_complete (requestVerdict_take hframe).1
        rw [Mem.length_slice] at this
        omega
      obtain ⟨hserved, hctx, hrest, hsent⟩ := processFrame_serves cfg stack
        { srv with ctx := ctx', line := line } adu len ctx.lastRxUs hfour
      generalize processFrame cfg stack _ adu len ctx.lastRxUs = p at hserved hctx hrest hsent
      have hframes : framesOf p.events = [adu.slice 0 len] := by
        have hevents := congrArg Prod.snd hserved
        dsimp only at hevents
        rw [hevents, framesOf_serveFrame]
      dsimp only at hserved hctx
      constructor
      . right
        rw [hframes, hctx]
        exact ⟨_, hextract, rfl⟩
      . rw [hframes, transduce_singleton]
        exact hserved.symm
      . intro hfree
        obtain ⟨sent, hput, -, hall⟩ := hsent hfree
        refine ⟨?_, ?_⟩
        . rw [htook.bytes]
          unfold Line.bytes
          rw [hput.incoming]
        . intro hrc
          rw [hput.outgoing, hall hrc, htook.outgoing]
      . exact hrest.trans htook.drop
      . rw [hctx]
        exact Nat.le_trans hlen hcap

theorem not_assemblyTimedOut_reset (cfg : ServerConfig σ) (ctx : ServerCtx) (nowUs : Nat)
    : assemblyTimedOut cfg (resetRxState ctx) nowUs = false := by
  simp [assemblyTimedOut, resetRxState]

-- A call that gives up what it holds goes on like one that held nothing.
theorem serverOnProcess_timedOut (cfg : ServerConfig σ) (stack : Stack σ) (srv : Server σ)
    (htimeout : assemblyTimedOut cfg srv.ctx (currentTimeUs srv.line).1 = true)
    : serverOnProcess cfg stack srv
        = serverOnProcess cfg stack { srv with ctx := resetRxState srv.ctx } := by
  unfold serverOnProcess
  simp only [htimeout, not_assemblyTimedOut_reset, ite_true, Bool.false_eq_true, ite_false]

-- What is held is dropped first if the assembly has timed out.
theorem serverOnProcess_called_from (cfg : ServerConfig σ) (stack : Stack σ) (srv : Server σ)
    (hroom : srv.ctx.rxLen ≤ rtuMaxAduLength)
    : ∃ ctx chunk, Called cfg stack.locals { srv with ctx := ctx } chunk (serverOnProcess cfg stack srv) := by
  cases htimeout : assemblyTimedOut cfg srv.ctx (currentTimeUs srv.line).1 with
  | false =>
    obtain ⟨chunk, -, hcalled⟩ := serverOnProcess_called cfg stack srv hroom htimeout
    exact ⟨srv.ctx, chunk, hcalled⟩
  | true =>
    rw [serverOnProcess_timedOut cfg stack srv htimeout]
    obtain ⟨chunk, -, hcalled⟩ :=
      serverOnProcess_called cfg stack { srv with ctx := resetRxState srv.ctx } (Nat.zero_le _)
        (not_assemblyTimedOut_reset cfg srv.ctx _)
    exact ⟨resetRxState srv.ctx, chunk, hcalled⟩

theorem serverOnProcess_room (cfg : ServerConfig σ) (stack : Stack σ) (srv : Server σ)
    (hroom : srv.ctx.rxLen ≤ rtuMaxAduLength)
    : (serverOnProcess cfg stack srv).server.ctx.rxLen ≤ rtuMaxAduLength := by
  obtain ⟨ctx, chunk, hcalled⟩ := serverOnProcess_called_from cfg stack srv hroom
  exact hcalled.room

theorem Called.events {cfg : ServerConfig σ} {locals : σ → Pdu.Locals} {srv : Server σ}
    {chunk : List UInt8} {p : Processed σ} (h : Called cfg locals srv chunk p)
    : p.events = [] ∨ ∃ frame, p.events = (serveFrame cfg locals frame srv.state).2 := by
  obtain ⟨-, hevents, -⟩ | ⟨frame, -, hframes⟩ := h.extracted
  . exact .inl hevents
  . have hserved := congrArg Prod.snd h.served
    rw [hframes] at hserved
    cases frame with
    | none => exact .inl hserved.symm
    | some frame =>
      right
      refine ⟨frame, hserved.symm.trans ?_⟩
      apply List.append_nil

theorem serverOnProcess_events (cfg : ServerConfig σ) (stack : Stack σ) (srv : Server σ)
    (hroom : srv.ctx.rxLen ≤ rtuMaxAduLength)
    : (serverOnProcess cfg stack srv).events = [] ∨
        ∃ frame, (serverOnProcess cfg stack srv).events
          = (serveFrame cfg stack.locals frame srv.state).2 := by
  obtain ⟨ctx, chunk, hcalled⟩ := serverOnProcess_called_from cfg stack srv hroom
  exact hcalled.events

theorem runServer_room (cfg : ServerConfig σ) (stack : Stack σ) (pauses : List Nat) (srv : Server σ)
    (hroom : srv.ctx.rxLen ≤ rtuMaxAduLength)
    : (runServer cfg stack pauses srv).server.ctx.rxLen ≤ rtuMaxAduLength := by
  induction pauses generalizing srv with
  | nil => exact hroom
  | cons pause pauses ih =>
    apply ih
    apply serverOnProcess_room cfg stack (srv.pass pause) hroom

-- The frames that have been extracted together with those that are still to be found in what is left
-- are the frames of what there was before.
structure Transduces (cfg : ServerConfig σ) (locals : σ → Pdu.Locals) (srv : Server σ) (run : Run σ)
    : Prop where
  scan : requestFraming.scan (srv.ctx.held ++ srv.line.bytes)
      =
    (framesOf run.events
        ++ (requestFraming.scan (run.server.ctx.held ++ run.server.line.bytes)).1,
      (requestFraming.scan (run.server.ctx.held ++ run.server.line.bytes)).2)
  served : transduce (serveFrame cfg locals) (framesOf run.events) srv.state = (run.server.state, run.events)
  outgoing : run.ok = true →
    run.server.line.outgoing = srv.line.outgoing ++ transmitted run.events
  room : run.server.ctx.rxLen ≤ rtuMaxAduLength

def Processed.toRun (p : Processed σ) : Run σ :=
  ⟨p.server, p.events, p.rc = 0⟩

theorem Called.transduces {cfg : ServerConfig σ} {locals : σ → Pdu.Locals} {srv : Server σ}
    {chunk : List UInt8} {p : Processed σ} (h : Called cfg locals srv chunk p)
    (hecho : cfg.localEcho = false)
    : Transduces cfg locals srv p.toRun := by
  obtain ⟨hbytes, houtgoing⟩ := h.line (echoFree_of_localEcho hecho _)
  constructor
  . dsimp only [Processed.toRun]
    obtain ⟨-, hevents, hheld⟩ | ⟨frame, hextract, hframes⟩ := h.extracted
    . rw [hevents, hheld, hbytes, ← List.append_assoc]
      rfl
    . have hscan := Framing.scan_append_of_extract (F := requestFraming) (srv.ctx.held ++ chunk)
        p.server.line.bytes
      rw [hbytes, ← List.append_assoc, hscan, hextract, hframes]
      cases frame with
      | none => rfl
      | some frame => rfl
  . exact h.served
  . intro hok
    exact houtgoing (by simpa [Processed.toRun] using hok)
  . exact h.room

theorem serverOnProcess_step (cfg : ServerConfig σ) (stack : Stack σ) (srv : Server σ)
    (hecho : cfg.localEcho = false) (hroom : srv.ctx.rxLen ≤ rtuMaxAduLength)
    (htimeout : assemblyTimedOut cfg srv.ctx (currentTimeUs srv.line).1 = false)
    : Transduces cfg stack.locals srv (serverOnProcess cfg stack srv).toRun := by
  obtain ⟨chunk, -, hcalled⟩ := serverOnProcess_called cfg stack srv hroom htimeout
  exact hcalled.transduces hecho

-- No call of the run gives up bytes it holds because nothing has followed them for too long.
def NoTimeout (cfg : ServerConfig σ) (stack : Stack σ) : List Nat → Server σ → Prop
  | [], _ => True
  | pause :: pauses, srv =>
    assemblyTimedOut cfg srv.ctx (currentTimeUs (srv.pass pause).line).1 = false ∧
      NoTimeout cfg stack pauses (serverOnProcess cfg stack (srv.pass pause)).server

instance (cfg : ServerConfig σ) (stack : Stack σ)
    : (pauses : List Nat) → (srv : Server σ) → Decidable (NoTimeout cfg stack pauses srv)
  | [], _ => .isTrue trivial
  | pause :: pauses, srv =>
    have := instDecidableNoTimeout cfg stack pauses
      (serverOnProcess cfg stack (srv.pass pause)).server
    inferInstanceAs (Decidable (_ ∧ _))

theorem Transduces.trans {cfg : ServerConfig σ} {locals : σ → Pdu.Locals} {srv : Server σ}
    {run run' : Run σ} (h : Transduces cfg locals srv run)
    (h' : Transduces cfg locals run.server run')
    : Transduces cfg locals srv ⟨run'.server, run.events ++ run'.events, run.ok && run'.ok⟩ := by
  constructor
  . rw [h.scan, h'.scan, framesOf_append, List.append_assoc]
  . rw [framesOf_append, transduce_append, h.served, h'.served]
  . intro hok
    rw [Bool.and_eq_true] at hok
    rw [h'.outgoing hok.2, h.outgoing hok.1, transmitted_append, List.append_assoc]
  . exact h'.room

theorem Transduces.of_pass {cfg : ServerConfig σ} {locals : σ → Pdu.Locals} {srv : Server σ} {us : Nat}
    {run : Run σ} (h : Transduces cfg locals (srv.pass us) run)
    : Transduces cfg locals srv run := by
  exact ⟨h.scan, h.served, h.outgoing, h.room⟩

theorem runServer_steps (cfg : ServerConfig σ) (stack : Stack σ) (pauses : List Nat) (srv : Server σ)
    (hecho : cfg.localEcho = false) (hroom : srv.ctx.rxLen ≤ rtuMaxAduLength)
    (htimeout : NoTimeout cfg stack pauses srv)
    : Transduces cfg stack.locals srv (runServer cfg stack pauses srv) := by
  induction pauses generalizing srv with
  | nil =>
    constructor
    . rfl
    . rfl
    . intro
      exact (List.append_nil _).symm
    . exact hroom
  | cons pause pauses ih =>
    obtain ⟨hquiet, hlater⟩ := htimeout
    have hstep := serverOnProcess_step cfg stack (srv.pass pause) hecho hroom hquiet
    exact (hstep.trans (ih _ hstep.room hlater)).of_pass

-- A slave with one register bank that holds 7 everywhere and accepts every write.
def sampleConfig (unitId : UInt8) : ServerConfig Unit where
  unitId := unitId
  recvTimeoutMs := 0
  interFrameDelayUs := 0
  localEcho := false
  onTxEnable := false
  handlers := {
    readRegisters := some fun _ _ _ _ s => ⟨0, fun _ => 7, s⟩
    writeRegisters := some fun _ _ _ s => ⟨0, s⟩
    readBits := some fun _ _ _ out s => ⟨0, out, s⟩
    writeBits := some fun _ _ _ s => ⟨0, s⟩ }

def sampleStack : Stack σ :=
  ⟨fun _ => ⟨fun _ => 0, fun _ => 0⟩, fun _ _ => 0, fun _ _ => 0⟩

-- An empty receive buffer, and a line on which `bytes` have arrived.
def sampleServer (incoming : List Arrival) : Server Unit :=
  ⟨⟨fun _ => 0, 0, 0, 1750⟩, (), ⟨1, incoming, [], [], none⟩⟩

end Rtu
