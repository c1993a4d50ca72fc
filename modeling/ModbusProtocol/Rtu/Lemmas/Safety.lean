import Mathlib.Data.List.Forall2
import ModbusProtocol.Rtu.Lemmas.Server

/-!
This module contains what holds of every run of an RTU server, also where reads and writes fail, requests are
given up half-way and echoes are discarded: no byte it receives belongs to two requests, every request is
carried out once, and what is sent are the replies.
-/

open Modbus Posix

namespace Rtu

-- The replies among `events` have been sent one after the other, where a failure cuts one short.
def Replied (before : Line) (events : List Event) (ok : Prop) (after : Line) : Prop :=
  ∃ sents, List.Forall₂ (· <+: ·) sents (adusOf events) ∧
    after.outgoing = before.outgoing ++ sents.flatten ∧ (ok → sents = adusOf events)

theorem Replied.silent {before after : Line} {events : List Event} (ok : Prop)
    (houtgoing : after.outgoing = before.outgoing) (hevents : adusOf events = [])
    : Replied before events ok after := by
  refine ⟨[], ?_, ?_, ?_⟩
  . rw [hevents]
    exact .nil
  . rw [houtgoing]
    exact (List.append_nil _).symm
  . intro
    rw [hevents]

theorem Replied.reply {before after : Line} {events : List Event} {ok : Prop} {adu sent : List UInt8}
    (houtgoing : after.outgoing = before.outgoing ++ sent) (hevents : adusOf events = [adu])
    (hpart : sent <+: adu) (hall : ok → sent = adu)
    : Replied before events ok after := by
  refine ⟨[sent], ?_, ?_, ?_⟩
  . rw [hevents]
    exact .cons hpart .nil
  . rw [houtgoing, List.flatten_singleton]
  . intro hok
    rw [hevents, hall hok]

theorem Replied.trans {before line after : Line} {events events' : List Event} {ok ok' : Prop}
    (h : Replied before events ok line) (h' : Replied line events' ok' after)
    : Replied before (events ++ events') (ok ∧ ok') after := by
  obtain ⟨sents, hparts, houtgoing, hall⟩ := h
  obtain ⟨sents', hparts', houtgoing', hall'⟩ := h'
  refine ⟨sents ++ sents', ?_, ?_, ?_⟩
  . rw [adusOf_append]
    exact List.rel_append hparts hparts'
  . rw [houtgoing', houtgoing, List.flatten_append, List.append_assoc]
  . intro hok
    rw [adusOf_append, hall hok.1, hall' hok.2]

variable {σ : Type}

theorem processFrame_replied (cfg : ServerConfig σ) (stack : Stack σ) (srv : Server σ) (adu : Mem UInt8)
    (totalLen requestEndUs : Nat)
    : let p := processFrame cfg stack srv adu totalLen requestEndUs
      Replied srv.line p.events (p.rc = 0) p.server.line := by
  unfold processFrame
  dsimp only
  split
  . apply Replied.silent
    . rfl
    . rfl
  . split
    . apply Replied.silent
      . rfl
      . rfl
    . generalize Pdu.handleRequest cfg.handlers (stack.locals srv.state) _ _ _ srv.state = out
      have hcalls : adusOf ([.frame (adu.slice 0 totalLen)] ++ out.calls.map .call) = [] := by
        rw [adusOf_append, adusOf_calls]
        rfl
      split
      . apply Replied.silent _ rfl hcalls
      . split
        . apply Replied.silent _ rfl hcalls
        . next resp _ =>
          have hwait := waitResponseSilence_put srv.line requestEndUs (effectiveInterFrameUs cfg srv.ctx)
          generalize waitResponseSilence srv.line _ _ = line at hwait ⊢
          obtain ⟨hevents, sent, hput, hpart, hall⟩ :=
            sendFrame_put cfg line (resp.slice 0 (offsetPdu + out.len + rtuCrcLen))
          have houtgoing := (hwait.trans hput).outgoing
          rw [List.nil_append] at houtgoing
          have hadus : ∀ events reply, events = cfg.sendEvents reply →
              adusOf ([.frame (adu.slice 0 totalLen)] ++ out.calls.map .call ++ events) = [reply] := by
            intro events reply heq
            rw [adusOf_append, hcalls, heq, (callsOf_sendEvents cfg reply).2]
            rfl
          generalize sendFrame cfg line (resp.slice 0 (offsetPdu + out.len + rtuCrcLen)) = result
            at hevents houtgoing hall ⊢
          obtain ⟨sendOk, line', events⟩ := result
          cases sendOk with
          | false =>
            apply Replied.reply houtgoing (hadus _ _ hevents) hpart
            simp
          | true =>
            apply Replied.reply _ (hadus _ _ hevents) hpart
            . intro
              exact hall rfl
            . dsimp only
              split
              . obtain ⟨echo, htook⟩ := discardEcho_took cfg line' (offsetPdu + out.len + rtuCrcLen)
                rw [htook.outgoing, houtgoing]
              . exact houtgoing

theorem serverOnProcess_replied (cfg : ServerConfig σ) (stack : Stack σ) (srv : Server σ)
    (hroom : srv.ctx.rxLen ≤ rtuMaxAduLength)
    : let p := serverOnProcess cfg stack srv
      Replied srv.line p.events (p.rc = 0) p.server.line := by
  have hclock := (clock_took srv.line).1
  unfold serverOnProcess
  dsimp only
  generalize hctx : (if assemblyTimedOut cfg srv.ctx (currentTimeUs srv.line).1 then resetRxState srv.ctx
    else srv.ctx) = ctx
  have hcap : ctx.rxLen ≤ rtuMaxAduLength := by
    rw [← hctx]
    split
    . apply Nat.zero_le
    . exact hroom
  obtain ⟨chunk, htook, -⟩ :=
    readAvailableBytes_reads ctx (currentTimeUs srv.line).2 (currentTimeUs srv.line).1 hcap
  have houtgoing := (hclock.trans htook).outgoing
  split
  . next ctx' line heq =>
    rw [heq] at houtgoing
    apply Replied.silent _ houtgoing rfl
  . next ctx' line heq =>
    rw [heq] at houtgoing
    split
    . apply Replied.silent _ houtgoing rfl
    . next adu totalLen ctx'' _ =>
      have hreplied := processFrame_replied cfg stack { srv with ctx := ctx'', line := line } adu totalLen
        ctx'.lastRxUs
      dsimp only at hreplied houtgoing
      unfold Replied at hreplied ⊢
      rw [← houtgoing]
      exact hreplied

-- What is left of the bytes of an extraction, without those that have been skipped.
theorem extract_sublist {l rest : List UInt8} {frame : Option (List UInt8)}
    (h : requestFraming.extract l = (frame, rest))
    : (frame.toList.flatten ++ rest).Sublist l := by
  cases frame with
  | none =>
    have hsuffix := Framing.extract_suffix (F := requestFraming) l
    rw [h] at hsuffix
    exact hsuffix.sublist
  | some frame =>
    obtain ⟨skipped, hsplit, -⟩ := Framing.extract_some h
    rw [hsplit, List.append_assoc]
    rw [Option.toList_some, List.flatten_singleton]
    apply List.sublist_append_right

-- What a call makes of the bytes that the server holds and of those still to come.
structure Consumes (srv : Server σ) (events : List Event) (srv' : Server σ) : Prop where
  frames : ∀ frame ∈ framesOf events, ValidRequest frame
  bytes : ((framesOf events).flatten ++ (srv'.ctx.held ++ srv'.line.bytes)).Sublist
    (srv.ctx.held ++ srv.line.bytes)

theorem Called.consumes {cfg : ServerConfig σ} {locals : σ → Pdu.Locals} {srv : Server σ}
    {chunk : List UInt8} {p : Processed σ} (h : Called cfg locals srv chunk p)
    (hchunk : chunk <+: srv.line.bytes)
    : Consumes srv p.events p.server := by
  obtain ⟨later, hlater⟩ := hchunk
  have hrest := h.rest
  rw [← hlater, List.drop_left] at hrest
  obtain ⟨-, hevents, hheld⟩ | ⟨frame, hextract, hframes⟩ := h.extracted
  . rw [hevents]
    constructor
    . intro frame hframe
      contradiction
    . rw [hheld, ← hlater, ← List.append_assoc srv.ctx.held]
      change ((srv.ctx.held ++ chunk) ++ p.server.line.bytes).Sublist _
      exact (List.Sublist.refl _).append hrest.sublist
  . constructor
    . rw [hframes]
      intro frame' hmem
      rw [Option.mem_toList] at hmem
      rw [hmem] at hextract
      exact (ValidRequest.of_extract hextract).1
    . rw [hframes, ← hlater, ← List.append_assoc, ← List.append_assoc]
      exact (extract_sublist hextract).append hrest.sublist

theorem serverOnProcess_consumes (cfg : ServerConfig σ) (stack : Stack σ) (srv : Server σ)
    (hroom : srv.ctx.rxLen ≤ rtuMaxAduLength)
    : Consumes srv (serverOnProcess cfg stack srv).events (serverOnProcess cfg stack srv).server := by
  cases htimeout : assemblyTimedOut cfg srv.ctx (currentTimeUs srv.line).1 with
  | false =>
    obtain ⟨chunk, htook, hcalled⟩ := serverOnProcess_called cfg stack srv hroom htimeout
    apply hcalled.consumes
    rw [htook.bytes]
    apply List.prefix_append
  | true =>
    rw [serverOnProcess_timedOut cfg stack srv htimeout]
    obtain ⟨chunk, htook, hcalled⟩ :=
      serverOnProcess_called cfg stack { srv with ctx := resetRxState srv.ctx } (Nat.zero_le _)
        (not_assemblyTimedOut_reset cfg srv.ctx _)
    have hconsumes := hcalled.consumes (by rw [htook.bytes]; apply List.prefix_append)
    constructor
    . exact hconsumes.frames
    . apply hconsumes.bytes.trans
      apply List.sublist_append_right

theorem Consumes.trans {srv srv' srv'' : Server σ} {events events' : List Event}
    (h : Consumes srv events srv') (h' : Consumes srv' events' srv'')
    : Consumes srv (events ++ events') srv'' := by
  constructor
  . intro frame hframe
    rw [framesOf_append, List.mem_append] at hframe
    cases hframe with
    | inl hfront => exact h.frames frame hfront
    | inr hback => exact h'.frames frame hback
  . rw [framesOf_append, List.flatten_append, List.append_assoc]
    exact ((List.Sublist.refl _).append h'.bytes).trans h.bytes

theorem serverOnProcess_served (cfg : ServerConfig σ) (stack : Stack σ) (srv : Server σ)
    (hroom : srv.ctx.rxLen ≤ rtuMaxAduLength)
    : let p := serverOnProcess cfg stack srv
      transduce (serveFrame cfg stack.locals) (framesOf p.events) srv.state = (p.server.state, p.events) := by
  obtain ⟨ctx, chunk, hcalled⟩ := serverOnProcess_called_from cfg stack srv hroom
  exact hcalled.served

theorem runServer_consumes (cfg : ServerConfig σ) (stack : Stack σ) (pauses : List Nat) (srv : Server σ)
    (hroom : srv.ctx.rxLen ≤ rtuMaxAduLength)
    : Consumes srv (runServer cfg stack pauses srv).events (runServer cfg stack pauses srv).server := by
  induction pauses generalizing srv with
  | nil =>
    constructor
    . intro frame hframe
      contradiction
    . apply List.Sublist.refl
  | cons pause pauses ih =>
    have hstep := serverOnProcess_consumes cfg stack (srv.pass pause) hroom
    have hpass : Consumes srv (serverOnProcess cfg stack (srv.pass pause)).events
        (serverOnProcess cfg stack (srv.pass pause)).server := ⟨hstep.frames, hstep.bytes⟩
    exact hpass.trans (ih _ (serverOnProcess_room cfg stack (srv.pass pause) hroom))

theorem runServer_served (cfg : ServerConfig σ) (stack : Stack σ) (pauses : List Nat) (srv : Server σ)
    (hroom : srv.ctx.rxLen ≤ rtuMaxAduLength)
    : let run := runServer cfg stack pauses srv
      transduce (serveFrame cfg stack.locals) (framesOf run.events) srv.state
        = (run.server.state, run.events) := by
  induction pauses generalizing srv with
  | nil => rfl
  | cons pause pauses ih =>
    have hserve := serverOnProcess_served cfg stack (srv.pass pause) hroom
    have hlater := ih _ (serverOnProcess_room cfg stack (srv.pass pause) hroom)
    have hstate : (srv.pass pause).state = srv.state := by
      rfl
    unfold runServer
    dsimp only at hserve hlater ⊢
    rw [hstate] at hserve
    rw [framesOf_append, transduce_append, hserve, hlater]

theorem runServer_replied (cfg : ServerConfig σ) (stack : Stack σ) (pauses : List Nat) (srv : Server σ)
    (hroom : srv.ctx.rxLen ≤ rtuMaxAduLength)
    : let run := runServer cfg stack pauses srv
      Replied srv.line run.events (run.ok = true) run.server.line := by
  induction pauses generalizing srv with
  | nil => exact Replied.silent _ rfl rfl
  | cons pause pauses ih =>
    have hreply := serverOnProcess_replied cfg stack (srv.pass pause) hroom
    have hlater := ih _ (serverOnProcess_room cfg stack (srv.pass pause) hroom)
    unfold runServer
    dsimp only at hreply hlater ⊢
    rw [Bool.and_eq_true, decide_eq_true_iff]
    exact hreply.trans hlater

-- Whatever becomes of the reads, the writes, the timeouts and the echoes of a run: the requests are taken
-- from the bytes in their order, without a byte that would belong to two of them, each of them is carried
-- out once, and what has been sent are the replies, up to where a write has failed.
theorem runServer_safe (cfg : ServerConfig σ) (stack : Stack σ) (pauses : List Nat) (srv : Server σ)
    (hroom : srv.ctx.rxLen ≤ rtuMaxAduLength)
    : let run := runServer cfg stack pauses srv
      let frames := framesOf run.events
      (∀ frame ∈ frames, ValidRequest frame) ∧
      (frames.flatten ++ (run.server.ctx.held ++ run.server.line.bytes)).Sublist
        (srv.ctx.held ++ srv.line.bytes) ∧
      transduce (serveFrame cfg stack.locals) frames srv.state = (run.server.state, run.events) ∧
      ∃ sents, List.Forall₂ (· <+: ·) sents (adusOf run.events) ∧
        run.server.line.outgoing = srv.line.outgoing ++ sents.flatten ∧
        (run.ok = true → sents = adusOf run.events) := by
  have hconsumes := runServer_consumes cfg stack pauses srv hroom
  refine ⟨hconsumes.frames, hconsumes.bytes, ?_, ?_⟩
  . apply runServer_served cfg stack pauses srv hroom
  . apply runServer_replied cfg stack pauses srv hroom

-- A request of which only two bytes come, and after three seconds a whole one.
def brokenServer : Server Unit :=
  sampleServer (⟨0, 1⟩ :: ⟨0, 3⟩ ::
    [1, 3, 0, 0, 0, 1, 0x84, 0x0A].map fun byte => ⟨3000000, byte⟩)

theorem runServer_safe_broken
    : let cfg := { sampleConfig 1 with localEcho := true }
      let run := runServer cfg sampleStack [0, 3000000] brokenServer
      framesOf run.events = [[1, 3, 0, 0, 0, 1, 0x84, 0x0A]] ∧
      (framesOf run.events).flatten.length + run.server.ctx.rxLen ≤ 10 ∧
      transduce (serveFrame cfg sampleStack.locals) (framesOf run.events) () = (run.server.state, run.events) := by
  obtain ⟨-, hbytes, hserved, -⟩ :=
    runServer_safe { sampleConfig 1 with localEcho := true } sampleStack [0, 3000000] brokenServer
      (by decide)
  refine ⟨by decide +kernel, ?_, hserved⟩
  have hlen := hbytes.length_le
  rw [List.length_append, List.length_append, length_held] at hlen
  exact Nat.le_trans (by omega) hlen

end Rtu
