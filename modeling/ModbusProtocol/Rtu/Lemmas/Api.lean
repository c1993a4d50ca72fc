import ModbusProtocol.Rtu.Impl.Api
import ModbusProtocol.Rtu.Lemmas.Frame
import ModbusProtocol.Rtu.Lemmas.Hearing
import ModbusProtocol.Rtu.Lemmas.Query
import ModbusProtocol.Rtu.Lemmas.Read

/-!
This module contains what a program can make an RTU client send, with whatever arguments it calls the
functions of the client, and what comes of that at a server.
-/

open Modbus Posix

namespace Rtu.Client

-- The transaction of a request PDU, as it has been built.
def transactBuilt (ses : Session) (built : Mem UInt8 × Nat) (buffers : ReadBuffers)
    : Transaction Session :=
  (transact ses buffers.req built.1 built.2 buffers.resp).transaction

theorem api_eq
    : api = ClientApi.over errArg transactBuilt Api.setUnitId := by
  unfold api ClientApi.over
  congr 1
  . exact readRegisters_eq funcReadHoldingRegisters
  . exact readRegisters_eq funcReadInputRegisters
  . exact readBits_eq funcReadCoils
  . exact readBits_eq funcReadDiscreteInputs
  . funext ses addr value buffers
    cases ses with
    | none => rfl
    | some ses => rfl
  . funext ses addr value buffers
    cases ses with
    | none => rfl
    | some ses => rfl
  . funext ses addr qty data buffers
    cases ses with
    | none => rfl
    | some ses =>
      cases data with
      | none => rfl
      | some data => rfl
  . funext ses addr qty values buffers
    cases ses with
    | none => rfl
    | some ses =>
      cases values with
      | none => rfl
      | some values => rfl

theorem api_lawful
    : api.Lawful (performOver transactBuilt) errArg := by
  rw [api_eq]
  apply ClientApi.over_lawful

-- A probe is a read of which nobody sees the values.
theorem probeDevice_reads (ses : Option Session) (addr qty : UInt16) (probeBuf : Mem UInt16)
    (buffers : ReadBuffers)
    : let read := (ApiCall.readHoldingRegisters addr qty (some probeBuf)).make api ses buffers
      probeDevice ses addr qty probeBuf buffers = ⟨read.rc, read.ses, read.events⟩ := by
  unfold probeDevice
  dsimp only [ApiCall.make]
  split
  . next hqty =>
    have hnone : (ApiCall.readHoldingRegisters addr qty (some probeBuf)).operation = none := by
      apply dif_neg
      intro hargs
      exact qty_admitted hargs.2 hqty
    have hrefused := api_lawful.refused _ ses buffers (.inr hnone)
    injection hrefused with hrc _ _ hses hevents
    rw [hrc, hses, hevents]
  . rfl

-- A request that a client sends, with the unit id that it goes to.
structure Asked where
  unitId : UInt8
  op : Pdu.Operation

def Asked.adu (asked : Asked) : List UInt8 :=
  requestAdu asked.unitId asked.op

-- What is asked for on the line, of a client that has a port.
def asks (act : ApiAct) (unitId : UInt8) : UInt8 × List Asked :=
  match act with
  | .pause _ => (unitId, [])
  | .setUnitId unitId' => (unitId', [])
  | .request call _ =>
    match call.operation with
    | none => (unitId, [])
    | some op =>
      if unitId = rtuBroadcastAddress ∧ Pdu.isWrite op.fc = false then
        (unitId, [])
      else
        (unitId, [⟨unitId, op⟩])

theorem transact_ctx (ses : Session) (req pdu : Mem UInt8) (pduLen : Nat) (resp : Mem UInt8)
    : (transact ses req pdu pduLen resp).ses.ctx = ses.ctx := by
  unfold transact awaitResponse
  dsimp only
  split
  . rfl
  . split
    . rfl
    . split
      . rfl
      . split
        . rfl
        . split
          . rfl
          . split
            . rfl
            . split
              . rfl
              . rfl

theorem act_asks (act : ApiAct) {ses : Session} (h : ses.ctx.initialized = true)
    : let done := api.act Session.pass act ses
      let asked := asks act ses.unitId
      done.1.ctx.initialized = true ∧ done.1.unitId = asked.1 ∧
        adusOf done.2 = asked.2.map Asked.adu := by
  cases act with
  | pause us => exact ⟨h, rfl, rfl⟩
  | setUnitId unitId =>
    have hset : setUnitId ses.ctx unitId = { ses.ctx with cfg := { ses.ctx.cfg with unitId := unitId } } := by
      unfold setUnitId
      rw [if_neg (by simp [h])]
    unfold ClientApi.act api Api.setUnitId
    dsimp only
    rw [if_neg (by simp [h]), hset]
    exact ⟨h, rfl, rfl⟩
  | request call buffers =>
    unfold asks
    dsimp only
    cases hop : call.operation with
    | none =>
      rw [api_lawful.act_refused Session.pass hop]
      exact ⟨h, rfl, rfl⟩
    | some op =>
      have hctx := transact_ctx ses buffers.req (op.build buffers.pdu).1 (op.build buffers.pdu).2 buffers.resp
      rw [api_lawful.act_performed Session.pass hop]
      unfold performOver transactBuilt Transacted.transaction Session.unitId at *
      dsimp only
      rw [hctx]
      split
      . next hrefused =>
        refine ⟨h, rfl, ?_⟩
        unfold transact
        dsimp only
        rw [build_zero, if_neg (by simp [h]), if_pos (by simpa [Session.unitId] using hrefused)]
        rfl
      . next hsends =>
        refine ⟨h, rfl, ?_⟩
        rw [adusOf_transact h, slice_frameRequest]
        . rfl
        . intro hbroadcast
          rw [build_zero]
          by_contra hread
          exact hsends ⟨hbroadcast, Bool.not_eq_true _ ▸ hread⟩

theorem recvEcho_outgoing (ses : Session) (req : List UInt8) (line : Line)
    : (recvEcho ses req line).2.outgoing = line.outgoing := by
  unfold recvEcho
  split
  . have hclock := responseDeadlineUs_took ses line
    generalize responseDeadlineUs ses line = deadline at hclock
    have hreads := readExactTimeout_reads deadline.2 req.length deadline.1
    exact (hclock.trans hreads.took).outgoing
  . rfl

-- Once the request is on its way, nothing more is written.
theorem awaitResponse_writes (ses : Session) (pdu resp : Mem UInt8) (req : List UInt8) (line : Line)
    (events : List Event)
    : (awaitResponse ses pdu resp req line events).ses.line.outgoing = line.outgoing := by
  have hecho := recvEcho_outgoing ses req line
  have hend : ∀ line', (busTransactionEnd ses line').line.outgoing = line'.outgoing := fun line' =>
    (busTransactionEnd_took ses line').outgoing
  unfold awaitResponse
  generalize recvEcho ses req line = echoed at hecho
  obtain ⟨same, line'⟩ := echoed
  dsimp only at hecho
  cases same with
  | false =>
    dsimp only
    rw [hend, hecho]
  | true =>
    obtain ⟨taken, htook, -⟩ := (recvResponse_within ses (pdu 0) resp line').took
    dsimp only
    split
    . dsimp only
      rw [hend, hecho]
    . split
      . dsimp only
        rw [hend, htook.outgoing, hecho]
      . split
        . dsimp only
          rw [hend, htook.outgoing, hecho]
        . dsimp only
          rw [hend, htook.outgoing, hecho]

theorem sendFrame_writes (cfg : ClientConfig) (line : Line) (buf : List UInt8)
    : ∃ sent, sent <+: buf ∧ (sendFrame cfg line buf).2.1.outgoing = line.outgoing ++ sent := by
  obtain ⟨sent, hput, hpart, -⟩ := Line.writeAll_put false line buf
  refine ⟨sent, hpart, ?_⟩
  unfold sendFrame writeAll
  generalize line.writeAll false buf = result at hput ⊢
  obtain ⟨written, line'⟩ := result
  cases written with
  | true =>
    have hdrain := (hput.trans (Line.turn_put line')).outgoing
    rw [List.append_nil] at hdrain
    dsimp only
    split
    . exact hdrain
    . exact hdrain
  | false =>
    dsimp only
    split
    . exact hput.outgoing
    . exact hput.outgoing

theorem transact_writes (ses : Session) (req pdu : Mem UInt8) (pduLen : Nat) (resp : Mem UInt8)
    : let result := transact ses req pdu pduLen resp
      Replied ses.line result.events False result.ses.line := by
  unfold transact
  dsimp only
  split
  . exact Replied.silent _ rfl rfl
  . split
    . exact Replied.silent _ rfl rfl
    . generalize (frameRequest ses.unitId req pdu pduLen).1.slice 0 _ = frame
      obtain ⟨sent, hpart, houtgoing⟩ := sendFrame_writes ses.ctx.cfg ses.flushed frame
      have hadus := adusOf_sendFrame ses.ctx.cfg ses.flushed frame
      rw [flushed_outgoing] at houtgoing
      generalize sendFrame ses.ctx.cfg ses.flushed frame = result at hadus houtgoing ⊢
      obtain ⟨written, line, events⟩ := result
      cases written with
      | false =>
        dsimp only
        have hend := (busTransactionEnd_took ses line).outgoing
        exact Replied.reply (hend.trans houtgoing) hadus hpart False.elim
      | true =>
        dsimp only
        have hend := awaitResponse_writes ses pdu resp frame line events
        rw [awaitResponse_events]
        exact Replied.reply (hend.trans houtgoing) hadus hpart False.elim

theorem act_writes (act : ApiAct) (ses : Session)
    : let done := api.act Session.pass act ses
      Replied ses.line done.2 False done.1.line := by
  cases act with
  | pause us => exact Replied.silent _ rfl rfl
  | setUnitId unitId =>
    unfold ClientApi.act api Api.setUnitId
    dsimp only
    split
    . exact Replied.silent _ rfl rfl
    . exact Replied.silent _ rfl rfl
  | request call buffers =>
    dsimp only
    cases hop : call.operation with
    | none =>
      rw [api_lawful.act_refused Session.pass hop]
      exact Replied.silent _ rfl rfl
    | some op =>
      rw [api_lawful.act_performed Session.pass hop]
      exact transact_writes ses buffers.req (op.build buffers.pdu).1 (op.build buffers.pdu).2 buffers.resp

-- The bytes that a client writes are those of its requests, each of which may be cut short.
theorem acts_write (acts : List ApiAct) (ses : Session)
    : let client := transduce (api.act Session.pass) acts ses
      Replied ses.line client.2 False client.1.line := by
  induction acts generalizing ses with
  | nil => exact Replied.silent _ rfl rfl
  | cons act acts ih =>
    have hboth := (act_writes act ses).trans (ih (api.act Session.pass act ses).1)
    rw [and_self] at hboth
    exact hboth

-- What a client sends is settled by what the program does, whatever becomes of its requests.
theorem acts_ask (acts : List ApiAct) {ses : Session} (h : ses.ctx.initialized = true)
    : adusOf (transduce (api.act Session.pass) acts ses).2
        = (transduce asks acts ses.unitId).2.map Asked.adu := by
  induction acts generalizing ses with
  | nil => rfl
  | cons act acts ih =>
    obtain ⟨hinit, hunit, hadus⟩ := act_asks act h
    unfold transduce
    dsimp only
    rw [adusOf_append, List.map_append, hadus, ih hinit, hunit]

end Rtu.Client

namespace Rtu

variable {σ : Type}

-- Whether a request reaches the application of a server, and whether it is answered.
def ServerConfig.executes (cfg : ServerConfig σ) (asked : Client.Asked) : Bool :=
  cfg.accepts asked.unitId asked.op.fc ∧ ¬asked.op.overflows

def ServerConfig.answers (cfg : ServerConfig σ) (asked : Client.Asked) : Bool :=
  cfg.accepts asked.unitId asked.op.fc ∧ asked.unitId ≠ rtuBroadcastAddress

-- A frame that answers a request. Its addresses are checked before the application sees it.
def Answers (adu : List UInt8) (asked : Client.Asked) : Prop :=
  ∃ answer rc, adu = withCrc (asked.unitId :: answer) ∧ asked.op.AnsweredBy answer rc ∧
    (asked.op.overflows → rc = 2)

theorem serveFrame_asked {cfg : ServerConfig σ} (hcomplete : cfg.handlers.Complete) (locals : σ → Pdu.Locals)
    (asked : Client.Asked) (s : σ)
    : let served := serveFrame cfg locals asked.adu s
      callsOf served.2 = ([asked].filter cfg.executes).map (fun asked => asked.op.call) ∧
      List.Forall₂ Answers (adusOf served.2) ([asked].filter cfg.answers) := by
  obtain ⟨unitId, op⟩ := asked
  unfold Client.Asked.adu requestAdu
  have hpos : 0 < op.bytes.length := Nat.lt_of_lt_of_le (by decide) op.five_le_length
  by_cases haccepts : cfg.accepts unitId op.fc
  . have hanswers := Pdu.respond_answers cfg.handlers (locals s) op ⟨fun _ => 0, fun _ => 0⟩ s
    have hserve := serveFrame_withCrc hpos haccepts locals s
    dsimp only at hserve ⊢
    rw [hserve, ← List.singleton_append, callsOf_append, callsOf_append, callsOf_calls, adusOf_append,
      adusOf_append, adusOf_calls, Pdu.calls_respond hcomplete]
    constructor
    . have hsilent : ∀ adu, callsOf (if unitId = rtuBroadcastAddress then [] else cfg.sendEvents adu)
          = [] := by
        intro adu
        split
        . rfl
        . exact (callsOf_sendEvents cfg adu).1
      rw [hsilent, List.append_nil]
      by_cases hover : op.overflows
      . rw [if_pos hover, List.filter_cons_of_neg (by simp [ServerConfig.executes, hover])]
        rfl
      . rw [if_neg hover, List.filter_cons_of_pos (by simp [ServerConfig.executes, haccepts, hover])]
        rfl
    . by_cases hbroadcast : unitId = rtuBroadcastAddress
      . rw [if_pos hbroadcast, List.filter_cons_of_neg (by simp [ServerConfig.answers, hbroadcast])]
        exact .nil
      . rw [if_neg hbroadcast, (callsOf_sendEvents cfg _).2,
          List.filter_cons_of_pos (by simp [ServerConfig.answers, haccepts, hbroadcast])]
        refine .cons ⟨_, _, rfl, hanswers, ?_⟩ .nil
        intro hover
        exact Pdu.answer_overflows hcomplete (locals s) hover hanswers
  . have hrefused : ¬cfg.accepts ((withCrc (unitId :: op.bytes)).getD 0 0)
        ((withCrc (unitId :: op.bytes)).getD 1 0) := by
      rw [getD_withCrc unitId hpos]
      exact haccepts
    dsimp only
    rw [serveFrame_refused hrefused, List.filter_cons_of_neg (by simp [ServerConfig.executes, haccepts]),
      List.filter_cons_of_neg (by simp [ServerConfig.answers, haccepts])]
    exact ⟨rfl, .nil⟩

theorem serve_asked {cfg : ServerConfig σ} (hcomplete : cfg.handlers.Complete) (locals : σ → Pdu.Locals)
    (heard : List Client.Asked) (s : σ)
    : let served := transduce (serveFrame cfg locals) (heard.map Client.Asked.adu) s
      callsOf served.2 = (heard.filter cfg.executes).map (fun asked => asked.op.call) ∧
      List.Forall₂ Answers (adusOf served.2) (heard.filter cfg.answers) := by
  induction heard generalizing s with
  | nil => exact ⟨rfl, .nil⟩
  | cons asked heard ih =>
    obtain ⟨hcalls, hreplies⟩ := serveFrame_asked hcomplete locals asked s
    obtain ⟨hlater, hlast⟩ := ih (serveFrame cfg locals asked.adu s).1
    rw [← List.singleton_append, List.map_append, List.map_singleton, transduce_append,
      transduce_singleton, List.filter_append, List.filter_append, List.map_append]
    dsimp only at *
    rw [callsOf_append, adusOf_append, hcalls, hlater]
    exact ⟨rfl, List.rel_append hreplies hlast⟩

theorem scan_asked (asked : List Client.Asked)
    : requestFraming.scan (asked.map Client.Asked.adu).flatten = (asked.map Client.Asked.adu, []) := by
  apply scan_validRequests
  intro adu hadu
  obtain ⟨request, -, rfl⟩ := List.mem_map.mp hadu
  exact validRequest_requestAdu request.unitId request.op

-- The requests in a stream of bytes that begins the frames of a client.
theorem frames_asked {asked : List Client.Asked} {stream : List UInt8} {frames : List (List UInt8)}
    (h : stream <+: (asked.map Client.Asked.adu).flatten)
    (hframes : frames <+: (requestFraming.scan stream).1)
    : ∃ heard, heard <+: asked ∧ frames = heard.map Client.Asked.adu := by
  have hscan := requestFraming.scan_mono h
  rw [scan_asked] at hscan
  refine ⟨asked.take frames.length, List.take_prefix _ _, ?_⟩
  rw [List.map_take]
  exact List.prefix_iff_eq_take.mp (hframes.trans hscan)

-- Whatever a program calls and whatever comes back to it, the frames that it sends are settled by its calls
-- alone. A server that hears them carries out those among them that are for it, in their order and each of
-- them once, and it answers those that are for it alone.
theorem api_requests_executed (cfg : ServerConfig σ) (stack : Stack σ) (pauses : List Nat) (srv : Server σ)
    (hecho : cfg.localEcho = false) (hcomplete : cfg.handlers.Complete) (hempty : srv.ctx.rxLen = 0)
    (htimeout : NoTimeout cfg stack pauses srv) (acts : List ApiAct) (ses : Client.Session)
    (hinit : ses.ctx.initialized = true)
    : let client := transduce (Client.api.act Client.Session.pass) acts ses
      let asked := (transduce Client.asks acts ses.unitId).2
      let frames := asked.map Client.Asked.adu
      let run := runServer cfg stack pauses srv
      adusOf client.2 = frames ∧
      (∃ sents, List.Forall₂ (· <+: ·) sents frames ∧
        client.1.line.outgoing = ses.line.outgoing ++ sents.flatten) ∧
      (srv.line.bytes <+: frames.flatten →
        ∃ heard, heard <+: asked ∧
          (srv.line.bytes = frames.flatten →
            run.server.ctx.held = [] → run.server.line.bytes = [] → heard = asked) ∧
          callsOf run.events = (heard.filter cfg.executes).map (fun asked => asked.op.call) ∧
          List.Forall₂ Answers (adusOf run.events) (heard.filter cfg.answers)) := by
  intro client asked frames run
  have hsent : adusOf client.2 = frames := Client.acts_ask acts hinit
  refine ⟨hsent, ?_, ?_⟩
  . obtain ⟨sents, hparts, houtgoing, -⟩ := Client.acts_write acts ses
    rw [← hsent]
    exact ⟨sents, hparts, houtgoing⟩
  . intro hbytes
    have hroom : srv.ctx.rxLen ≤ rtuMaxAduLength := by
      rw [hempty]
      apply Nat.zero_le
    have hheld : srv.ctx.held = [] := by
      unfold ServerCtx.held
      rw [hempty]
      rfl
    have hsteps := runServer_steps cfg stack pauses srv hecho hroom htimeout
    have hscan := hsteps.scan
    have hserved := hsteps.served
    rw [hheld, List.nil_append] at hscan
    obtain ⟨heard, hheard, hframes⟩ := @frames_asked asked srv.line.bytes (framesOf run.events) hbytes (by
      rw [hscan]
      apply List.prefix_append)
    have hserve := serve_asked hcomplete stack.locals heard srv.state
    rw [← hframes, hserved] at hserve
    refine ⟨heard, hheard, ?_, hserve⟩
    intro hall hnothing hread
    rw [hall, scan_asked, hnothing, hread, List.nil_append, scan_nil, List.append_nil, hframes] at hscan
    have hlen := congrArg (fun scanned => scanned.1.length) hscan
    dsimp only at hlen
    rw [List.length_map, List.length_map] at hlen
    exact hheard.eq_of_length hlen.symm

-- A write, a read that must not be broadcast, a broadcast and a read that leaves the address space.
def actsSample : List ApiAct :=
  let buffers := ⟨fun _ => 0, fun _ => 0, fun _ => 0⟩
  [.request (.writeSingleRegister 0 5) buffers, .setUnitId 0,
    .request (.readCoils 0 1 (some fun _ => 0)) buffers, .request (.writeSingleCoil 3 1) buffers, .pause 7,
    .setUnitId 0x11, .request (.readHoldingRegisters 65535 2 (some fun _ => 0)) buffers]

def hearingSample : Server Unit :=
  sampleServer ((withCrc [0x11, 6, 0, 0, 0, 5] ++ withCrc [0, 5, 0, 3, 255, 0] ++
    withCrc [0x11, 3, 255, 255, 0, 2]).map fun byte => ⟨0, byte⟩)

theorem api_requests_executed_broadcast
    : let run := runServer (sampleConfig 0x11) sampleStack [0, 0, 0] hearingSample
      callsOf run.events = [.writeRegisters 0 1 [5], .writeBits 3 1 [1]] ∧
      adusOf run.events = [withCrc [0x11, 6, 0, 0, 0, 5], withCrc [0x11, 0x83, 2]] ∧
      ∃ heard : List Client.Asked, heard.length = 3 ∧
        callsOf run.events
          = (heard.filter (sampleConfig 0x11).executes).map (fun asked => asked.op.call) ∧
        List.Forall₂ Answers (adusOf run.events) (heard.filter (sampleConfig 0x11).answers) := by
  have hexecuted := api_requests_executed (sampleConfig 0x11) sampleStack [0, 0, 0] hearingSample rfl
    (by decide) rfl (by decide +kernel) actsSample (Client.receiving []) rfl
  obtain ⟨-, -, hheard⟩ := hexecuted
  obtain ⟨heard, -, hall, hserved⟩ := hheard (by decide +kernel)
  have hasked := hall (by decide +kernel) (by decide +kernel) (by decide +kernel)
  refine ⟨by decide +kernel, by decide +kernel, heard, ?_, hserved⟩
  rw [hasked]
  decide +kernel

end Rtu
