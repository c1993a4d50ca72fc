import ModbusProtocol.Tcp.Impl.Api
import ModbusProtocol.Tcp.Lemmas.Joined

/-!
This module contains what a program can make a TCP client do to a server, with whatever arguments it calls
the functions of the client.
-/

open Modbus Posix

namespace Tcp.Client

-- The transaction of a request PDU, as it has been built.
def transactBuilt (ses : Session) (built : Mem UInt8 × Nat) (buffers : ReadBuffers)
    : Transaction Session :=
  (transact ses buffers.req built.1 built.2 buffers.resp).transaction

theorem api_eq
    : api = ClientApi.over errArg transactBuilt Api.setUnitId := by
  unfold api ClientApi.over
  congr 1
  . exact readRegisters_eq funcReadHoldingRegisters
  . exact readRegisters_eq funcReadInputRegisters
  . exact readBits_eq funcReadCoils
  . exact readBits_eq funcReadDiscreteInputs
  . funext ses addr value buffers
    cases ses with
    | none => rfl
    | some ses => rfl
  . funext ses addr value buffers
    cases ses with
    | none => rfl
    | some ses => rfl
  . funext ses addr qty data buffers
    cases ses with
    | none => rfl
    | some ses =>
      cases data with
      | none => rfl
      | some data => rfl
  . funext ses addr qty values buffers
    cases ses with
    | none => rfl
    | some ses =>
      cases values with
      | none => rfl
      | some values => rfl

theorem api_lawful
    : api.Lawful (performOver transactBuilt) errArg := by
  rw [api_eq]
  apply ClientApi.over_lawful

-- The same as a call in the sense of the other modules.
def callOf (op : Pdu.Operation) (buffers : ReadBuffers) (out : Pdu.Out) : Call :=
  ⟨0, none, op, buffers.pdu, buffers.req, buffers.resp, out⟩

theorem performOver_eq (ses : Session) (op : Pdu.Operation) (buffers : ReadBuffers) (out : Pdu.Out)
    : let result := (callOf op buffers out).make ses
      performOver transactBuilt ses op buffers out
        = ⟨result.rc, result.out, result.ses, result.events⟩ := by
  rfl

-- A frame that asks for an operation.
def Asks (frame : List UInt8) (op : Pdu.Operation) : Prop :=
  ∃ tid unitId, frame = mbapAdu (Pdu.u16Bytes tid) unitId op.bytes

theorem make_adus (call : Call) (ses : Session)
    : adusOf (call.make ses).events = if ses.Open then [call.adu ses] else [] := by
  split
  . next h =>
    rw [← ready_open call] at h
    unfold Call.make perform transact
    dsimp only
    rw [if_neg (by simp [h.1]), if_neg (by have := h.2; omega), frameRequest_adu]
    split
    . rfl
    . rw [awaitReply_events]
      rfl
  . next h =>
    rw [← ready_open call] at h
    unfold Session.Open at h
    unfold Call.make perform transact
    dsimp only
    split
    . rfl
    . next hinit =>
      rw [Bool.not_eq_true, Bool.not_eq_false'] at hinit
      rw [if_pos]
      . rfl
      . rw [not_and, Int.not_le] at h
        exact h hinit

theorem performOver_sends (ses : Session) (op : Pdu.Operation) (buffers : ReadBuffers) (out : Pdu.Out)
    : adusOf (performOver transactBuilt ses op buffers out).events = [] ∨
        ∃ adu, adusOf (performOver transactBuilt ses op buffers out).events = [adu] ∧ Asks adu op := by
  rw [performOver_eq]
  dsimp only
  rw [make_adus]
  split
  . exact .inr ⟨_, rfl, _, _, rfl⟩
  . exact .inl rfl

theorem act_unit (unitId : UInt8) (ses : Session)
    : ((api.act Session.pass (.setUnitId unitId) ses).1.Open ↔ ses.Open) ∧
      (api.act Session.pass (.setUnitId unitId) ses).1.line = ses.line := by
  unfold ClientApi.act api Api.setUnitId Session.Open setUnitId
  dsimp only
  split
  . exact ⟨Iff.rfl, rfl⟩
  . exact ⟨Iff.rfl, rfl⟩

-- What is written when something is done with a client, and what is not any more once its connection is
-- closed.
theorem act_writes (act : ApiAct) (ses : Session)
    : let done := api.act Session.pass act ses
      ∃ sent, done.1.line.outgoing = ses.line.outgoing ++ sent ∧
        sent <+: (adusOf done.2).flatten ∧
        (done.1.Open → sent = (adusOf done.2).flatten) ∧
        (¬ses.Open → adusOf done.2 = [] ∧ ¬done.1.Open) := by
  cases act with
  | pause us =>
    refine ⟨[], (List.append_nil _).symm, List.prefix_refl _, fun _ => rfl, ?_⟩
    intro h
    exact ⟨rfl, h⟩
  | setUnitId unitId =>
    obtain ⟨hopen, hline⟩ := act_unit unitId ses
    refine ⟨[], ?_, List.prefix_refl _, fun _ => rfl, ?_⟩
    . rw [hline, List.append_nil]
    . intro h
      rw [hopen]
      exact ⟨rfl, h⟩
  | request call buffers =>
    dsimp only
    cases hop : call.operation with
    | none =>
      rw [api_lawful.act_refused Session.pass hop]
      refine ⟨[], (List.append_nil _).symm, List.prefix_refl _, fun _ => rfl, ?_⟩
      intro h
      exact ⟨rfl, h⟩
    | some op =>
      rw [api_lawful.act_performed Session.pass hop, performOver_eq]
      dsimp only
      rw [make_adus]
      by_cases hopen : ses.Open
      . obtain ⟨sent, houtgoing, hpart, hall⟩ := make_outgoing (callOf op buffers call.out) hopen
        rw [if_pos hopen]
        refine ⟨sent, houtgoing, ?_, ?_, fun h => absurd hopen h⟩
        . simpa using hpart
        . intro hstill
          simpa using hall (make_sent hopen hstill)
      . rw [if_neg hopen, (make_shut hopen).2, ready_open]
        exact ⟨[], (List.append_nil _).symm, List.prefix_refl _, fun _ => rfl, fun h => ⟨rfl, h⟩⟩

theorem acts_shut {ses : Session} (h : ¬ses.Open) (acts : List ApiAct)
    : (transduce (api.act Session.pass) acts ses).1.line.outgoing = ses.line.outgoing ∧
      adusOf (transduce (api.act Session.pass) acts ses).2 = [] := by
  induction acts generalizing ses with
  | nil => exact ⟨rfl, rfl⟩
  | cons act acts ih =>
    obtain ⟨sent, houtgoing, hpart, -, hshut⟩ := act_writes act ses
    obtain ⟨hnone, hstays⟩ := hshut h
    obtain ⟨hsame, hlater⟩ := ih hstays
    rw [hnone] at hpart
    have hnothing := List.eq_nil_of_prefix_nil hpart
    unfold transduce
    dsimp only
    rw [adusOf_append, hnone, hlater, hsame, houtgoing, hnothing, List.append_nil]
    exact ⟨rfl, rfl⟩

-- The bytes on the wire are those of the requests, of which the last may be cut.
theorem acts_write (acts : List ApiAct) (ses : Session)
    : let run := transduce (api.act Session.pass) acts ses
      ∃ sent, run.1.line.outgoing = ses.line.outgoing ++ sent ∧ sent <+: (adusOf run.2).flatten := by
  induction acts generalizing ses with
  | nil => exact ⟨[], (List.append_nil _).symm, List.prefix_refl _⟩
  | cons act acts ih =>
    obtain ⟨first, hfirst, hpart, hall, -⟩ := act_writes act ses
    unfold transduce
    dsimp only
    rw [adusOf_append, List.flatten_append]
    by_cases hopen : (api.act Session.pass act ses).1.Open
    . obtain ⟨later, hlater, hrest⟩ := ih (api.act Session.pass act ses).1
      refine ⟨first ++ later, ?_, ?_⟩
      . rw [hlater, hfirst, List.append_assoc]
      . rw [hall hopen, List.prefix_append_right_inj]
        exact hrest
    . obtain ⟨hsame, hnone⟩ := acts_shut hopen acts
      refine ⟨first, ?_, ?_⟩
      . rw [hsame, hfirst]
      . exact hpart.trans (List.prefix_append _ _)

end Tcp.Client

namespace Tcp

variable {σ : Type} {cfg : ServerConfig σ}

-- A frame that answers an operation. Its addresses are checked before the application sees it.
def Replies (adu : List UInt8) (op : Pdu.Operation) : Prop :=
  ∃ tid unitId answer rc, adu = mbapAdu (Pdu.u16Bytes tid) unitId answer ∧ op.AnsweredBy answer rc ∧
    (op.overflows → rc = 2)

-- What a server does for a frame that asks for an operation.
theorem serveFrame_asks (hcomplete : cfg.handlers.Complete) (locals : σ → Pdu.Locals)
    {frame : List UInt8} {op : Pdu.Operation} (h : Client.Asks frame op) (s : σ)
    : let served := serveFrame cfg locals frame s
      callsOf served.2 = [] ∧ adusOf served.2 = [] ∨
        callsOf served.2 = (if op.overflows then [] else [op.call]) ∧
          ∃ adu, adusOf served.2 = [adu] ∧ Replies adu op := by
  obtain ⟨tid, unitId, rfl⟩ := h
  have htid : (Pdu.u16Bytes tid).length = 2 := rfl
  by_cases haccepts : cfg.accepts unitId
  . have hanswers := Pdu.respond_answers cfg.handlers (locals s) op ⟨fun _ => 0, fun _ => 0⟩ s
    rw [serveFrame_mbapAdu htid haccepts]
    dsimp only
    rw [← List.singleton_append, callsOf_append, callsOf_append, callsOf_calls, adusOf_append,
      adusOf_append, adusOf_calls, Pdu.calls_respond hcomplete]
    refine .inr ⟨?_, _, rfl, tid, unitId, _, _, rfl, hanswers, ?_⟩
    . apply List.append_nil
    . intro hover
      exact Pdu.answer_overflows hcomplete (locals s) hover hanswers
  . rw [serveFrame_refused htid haccepts]
    exact .inl ⟨rfl, rfl⟩

-- The same for all that is done on connection `k`, on which the frames ask for operations one after the
-- other.
theorem serve_requests (hcomplete : cfg.handlers.Complete) (locals : σ → Pdu.Locals) (k : Nat)
    (requests : List (Nat × List UInt8)) {asked : List Pdu.Operation}
    (h : List.Forall₂ Client.Asks (entriesOf k requests) asked) (s : σ)
    : let entries := entriesOf k (transduce (serveOn cfg locals) requests s).2
      ∃ ops, ops.Sublist asked ∧
        callsOf entries = (ops.filter fun op => ¬op.overflows).map Pdu.Operation.call ∧
        List.Forall₂ Replies (adusOf entries) ops := by
  induction requests generalizing s asked with
  | nil => exact ⟨[], List.nil_sublist _, rfl, .nil⟩
  | cons request requests ih =>
    obtain ⟨j, frame⟩ := request
    rw [← List.singleton_append, entriesOf_append] at h
    unfold transduce serveOn
    dsimp only
    rw [entriesOf_append, callsOf_append, adusOf_append]
    by_cases hj : j = k
    . subst hj
      rw [entriesOf_same, ← List.map_singleton, entriesOf_same] at *
      cases h with
      | @cons _ op _ asked hframe h =>
        obtain ⟨ops, hops, hcalls, hreplies⟩ := ih h (serveFrame cfg locals frame s).1
        obtain ⟨hnone, hsilent⟩ | ⟨hcalled, adu, hadu, hreply⟩ :=
          serveFrame_asks hcomplete locals hframe s
        . rw [hnone, hsilent]
          exact ⟨ops, hops.cons op, hcalls, hreplies⟩
        . unfold serveOn at hcalls
          rw [hcalled, hadu, hcalls]
          refine ⟨op :: ops, hops.cons_cons op, ?_, .cons hreply hreplies⟩
          by_cases hover : op.overflows
          . rw [if_pos hover, List.filter_cons_of_neg (by simpa using hover)]
            rfl
          . rw [if_neg hover, List.filter_cons_of_pos (by simpa using hover)]
            rfl
    . rw [entriesOf_other hj]
      have hother : entriesOf k [(j, frame)] = [] := entriesOf_other hj [frame]
      rw [hother] at h
      exact ih h (serveFrame cfg locals frame s).1

theorem Client.Asks.whole {frame : List UInt8} {op : Pdu.Operation} (h : Asks frame op)
    : mbapVerdict 2 frame = .take frame.length := by
  obtain ⟨tid, unitId, rfl⟩ := h
  apply mbapVerdict_mbapAdu (by rfl)
  . have := op.five_le_length
    omega
  . exact op.length_bytes_le

-- The frames on a connection are among those that have been asked for.
theorem requests_asked {acts : List ApiAct} {ses : Client.Session} {bytes : List UInt8}
    (h : bytes <+: ses.line.written (transduce (Client.api.act Client.Session.pass) acts ses).1.line)
    {frames : List (List UInt8)} (hframes : frames <+: ((mbapFraming 2).scan bytes).1)
    : ∃ asked, asked.Sublist (acts.filterMap ApiAct.operation) ∧
        List.Forall₂ Client.Asks frames asked := by
  obtain ⟨sent, houtgoing, hpart⟩ := Client.acts_write acts ses
  have hasks := Client.api_lawful.run_sends Client.Session.pass Client.performOver_sends acts ses
  generalize transduce (Client.api.act Client.Session.pass) acts ses = client at *
  obtain ⟨asked, hasked, hsublist⟩ := List.sublistForall₂_iff.mp hasks
  have hwritten : ses.line.written client.1.line = sent := by
    unfold Line.written
    rw [houtgoing, List.drop_left]
  rw [hwritten] at h
  have hwhole : ∀ adu ∈ adusOf client.2, mbapVerdict 2 adu = .take adu.length := by
    intro adu hadu
    obtain ⟨i, hi, rfl⟩ := List.mem_iff_getElem.mp hadu
    exact Client.Asks.whole (List.forall₂_iff_get.mp hasked |>.2 i hi (by
      rw [← hasked.length_eq]
      exact hi))
  have hscan := (mbapFraming 2).scan_flatten hwhole
  have hprefix := (mbapFraming 2).scan_mono (h.trans hpart)
  rw [hscan] at hprefix
  have htake := List.prefix_iff_eq_take.mp (hframes.trans hprefix)
  refine ⟨asked.take frames.length, (List.take_sublist _ _).trans hsublist, ?_⟩
  have hboth := List.forall₂_take frames.length hasked
  rw [← htake] at hboth
  exact hboth

-- Whatever a program calls, on each of its connections a server calls the application for what the program
-- has asked for, in the order in which it has, and for nothing else. What it replies are answers to that: it
-- refuses none of these requests but for its addresses.
theorem api_calls_executed {env : StartEnv} {owner : Owner} {ctx : Ctx} {settings : ServerSettings}
    (hstart : (serverStart env owner ctx settings).1 = 0) (cfg : ServerConfig σ)
    (hcomplete : cfg.handlers.Complete) (stack : Stack σ) (s : σ) {wakes : List Wake}
    (hfresh : Throughout (Host.step cfg stack) Fresh wakes
      (Host.start (serverStart env owner ctx settings).2.1 s))
    (acts : List ApiAct) (ses : Client.Session) {peer : Line} {k : Nat}
    : let run := transduce (Host.step cfg stack) wakes
        (Host.start (serverStart env owner ctx settings).2.1 s)
      let client := transduce (Client.api.act Client.Session.pass) acts ses
      run.1.accepted[k]? = some peer → peer.bytes <+: ses.line.written client.1.line →
      ∃ ops, ops.Sublist (acts.filterMap ApiAct.operation) ∧
        callsOf (entriesOf k run.2) = (ops.filter fun op => ¬op.overflows).map Pdu.Operation.call ∧
        List.Forall₂ Replies (adusOf (entriesOf k run.2)) ops := by
  intro run client haccepted hbytes
  have hkeeps := started_keeps hstart cfg stack s hfresh
  have hframes := (hkeeps.tracks k peer haccepted).frames
  rw [framesOf_entriesOf] at hframes
  obtain ⟨asked, hasked, hrequests⟩ := requests_asked hbytes hframes
  have hserved := serve_requests hcomplete stack.locals k (framesIn run.2) hrequests s
  rw [hkeeps.serial] at hserved
  obtain ⟨ops, hops, hcalls, hreplies⟩ := hserved
  exact ⟨ops, hops.trans hasked, hcalls, hreplies⟩

-- A read without a buffer, a write, a read of too many coils and one that leaves the address space.
def actsSample : List ApiAct :=
  let buffers := ⟨fun _ => 0, fun _ => 0, fun _ => 0⟩
  [.request (.readHoldingRegisters 0 1 none) buffers, .request (.writeSingleRegister 0 5) buffers,
    .pause 7, .request (.readCoils 0 2001 (some fun _ => 0)) buffers,
    .request (.readCoils 65535 2 (some fun _ => 0)) buffers]

def askedSample : Line :=
  requestsSample (mbapAdu [0, 1] 1 [6, 0, 0, 0, 5] ++ mbapAdu [0, 2] 1 [1, 255, 255, 0, 2])

def askingSample : List Wake :=
  [⟨2, ⟨.ready [3], 5, fun _ => 0, fun _ => 0⟩, askedSample⟩,
    ⟨2, ⟨.ready [5], 0, fun _ => 0, fun _ => 0⟩, askedSample⟩,
    ⟨2, ⟨.ready [5], 0, fun _ => 0, fun _ => 0⟩, askedSample⟩]

theorem api_calls_executed_refused
    : let run := transduce (Host.step sampleConfig sampleStack) askingSample
        (Host.start (serverStart startSample (.context 1) .zeroed ⟨502, 2, true⟩).2.1 ())
      let replies := [mbapAdu [0, 1] 1 [6, 0, 0, 0, 5], mbapAdu [0, 2] 1 [129, 2]]
      callsOf (entriesOf 0 run.2) = [.writeRegisters 0 1 [5]] ∧ adusOf (entriesOf 0 run.2) = replies ∧
      ∃ ops, ops.Sublist (actsSample.filterMap ApiAct.operation) ∧ List.Forall₂ Replies replies ops := by
  have hfresh : Throughout (Host.step sampleConfig sampleStack) Fresh askingSample
      (Host.start (serverStart startSample (.context 1) .zeroed ⟨502, 2, true⟩).2.1 ()) := by
    decide +kernel
  have hreplies : adusOf (entriesOf 0 (transduce (Host.step sampleConfig sampleStack) askingSample
        (Host.start (serverStart startSample (.context 1) .zeroed ⟨502, 2, true⟩).2.1 ())).2)
      = [mbapAdu [0, 1] 1 [6, 0, 0, 0, 5], mbapAdu [0, 2] 1 [129, 2]] := by
    decide +kernel
  have hexecuted := @api_calls_executed _ startSample (.context 1) .zeroed ⟨502, 2, true⟩ rfl sampleConfig
    (by decide) sampleStack () askingSample hfresh actsSample
    ⟨⟨3, 0, true, Client.clientSample⟩, repliesSample⟩ askedSample 0
  refine ⟨?_, hreplies, ?_⟩
  . decide +kernel
  . obtain ⟨ops, hops, -, hanswers⟩ := hexecuted (by decide +kernel) (by decide +kernel)
    rw [hreplies] at hanswers
    exact ⟨ops, hops, hanswers⟩

end Tcp
