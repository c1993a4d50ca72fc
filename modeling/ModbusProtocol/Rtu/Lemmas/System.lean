import ModbusProtocol.Data.Service
import ModbusProtocol.Posix.Awaited
import ModbusProtocol.Rtu.Lemmas.Hearing
import ModbusProtocol.Rtu.Lemmas.Query

/-!
This module contains what a serial line with its clients and servers is for: as long as everything comes in
time, a call is a direct call of the application it is addressed to, and a broadcast one of all of them.
-/

open Modbus Posix

namespace Rtu

variable {n : Nat} {κ σ : Type}

-- No two servers have the same unit id.
structure Addressed (cfgs : Fin n → ServerConfig σ) : Prop where
  single : ∀ i, (cfgs i).unitId ≠ serverUnitIdAny
  distinct : ∀ i j, (cfgs i).unitId = (cfgs j).unitId → i = j

namespace Wiring

-- The applications themselves, each with the callbacks it has got so far: a call of the one it is addressed
-- to, a broadcast to all of them, and what the caller gets, if anything.
def directly (wiring : Wiring n σ) (call : Pdu.RemoteCall) (s : Fin n → σ × List Pdu.Call)
    : (Fin n → σ × List Pdu.Call) × List (Option (Int × Pdu.Out)) :=
  let result := fun i =>
    Pdu.directCall (wiring.cfgs i).handlers ((wiring.buffers i).locals (s i).1) call.op call.out (s i).1
  let called := fun i => ((result i).state, (s i).2 ++ (result i).calls)
  if call.unitId = rtuBroadcastAddress then
    if Pdu.isWrite call.op.fc then
      (called, [some (0, call.out)])
    else
      (s, [none])
  else
    match (List.finRange n).find? fun i => (wiring.cfgs i).unitId = call.unitId with
    | some i => (Function.update s i (called i), [some ((result i).rc, (result i).out)])
    | none => (s, [none])

-- A call in whose course everything comes in time: what is left of earlier calls before the port is
-- flushed, the replies behind that and before the deadline, and the servers get round to what they hear
-- before the next call. No reply of a server is taken for a request by another one that hears it.
structure Timely (wiring : Wiring n σ) (attempt : Attempt n κ) (sys : System n κ σ) : Prop where
  sends : Client.Sends (attempt.query.ready (sys.session attempt.client)) attempt.query.op
  stale : ∀ arrival ∈ sys.line.incoming,
    arrival.time ≤ (attempt.query.ready (sys.session attempt.client)).flushed.now
  fresh : ∀ i < (wiring.replies attempt sys).length,
    (attempt.query.ready (sys.session attempt.client)).flushed.now < attempt.back i
  inTime : wiring.replies attempt sys ≠ [] →
    let ses := attempt.query.ready (wiring.replied attempt sys)
    (Client.responseDeadlineUs ses (ses.behind attempt.query.op)).2.InTime
      ((Client.responseDeadlineUs ses (ses.behind attempt.query.op)).1 * 1000)
  read : ∀ i, (sys.servers i).line.incoming = []
  attentive : ∀ i, Attentive (wiring.cfgs i) (wiring.buffers i) (attempt.hearings i).serving
    ((sys.servers i).feed (attempt.hearings i).request (sys.request attempt))
  harmless : ∀ i, Harmless (wiring.cfgs i) (wiring.foreign attempt sys i)

instance (wiring : Wiring n σ) (attempt : Attempt n κ) (sys : System n κ σ)
    : Decidable (wiring.Timely attempt sys) :=
  let ses := attempt.query.ready (sys.session attempt.client)
  let replied := attempt.query.ready (wiring.replied attempt sys)
  let deadline := Client.responseDeadlineUs replied (replied.behind attempt.query.op)
  decidable_of_iff
    (Client.Sends ses attempt.query.op ∧
      (∀ arrival ∈ sys.line.incoming, arrival.time ≤ ses.flushed.now) ∧
      (∀ i < (wiring.replies attempt sys).length, ses.flushed.now < attempt.back i) ∧
      (wiring.replies attempt sys ≠ [] → deadline.2.InTime (deadline.1 * 1000)) ∧
      (∀ i, (sys.servers i).line.incoming = []) ∧
      (∀ i, Attentive (wiring.cfgs i) (wiring.buffers i) (attempt.hearings i).serving
        ((sys.servers i).feed (attempt.hearings i).request (sys.request attempt))) ∧
      ∀ i, Harmless (wiring.cfgs i) (wiring.foreign attempt sys i))
    ⟨fun ⟨sends, stale, fresh, inTime, read, attentive, harmless⟩ =>
        ⟨sends, stale, fresh, inTime, read, attentive, harmless⟩,
      fun h => ⟨h.sends, h.stale, h.fresh, h.inTime, h.read, h.attentive, h.harmless⟩⟩

end Wiring

def System.view (sys : System n κ σ) : Fin n → σ × List Pdu.Call :=
  fun i => ((sys.servers i).state, sys.calls i)

def Made.call (made : Made) : Pdu.RemoteCall :=
  ⟨made.unitId, made.query.op, made.query.out⟩

def Made.answer (made : Made) : Option (Int × Pdu.Out) :=
  if 0 ≤ made.result.rc then some (made.result.rc, made.result.out) else none

-- There is room in every receive buffer.
def System.Roomy (sys : System n κ σ) : Prop :=
  ∀ i, (sys.servers i).ctx.rxLen ≤ rtuMaxAduLength

theorem flatMap_finRange {α : Type} {f : Fin n → List α} (i : Fin n) (h : ∀ j, j ≠ i → f j = [])
    : (List.finRange n).flatMap f = f i := by
  have hgeneral : ∀ l : List (Fin n), l.Nodup → i ∈ l → l.flatMap f = f i := by
    intro l hnodup hmem
    induction l with
    | nil => contradiction
    | cons j l ih =>
      rw [List.nodup_cons] at hnodup
      rw [List.flatMap_cons]
      cases List.mem_cons.mp hmem with
      | inl heq =>
        subst heq
        have hrest : l.flatMap f = [] := by
          rw [List.flatMap_eq_nil_iff]
          intro j hj
          apply h
          intro heq
          subst heq
          exact hnodup.1 hj
        rw [hrest, List.append_nil]
      | inr hin =>
        have hne : j ≠ i := by
          intro heq
          subst heq
          exact hnodup.1 hin
        rw [h j hne, List.nil_append]
        exact ih hnodup.2 hin
  exact hgeneral _ (List.nodup_finRange n) (List.mem_finRange i)

theorem flatMap_finRange_nil {α : Type} {f : Fin n → List α} (h : ∀ j, f j = [])
    : (List.finRange n).flatMap f = [] := by
  rw [List.flatMap_eq_nil_iff]
  intro j _
  apply h

-- What a server does on a request that it accepts, and on one that it does not.
theorem Reacts.accepted {cfg : ServerConfig σ} {locals : σ → Pdu.Locals} {srv : Server σ} {run : Run σ}
    {unitId : UInt8} {op : Pdu.Operation}
    (h : Reacts srv (serveFrame cfg locals (requestAdu unitId op) srv.state) run)
    (haccepts : cfg.accepts unitId op.fc) (out : Pdu.Out)
    : let direct := Pdu.directCall cfg.handlers (locals srv.state) op out srv.state
      run.server.state = direct.state ∧ callsOf run.events = direct.calls ∧
      srv.line.written run.server.line =
        if unitId = rtuBroadcastAddress then []
        else withCrc (unitId :: (Pdu.respond cfg.handlers (locals srv.state) op.bytes srv.state).bytes) := by
  obtain ⟨hstate, hcalls⟩ := Pdu.directCall_effect cfg.handlers (locals srv.state) op out srv.state
  obtain ⟨hfixes, -⟩ := fixesLength_bytes op
  have hpos : 0 < op.bytes.length := Nat.lt_of_lt_of_le (by simp) hfixes.five_le
  have hserve := serveFrame_withCrc hpos haccepts locals srv.state
  have hserved := h.served
  have hreply := h.reply
  unfold requestAdu at hserved
  dsimp only at hserve ⊢
  rw [hserve] at hserved
  injection hserved with hrun hevents
  rw [← List.singleton_append] at hevents
  rw [hstate, hcalls, hreply, hevents, hrun]
  refine ⟨rfl, ?_, ?_⟩
  . rw [callsOf_append, callsOf_append, callsOf_calls]
    split
    . exact List.append_nil _
    . rw [(callsOf_sendEvents _ _).1]
      exact List.append_nil _
  . rw [adusOf_append, adusOf_append, adusOf_calls]
    split
    . rfl
    . rw [(callsOf_sendEvents _ _).2]
      apply List.flatten_singleton

theorem Reacts.refused {cfg : ServerConfig σ} {locals : σ → Pdu.Locals} {srv : Server σ} {run : Run σ}
    {unitId : UInt8} {op : Pdu.Operation}
    (h : Reacts srv (serveFrame cfg locals (requestAdu unitId op) srv.state) run)
    (hrefused : ¬cfg.accepts unitId op.fc)
    : run.server.state = srv.state ∧ callsOf run.events = [] ∧ srv.line.written run.server.line = [] := by
  have hserved := h.served
  have hreply := h.reply
  rw [serveFrame_refused hrefused] at hserved
  injection hserved with hrun hevents
  rw [hreply, hevents, hrun]
  exact ⟨rfl, rfl, rfl⟩

section

variable {wiring : Wiring n σ} {attempt : Attempt n κ} {sys : System n κ σ}

-- The session of the call as the client makes it, before anything has come behind the request.
def Attempt.session (attempt : Attempt n κ) (sys : System n κ σ) : Client.Session :=
  attempt.query.ready (sys.session attempt.client)

theorem Wiring.Timely.request (h : wiring.Timely attempt sys)
    (hwrite : (attempt.session sys).unitId = rtuBroadcastAddress →
      Pdu.isWrite attempt.query.op.fc = true)
    : sys.request attempt = requestAdu (attempt.session sys).unitId attempt.query.op := by
  have hwritten := @Client.Sends.written (attempt.session sys) attempt.query.op attempt.query.buf
    attempt.query.req attempt.query.resp attempt.query.out h.sends hwrite
  unfold System.request Client.Query.make Line.written
  unfold Attempt.session at hwritten ⊢
  rw [hwritten]
  apply List.drop_left

theorem Wiring.Timely.refused (h : wiring.Timely attempt sys)
    (hbroadcast : (attempt.session sys).unitId = rtuBroadcastAddress)
    (hread : Pdu.isWrite attempt.query.op.fc = false)
    : sys.request attempt = [] := by
  unfold System.request Client.Query.make Line.written
  unfold Attempt.session at hbroadcast
  rw [Client.perform_refused h.sends.connected hbroadcast hread]
  apply List.drop_length

theorem Wiring.step_roomy [DecidableEq κ] (wiring : Wiring n σ) (attempt : Attempt n κ)
    (hroom : sys.Roomy)
    : (wiring.step attempt sys).1.Roomy := by
  intro i
  apply runServer_room
  apply runServer_room
  apply hroom

theorem Wiring.step_answer [DecidableEq κ] (wiring : Wiring n σ) (attempt : Attempt n κ)
    (sys : System n κ σ)
    : (wiring.step attempt sys).2.map Made.answer
        =
      let result := attempt.query.make (wiring.replied attempt sys)
      [if 0 ≤ result.rc then some (result.rc, result.out) else none] := by
  rfl

-- The servers after the call: nobody has done anything about what it has only overheard.
theorem Wiring.Timely.overheard [DecidableEq κ] (h : wiring.Timely attempt sys)
    (hheld : ∀ i, (wiring.serve attempt sys i).server.ctx.held = [])
    : (wiring.step attempt sys).1.view = fun i =>
        ((wiring.serve attempt sys i).server.state,
          sys.calls i ++ callsOf (wiring.serve attempt sys i).events) := by
  funext i
  have hsilent : (wiring.overhear attempt sys i).server.state = (wiring.serve attempt sys i).server.state ∧
      callsOf (wiring.overhear attempt sys i).events = [] ∧ _ :=
    overhear_silent (wiring.cfgs i) (wiring.buffers i) (attempt.hearings i).overhearing
      (attempt.hearings i).replies (h.attentive i).read (hheld i) (h.harmless i)
  obtain ⟨hstate, hcalls, -⟩ := hsilent
  unfold System.view Wiring.step
  dsimp only
  rw [hstate, hcalls, List.append_nil]

-- The call as the client makes it, with the replies behind its request.
theorem Wiring.Timely.performed (h : wiring.Timely attempt sys)
    : let ses := attempt.query.ready (wiring.replied attempt sys)
      Client.Sends ses attempt.query.op ∧ ses.unitId = (attempt.session sys).unitId ∧
      (ses.behind attempt.query.op).bytes = wiring.replies attempt sys := by
  obtain ⟨hsends, hbehind, hempty⟩ := h.sends.feed h.stale h.fresh
  refine ⟨hsends, rfl, ?_⟩
  unfold Wiring.replied
  have hbytes := Line.feed_bytes
    ((attempt.query.ready (sys.session attempt.client)).behind attempt.query.op) attempt.back
    (wiring.replies attempt sys)
  rw [← hbehind] at hbytes
  rw [Line.bytes] at hbytes
  unfold Line.bytes at hbytes ⊢
  rw [hempty] at hbytes
  exact hbytes

theorem Wiring.Timely.reacts (h : wiring.Timely attempt sys) (hroom : sys.Roomy)
    (hwrite : (attempt.session sys).unitId = rtuBroadcastAddress →
      Pdu.isWrite attempt.query.op.fc = true) (i : Fin n)
    : Reacts (sys.servers i)
        (serveFrame (wiring.cfgs i) (wiring.buffers i).locals
          (requestAdu (attempt.session sys).unitId attempt.query.op) (sys.servers i).state)
        (wiring.serve attempt sys i) := by
  have hattentive := h.attentive i
  unfold Wiring.serve
  rw [h.request hwrite] at hattentive ⊢
  apply hattentive.request (h.read i) (hroom i)
  apply validRequest_requestAdu

theorem accepts_broadcast (cfg : ServerConfig σ) {op : Pdu.Operation} (hwrite : Pdu.isWrite op.fc = true)
    : cfg.accepts rtuBroadcastAddress op.fc := by
  unfold ServerConfig.accepts
  rw [if_pos rfl]
  exact hwrite

theorem accepts_unicast {cfg : ServerConfig σ} {unitId : UInt8} (hunicast : unitId ≠ rtuBroadcastAddress)
    (hsingle : cfg.unitId ≠ serverUnitIdAny) (fc : UInt8)
    : cfg.accepts unitId fc ↔ cfg.unitId = unitId := by
  unfold ServerConfig.accepts
  rw [if_neg hunicast]
  constructor
  . rintro (hany | heq)
    . contradiction
    . exact heq.symm
  . intro heq
    exact .inr heq.symm

-- A call whose client is refused by its own side reaches nobody.
theorem Wiring.Timely.step_refused [DecidableEq κ] (h : wiring.Timely attempt sys) (hroom : sys.Roomy)
    (hbroadcast : (attempt.session sys).unitId = rtuBroadcastAddress)
    (hread : Pdu.isWrite attempt.query.op.fc = false)
    : (wiring.step attempt sys).1.view = sys.view ∧
      (wiring.step attempt sys).2.map Made.answer = [none] := by
  have hreacts : ∀ i, Reacts (sys.servers i) ((sys.servers i).state, []) (wiring.serve attempt sys i) := by
    intro i
    have hattentive := h.attentive i
    unfold Wiring.serve
    rw [h.refused hbroadcast hread] at hattentive ⊢
    apply hattentive.silence (h.read i) (hroom i)
  obtain ⟨hsends, hunit, -⟩ := h.performed
  constructor
  . rw [h.overheard fun i => (hreacts i).held]
    funext i
    have hserved := (hreacts i).served
    injection hserved with hstate hevents
    rw [hstate, hevents]
    exact congrArg _ (List.append_nil _)
  . rw [Wiring.step_answer]
    unfold Client.Query.make
    rw [Client.perform_refused hsends.connected (hunit.trans hbroadcast) hread]
    rfl

-- A broadcast reaches all of them, and none answers.
theorem Wiring.Timely.step_broadcast [DecidableEq κ] (h : wiring.Timely attempt sys) (hroom : sys.Roomy)
    (hbroadcast : (attempt.session sys).unitId = rtuBroadcastAddress)
    (hwrite : Pdu.isWrite attempt.query.op.fc = true)
    : (wiring.step attempt sys).1.view = (fun i =>
        let direct := Pdu.directCall (wiring.cfgs i).handlers ((wiring.buffers i).locals (sys.view i).1)
          attempt.query.op attempt.query.out (sys.view i).1
        (direct.state, (sys.view i).2 ++ direct.calls)) ∧
      (wiring.step attempt sys).2.map Made.answer = [some (0, attempt.query.out)] := by
  have hreacts := h.reacts hroom fun _ => hwrite
  obtain ⟨hsends, hunit, -⟩ := h.performed
  rw [hbroadcast] at hreacts
  constructor
  . rw [h.overheard fun i => (hreacts i).held]
    funext i
    obtain ⟨hstate, hcalls, -⟩ := (hreacts i).accepted (accepts_broadcast (wiring.cfgs i) hwrite)
      attempt.query.out
    rw [hstate, hcalls]
    rfl
  . obtain ⟨hrc, hout⟩ := @Client.Sends.broadcast _ _ attempt.query.buf attempt.query.req
      attempt.query.resp attempt.query.out hsends (hunit.trans hbroadcast) hwrite
    rw [Wiring.step_answer]
    unfold Client.Query.make
    dsimp only
    rw [hrc, hout]
    rfl

-- What those do that a call is not addressed to.
theorem Wiring.Timely.others [DecidableEq κ] (h : wiring.Timely attempt sys) (hroom : sys.Roomy)
    (hsingle : ∀ i, (wiring.cfgs i).unitId ≠ serverUnitIdAny)
    (hunicast : (attempt.session sys).unitId ≠ rtuBroadcastAddress) {j : Fin n}
    (hother : (wiring.cfgs j).unitId ≠ (attempt.session sys).unitId)
    : (wiring.serve attempt sys j).server.state = (sys.servers j).state ∧
      callsOf (wiring.serve attempt sys j).events = [] ∧ wiring.reply attempt sys j = [] := by
  have hreacts := h.reacts hroom (fun hbroadcast => absurd hbroadcast hunicast) j
  apply hreacts.refused
  rw [accepts_unicast hunicast (hsingle j)]
  exact hother

-- A call to a unit id that nobody has fails.
theorem Wiring.Timely.step_nobody [DecidableEq κ] (h : wiring.Timely attempt sys) (hroom : sys.Roomy)
    (hsingle : ∀ i, (wiring.cfgs i).unitId ≠ serverUnitIdAny)
    (hunicast : (attempt.session sys).unitId ≠ rtuBroadcastAddress)
    (hnobody : ∀ i, (wiring.cfgs i).unitId ≠ (attempt.session sys).unitId)
    : (wiring.step attempt sys).1.view = sys.view ∧
      (wiring.step attempt sys).2.map Made.answer = [none] := by
  have hreacts := h.reacts hroom (fun hbroadcast => absurd hbroadcast hunicast)
  obtain ⟨hsends, hunit, hbytes⟩ := h.performed
  constructor
  . rw [h.overheard fun i => (hreacts i).held]
    funext i
    obtain ⟨hstate, hcalls, -⟩ := h.others hroom hsingle hunicast (hnobody i)
    rw [hstate, hcalls, List.append_nil]
    rfl
  . have hnothing : wiring.replies attempt sys = [] := by
      apply flatMap_finRange_nil
      intro j
      exact (h.others hroom hsingle hunicast (hnobody j)).2.2
    rw [hnothing] at hbytes
    have hrc := @Client.Sends.unanswered _ _ attempt.query.buf attempt.query.req attempt.query.resp
      attempt.query.out hsends (by rw [hunit]; exact hunicast) hbytes
    rw [Wiring.step_answer]
    unfold Client.Query.make
    dsimp only
    rw [if_neg (by omega)]

-- A call to a unit id is a direct call of the application behind it.
theorem Wiring.Timely.step_unicast [DecidableEq κ] (h : wiring.Timely attempt sys) (hroom : sys.Roomy)
    (haddressed : Addressed wiring.cfgs)
    (hunicast : (attempt.session sys).unitId ≠ rtuBroadcastAddress) {i : Fin n}
    (hi : (wiring.cfgs i).unitId = (attempt.session sys).unitId)
    : let direct := Pdu.directCall (wiring.cfgs i).handlers ((wiring.buffers i).locals (sys.view i).1)
        attempt.query.op attempt.query.out (sys.view i).1
      (wiring.step attempt sys).1.view
        = Function.update sys.view i (direct.state, (sys.view i).2 ++ direct.calls) ∧
      (wiring.step attempt sys).2.map Made.answer = [some (direct.rc, direct.out)] := by
  have hreacts := h.reacts hroom (fun hbroadcast => absurd hbroadcast hunicast)
  have hother : ∀ j, j ≠ i → (wiring.cfgs j).unitId ≠ (attempt.session sys).unitId := by
    intro j hne heq
    exact hne (haddressed.distinct j i (heq.trans hi.symm))
  have haccepts := (accepts_unicast hunicast (haddressed.single i) attempt.query.op.fc).mpr hi
  obtain ⟨hstate, hcalls, hreply⟩ := (hreacts i).accepted haccepts attempt.query.out
  rw [if_neg hunicast] at hreply
  obtain ⟨hsends, hunit, hbytes⟩ := h.performed
  constructor
  . rw [h.overheard fun i => (hreacts i).held]
    funext j
    by_cases hji : j = i
    . subst hji
      rw [Function.update_self, hstate, hcalls]
      rfl
    . obtain ⟨hsame, hnone, -⟩ := h.others hroom haddressed.single hunicast (hother j hji)
      rw [Function.update_of_ne hji, hsame, hnone, List.append_nil]
      rfl
  . have honly : wiring.replies attempt sys
        = withCrc ((attempt.session sys).unitId ::
            (Pdu.respond (wiring.cfgs i).handlers ((wiring.buffers i).locals (sys.servers i).state)
              attempt.query.op.bytes (sys.servers i).state).bytes) := by
      rw [← hreply]
      apply flatMap_finRange
      intro j hne
      exact (h.others hroom haddressed.single hunicast (hother j hne)).2.2
    have hne : wiring.replies attempt sys ≠ [] := by
      rw [honly]
      intro hnil
      have hlen := congrArg List.length hnil
      rw [length_withCrc, List.length_nil] at hlen
      omega
    rw [honly, ← hunit] at hbytes
    obtain ⟨hrc, hout⟩ := @Client.Sends.answered _ _ attempt.query.buf attempt.query.req
      attempt.query.resp attempt.query.out σ _ _ _ hsends (by rw [hunit]; exact hunicast) (h.inTime hne)
      hbytes
    have hnonneg := Pdu.directCall_rc (wiring.cfgs i).handlers
      ((wiring.buffers i).locals (sys.servers i).state) attempt.query.op attempt.query.out
      (sys.servers i).state
    rw [Wiring.step_answer]
    unfold Client.Query.make
    dsimp only
    rw [hrc, hout, if_pos hnonneg]
    rfl

theorem Wiring.directly_refused {call : Pdu.RemoteCall} (hbroadcast : call.unitId = rtuBroadcastAddress)
    (hread : Pdu.isWrite call.op.fc = false) (s : Fin n → σ × List Pdu.Call)
    : wiring.directly call s = (s, [none]) := by
  unfold Wiring.directly
  dsimp only
  rw [if_pos hbroadcast, hread]
  rfl

theorem Wiring.directly_broadcast {call : Pdu.RemoteCall} (hbroadcast : call.unitId = rtuBroadcastAddress)
    (hwrite : Pdu.isWrite call.op.fc = true) (s : Fin n → σ × List Pdu.Call)
    : wiring.directly call s
        =
      (fun i =>
        let direct := Pdu.directCall (wiring.cfgs i).handlers ((wiring.buffers i).locals (s i).1)
          call.op call.out (s i).1
        (direct.state, (s i).2 ++ direct.calls),
        [some (0, call.out)]) := by
  unfold Wiring.directly
  dsimp only
  rw [if_pos hbroadcast, if_pos hwrite]

theorem Wiring.directly_nobody {call : Pdu.RemoteCall} (hunicast : call.unitId ≠ rtuBroadcastAddress)
    (hnobody : ∀ i, (wiring.cfgs i).unitId ≠ call.unitId) (s : Fin n → σ × List Pdu.Call)
    : wiring.directly call s = (s, [none]) := by
  have hfind : ((List.finRange n).find? fun i => (wiring.cfgs i).unitId = call.unitId) = none := by
    rw [List.find?_eq_none]
    intro i _
    rw [decide_eq_true_iff]
    apply hnobody
  unfold Wiring.directly
  dsimp only
  rw [if_neg hunicast, hfind]

theorem Wiring.directly_unicast {call : Pdu.RemoteCall} (hunicast : call.unitId ≠ rtuBroadcastAddress)
    (haddressed : Addressed wiring.cfgs) {i : Fin n} (hi : (wiring.cfgs i).unitId = call.unitId)
    (s : Fin n → σ × List Pdu.Call)
    : let direct := Pdu.directCall (wiring.cfgs i).handlers ((wiring.buffers i).locals (s i).1)
        call.op call.out (s i).1
      wiring.directly call s
        = (Function.update s i (direct.state, (s i).2 ++ direct.calls), [some (direct.rc, direct.out)]) := by
  have hfind : ((List.finRange n).find? fun i => (wiring.cfgs i).unitId = call.unitId) = some i := by
    cases hfound : (List.finRange n).find? fun i => (wiring.cfgs i).unitId = call.unitId with
    | none =>
      have hnone := List.find?_eq_none.mp hfound i (List.mem_finRange i)
      rw [decide_eq_true_iff] at hnone
      exact absurd hi hnone
    | some j =>
      have hj := List.find?_some hfound
      rw [decide_eq_true_iff] at hj
      rw [haddressed.distinct j i (hj.trans hi.symm)]
  unfold Wiring.directly
  dsimp only
  rw [if_neg hunicast, hfind]

theorem Wiring.refines [DecidableEq κ] (haddressed : Addressed wiring.cfgs)
    : Refines wiring.directly (@Wiring.step n κ σ _ wiring) System.view Made.call Made.answer System.Roomy
        wiring.Timely := by
  constructor
  . intro attempt sys hroom _
    apply wiring.step_roomy attempt hroom
  . intro attempt sys hroom h
    have hcall : (wiring.step attempt sys).2.map Made.call
        = [⟨(attempt.session sys).unitId, attempt.query.op, attempt.query.out⟩] := by
      rfl
    rw [hcall, transduce_singleton]
    by_cases hbroadcast : (attempt.session sys).unitId = rtuBroadcastAddress
    . cases hwrite : Pdu.isWrite attempt.query.op.fc with
      | false =>
        obtain ⟨hview, hanswer⟩ := h.step_refused hroom hbroadcast hwrite
        rw [hview, hanswer]
        apply Wiring.directly_refused
        . exact hbroadcast
        . exact hwrite
      | true =>
        obtain ⟨hview, hanswer⟩ := h.step_broadcast hroom hbroadcast hwrite
        rw [hview, hanswer]
        apply Wiring.directly_broadcast
        . exact hbroadcast
        . exact hwrite
    . by_cases hi : ∃ i, (wiring.cfgs i).unitId = (attempt.session sys).unitId
      . obtain ⟨i, hi⟩ := hi
        obtain ⟨hview, hanswer⟩ := h.step_unicast hroom haddressed hbroadcast hi
        rw [hview, hanswer]
        apply Wiring.directly_unicast
        . exact hbroadcast
        . exact haddressed
        . exact hi
      . rw [not_exists] at hi
        obtain ⟨hview, hanswer⟩ := h.step_nobody hroom haddressed.single hbroadcast hi
        rw [hview, hanswer]
        apply Wiring.directly_nobody
        . exact hbroadcast
        . exact hi

end

-- As long as everything comes in time, the line with all that is on it does what direct calls of the
-- applications do, one call after the other.
theorem timely_calls_direct [DecidableEq κ] (wiring : Wiring n σ) (haddressed : Addressed wiring.cfgs)
    {attempts : List (Attempt n κ)} {sys : System n κ σ} (hroom : sys.Roomy)
    (h : Throughout wiring.step wiring.Timely attempts sys)
    : let run := transduce wiring.step attempts sys
      transduce wiring.directly (run.2.map Made.call) sys.view = (run.1.view, run.2.map Made.answer) := by
  exact (Wiring.refines haddressed).run hroom h

-- A server with one register.
def registerServer (unitId : UInt8) : ServerConfig UInt16 where
  unitId := unitId
  recvTimeoutMs := 0
  interFrameDelayUs := 0
  localEcho := false
  onTxEnable := false
  handlers := {
    readRegisters := some fun _ _ _ _ s => ⟨0, fun _ => s, s⟩
    writeRegisters := some fun _ _ data _ => ⟨0, data.headD 0⟩
    readBits := none
    writeBits := none }

def pairWiring : Wiring 2 UInt16 where
  cfgs := fun i => registerServer (if i.val = 0 then 1 else 2)
  buffers := fun _ => sampleStack
  twoWires := true

-- A client for unit 2 and one for broadcasts.
def pairSystem : System 2 Bool UInt16 where
  ctxs := fun client =>
    ⟨3, some 0, true,
      ⟨"/dev/ttyS0", 9600, 8, 1, .none, if client then 2 else 0, 0, 0, 0, .none, false, false⟩⟩
  bus := ⟨"/dev/ttyS0", 3, 2, 9600, 8, 1, .none, .none, 3646, false, 0, ⟨0, 0⟩⟩
  line := ⟨0, [], [], [], none⟩
  servers := fun _ => ⟨⟨fun _ => 0, 0, 0, 3646⟩, 5, ⟨1, [], [], [], none⟩⟩
  calls := fun _ => []

-- A call three seconds behind the previous one, so that a server has forgotten by then what it has overheard.
def pairAttempt (client : Bool) (op : Pdu.Operation) (timeUs : Nat) : Attempt 2 Bool where
  client := client
  query := ⟨3000000000, none, op, fun _ => 0, fun _ => 0, fun _ => 0, ⟨fun _ => 0, fun _ => 0⟩⟩
  hearings := fun _ => ⟨fun _ => timeUs, [3000000], fun _ => timeUs, [1]⟩
  back := fun _ => (timeUs + 500000) * 1000
  behind := fun _ => 0

def pairAttempts : List (Attempt 2 Bool) :=
  [pairAttempt true Client.readOne 3000000, pairAttempt false (.writeSingleRegister 0 7) 6000000]

theorem timely_calls_direct_pair
    : let run := transduce pairWiring.step pairAttempts pairSystem
      run.2.map (fun made => (made.result.rc, made.result.out.registers 0)) = [(0, 5), (0, 0)] ∧
      (∀ i, (run.1.view i).1 = 7) ∧
      transduce pairWiring.directly (run.2.map Made.call) pairSystem.view
        = (run.1.view, run.2.map Made.answer) := by
  refine ⟨?_, ?_, ?_⟩
  . decide +kernel
  . decide +kernel
  . apply timely_calls_direct
    . constructor
      . decide
      . decide
    . intro i
      apply Nat.zero_le
    . decide +kernel

end Rtu
