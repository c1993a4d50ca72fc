import ModbusProtocol.Tcp.Lemmas.Joined

/-!
This module contains the calls that the clients of one server make, in the order in which the server takes
them: each is executed at most once, what is answered is what calling the application in its place gives, and
no reply can be taken for that to another call.
-/

open Modbus Posix

namespace Tcp

-- The call as it has been made: what it has asked for and the answer that it has got.
def Client.Exchange.entry (e : Client.Exchange) : Pdu.RemoteCall × Option (Int × Pdu.Out) :=
  (⟨e.result.ses.ctx.cfg.unitId, e.call.op, e.call.out⟩,
    if 0 ≤ e.result.rc then some (e.result.rc, e.result.out) else none)

variable {ι σ : Type}

def callsBy (clients : ι → List Client.Stay) (place : ι × Nat)
    : List (Pdu.RemoteCall × Option (Int × Pdu.Out)) :=
  (madeAt clients place).map Client.Exchange.entry

-- The application called in the place of the server, with all the calls it has got so far. There is no
-- answer to a call for another unit.
def directly (cfg : ServerConfig σ) (locals : σ → Pdu.Locals) (call : Pdu.RemoteCall) (s : σ × List Pdu.Call)
    : (σ × List Pdu.Call) × List (Int × Pdu.Out) :=
  if cfg.accepts call.unitId then
    let result := Pdu.directCall cfg.handlers (locals s.1) call.op call.out s.1
    ((result.state, s.2 ++ result.calls), [(result.rc, result.out)])
  else
    (s, [])

-- The frames that have been served, each with the place where its connection ends.
def framesBy (ends : Nat → ι × Nat) (log : List (Nat × Event)) : List ((ι × Nat) × List UInt8) :=
  (framesIn log).map fun (k, adu) => (ends k, adu)

-- What serving frames makes of the application.
def executed (cfg : ServerConfig σ) (locals : σ → Pdu.Locals) (s : σ) (frames : List ((ι × Nat) × List UInt8))
    : σ × List Pdu.Call :=
  let served := transduce (serveFrame cfg locals) (frames.map Prod.snd) s
  (served.1, callsOf served.2)

theorem transduce_serveOn (cfg : ServerConfig σ) (locals : σ → Pdu.Locals)
    (requests : List (Nat × List UInt8)) (s : σ)
    : let served := transduce (serveFrame cfg locals) (requests.map Prod.snd) s
      (transduce (serveOn cfg locals) requests s).1 = served.1 ∧
      (transduce (serveOn cfg locals) requests s).2.map Prod.snd = served.2 := by
  induction requests generalizing s with
  | nil => exact ⟨rfl, rfl⟩
  | cons request requests ih =>
    obtain ⟨hstate, hevents⟩ := ih (serveFrame cfg locals request.2 s).1
    have hfirst : (serveOn cfg locals request s).2.map Prod.snd
        = (serveFrame cfg locals request.2 s).2 := by
      unfold serveOn
      dsimp only
      rw [List.map_map]
      exact List.map_id _
    refine ⟨hstate, ?_⟩
    rw [List.map_cons, ← List.singleton_append, transduce_append, transduce_singleton]
    rw [← List.singleton_append, transduce_append, transduce_singleton]
    dsimp only
    rw [List.map_append, hfirst]
    congr 1

theorem executed_frames (cfg : ServerConfig σ) (locals : σ → Pdu.Locals) (ends : Nat → ι × Nat)
    (requests : List (Nat × List UInt8)) (s : σ)
    : executed cfg locals s (requests.map fun (k, adu) => (ends k, adu))
        = ((transduce (serveOn cfg locals) requests s).1,
          callsIn (transduce (serveOn cfg locals) requests s).2) := by
  obtain ⟨hstate, hevents⟩ := transduce_serveOn cfg locals requests s
  unfold executed callsIn
  rw [hstate, hevents, List.map_map]
  rfl

-- Serving the request of a call does what calling the application directly does.
theorem executed_snoc (cfg : ServerConfig σ) (locals : σ → Pdu.Locals) (s : σ)
    (frames : List ((ι × Nat) × List UInt8)) (place : ι × Nat) (tid : UInt16) (unitId : UInt8)
    (op : Pdu.Operation) (out : Pdu.Out)
    : executed cfg locals s (frames ++ [(place, mbapAdu (Pdu.u16Bytes tid) unitId op.bytes)])
        = (directly cfg locals ⟨unitId, op, out⟩ (executed cfg locals s frames)).1 := by
  have htid : (Pdu.u16Bytes tid).length = 2 := by rfl
  unfold executed
  rw [List.map_append, List.map_singleton, transduce_append, transduce_singleton]
  dsimp only
  generalize transduce (serveFrame cfg locals) (frames.map Prod.snd) s = served
  rw [callsOf_append]
  unfold directly
  by_cases haccepts : cfg.accepts unitId
  . have hserve := serveFrame_mbapAdu htid haccepts locals op.bytes served.1
    have hdirect := Pdu.respond_eq_direct cfg.handlers (locals served.1) op (fun _ => 0) out served.1
    dsimp only at hserve hdirect ⊢
    rw [hserve, if_pos haccepts, ← hdirect, ← List.singleton_append]
    dsimp only
    rw [callsOf_append, callsOf_append, callsOf_calls]
    congr 2
    apply List.append_nil
  . rw [serveFrame_refused htid haccepts, if_neg haccepts]
    dsimp only
    congr 1
    apply List.append_nil

namespace Client

-- A client that has connected numbers its requests from 1 on. One that has not sends nothing.
theorem visits_fresh {ctx : ClientCtx} {stays : List Stay} {visit : Visit} (h : visit ∈ visits ctx stays)
    : visit.first.ctx.initialized = true ∧ visit.first.ctx.tid = 0 ∨ ¬visit.first.Open := by
  induction stays generalizing ctx with
  | nil => contradiction
  | cons stay stays ih =>
    unfold visits at h
    obtain rfl | hlater := List.mem_cons.mp h
    . dsimp only
      by_cases hrc : (connect stay.env stay.owner (disconnect stay.owner ctx).1 stay.cfg).1 = 0
      . exact .inl (connect_ok (Prod.ext hrc rfl))
      . right
        intro hopen
        apply hrc
        have hinit : (connect stay.env stay.owner (disconnect stay.owner ctx).1
            stay.cfg).2.1.initialized = true := hopen.1
        unfold connect disconnect at hinit ⊢
        grind
    . exact ih hlater

theorem unopened {ses : Session} (h : ¬ses.Open) (calls : List Call)
    : ∀ e ∈ runCalls ses calls, e.request = [] ∧ e.result.rc < 0 := by
  induction calls generalizing ses with
  | nil => simp [runCalls]
  | cons call calls ih =>
    intro e he
    rw [runCalls_cons] at he
    obtain rfl | hlater := List.mem_cons.mp he
    . dsimp only
      rw [make_request_shut h, (make_shut h).1]
      exact ⟨rfl, by decide⟩
    . exact ih (make_stays_shut h) e hlater

theorem made_of_mem {ses : Session} {calls : List Call} {e : Exchange} (h : e ∈ runCalls ses calls)
    : ∃ ses', e.result = e.call.make ses' := by
  induction calls generalizing ses with
  | nil => contradiction
  | cons call calls ih =>
    rw [runCalls_cons] at h
    obtain rfl | hlater := List.mem_cons.mp h
    . exact ⟨ses, rfl⟩
    . exact ih hlater

end Client

theorem mem_visits {clients : ι → List Client.Stay} {place : ι × Nat} {visit : Client.Visit}
    (h : visitAt clients place = some visit)
    : visit ∈ Client.visits .zeroed (clients place.1) := by
  exact List.mem_of_getElem? h

theorem madeAt_eq {clients : ι → List Client.Stay} {place : ι × Nat} {visit : Client.Visit}
    (h : visitAt clients place = some visit)
    : madeAt clients place = visit.made := by
  unfold madeAt
  rw [h]

theorem visitAt_of_made {clients : ι → List Client.Stay} {place : ι × Nat} {n : Nat} {e : Client.Exchange}
    (h : (madeAt clients place)[n]? = some e)
    : ∃ visit, visitAt clients place = some visit ∧ visit.made[n]? = some e := by
  cases hvisit : visitAt clients place with
  | none =>
    unfold madeAt at h
    rw [hvisit] at h
    contradiction
  | some visit =>
    rw [madeAt_eq hvisit] at h
    exact ⟨visit, rfl, h⟩

theorem Client.calls_of_visits {ctx : Client.ClientCtx} {stays : List Client.Stay} {visit : Client.Visit}
    (h : visit ∈ Client.visits ctx stays)
    : ∃ stay ∈ stays, visit.calls = stay.calls := by
  induction stays generalizing ctx with
  | nil => contradiction
  | cons stay stays ih =>
    unfold Client.visits at h
    obtain rfl | hlater := List.mem_cons.mp h
    . exact ⟨stay, by simp, rfl⟩
    . obtain ⟨stay', hmem, hcalls⟩ := ih hlater
      exact ⟨stay', List.mem_cons_of_mem _ hmem, hcalls⟩

theorem few_calls {clients : ι → List Client.Stay} {bound : Nat}
    (hfew : ∀ client, ∀ stay ∈ clients client, stay.calls.length ≤ bound) {place : ι × Nat}
    {visit : Client.Visit} (hvisit : visitAt clients place = some visit)
    : visit.calls.length ≤ bound := by
  obtain ⟨stay, hstay, hcalls⟩ := Client.calls_of_visits (mem_visits hvisit)
  rw [hcalls]
  exact hfew _ stay hstay

section

variable {cfg : ServerConfig σ} {stack : Stack σ} {s : σ} {host : Host σ}
variable {opened : List Nat} {log : List (Nat × Event)} {clients : ι → List Client.Stay}
variable {ends : Nat → ι × Nat}

-- What is known of a connection on which the server has served something.
theorem Connects.served (hkeeps : Keeps cfg stack.locals s host opened log)
    (hconnects : Connects clients ends host) {k : Nat} {adu : List UInt8} (h : (k, adu) ∈ framesIn log)
    : k < host.accepted.length ∧ ∃ peer visit, host.accepted[k]? = some peer ∧
        visitAt clients (ends k) = some visit ∧
        visit.first.ctx.initialized = true ∧ visit.first.ctx.tid = 0 ∧
        Joined visit.first.line visit.last.line peer (host.lines k) := by
  have hk : k < host.accepted.length := by
    by_contra hk
    have hmem := mem_entriesOf.mpr h
    rw [← framesOf_entriesOf, hkeeps.silent k (Nat.not_lt.mp hk)] at hmem
    contradiction
  obtain ⟨visit, hvisit, hjoined⟩ := hconnects.joined k _ (List.getElem?_eq_getElem hk)
  refine ⟨hk, _, visit, List.getElem?_eq_getElem hk, hvisit, ?_⟩
  obtain ⟨hinit, htid⟩ | hshut := Client.visits_fresh (mem_visits hvisit)
  . exact ⟨hinit, htid, hjoined⟩
  . -- nothing comes from a client that has not connected
    have htracks := hkeeps.tracks k _ (List.getElem?_eq_getElem hk)
    have hframes := @Tracks.requests _ _ _ visit.first.ctx visit.calls _ _ htracks hjoined.requests
    have hsent := (Client.runCalls_shut hshut visit.calls).1
    rw [hsent, List.prefix_nil, framesOf_entriesOf] at hframes
    have hmem := mem_entriesOf.mpr h
    rw [hframes] at hmem
    contradiction

-- A client to which something comes is at the end of a connection.
theorem Connects.heard (hconnects : Connects clients ends host) {place : ι × Nat} {visit : Client.Visit}
    (hvisit : visitAt clients place = some visit) {frame : List UInt8}
    (hmem : frame ∈ ((mbapFraming 1).scan visit.first.line.bytes).1)
    : ∃ k peer, ends k = place ∧ k < host.accepted.length ∧ host.accepted[k]? = some peer ∧
        Joined visit.first.line visit.last.line peer (host.lines k) := by
  by_cases hends : ∃ k < host.accepted.length, ends k = place
  . obtain ⟨k, hk, rfl⟩ := hends
    obtain ⟨visit', hvisit', hjoined⟩ := hconnects.joined k _ (List.getElem?_eq_getElem hk)
    obtain rfl : visit = visit' := Option.some.inj (hvisit.symm.trans hvisit')
    exact ⟨k, _, rfl, hk, List.getElem?_eq_getElem hk, hjoined⟩
  . -- nothing comes to a client that the server has not accepted
    rw [hconnects.silent place visit hvisit fun k hk heq => hends ⟨k, hk, heq⟩, Framing.scan_nil] at hmem
    contradiction

variable [DecidableEq ι]

-- The frames of one connection are those at its place.
theorem Connects.entriesOf_framesBy (hkeeps : Keeps cfg stack.locals s host opened log)
    (hconnects : Connects clients ends host) {before : List (Nat × List UInt8)}
    (hbefore : before <+: framesIn log) {k : Nat} (hk : k < host.accepted.length)
    : entriesOf (ends k) (before.map fun (j, adu) => (ends j, adu)) = entriesOf k before := by
  apply entriesOf_relabel
  intro ⟨j, adu⟩ hmem hends
  obtain ⟨hj, -⟩ := hconnects.served hkeeps (hbefore.subset hmem)
  exact hconnects.distinct j hj k hk hends

-- Each frame that is served is the request of the next call of its client.
theorem Connects.serves (hkeeps : Keeps cfg stack.locals s host opened log)
    (hconnects : Connects clients ends host) {before after : List ((ι × Nat) × List UInt8)}
    {place : ι × Nat} {adu : List UInt8}
    (hsplit : framesBy ends log = before ++ (place, adu) :: after)
    : ∃ call answer, (callsBy clients place)[(entriesOf place before).length]? = some (call, answer) ∧
        executed cfg stack.locals s (before ++ [(place, adu)])
          = (directly cfg stack.locals call (executed cfg stack.locals s before)).1 := by
  obtain ⟨first, later, hlog, rfl, hlater⟩ := List.map_eq_append_iff.mp hsplit
  obtain ⟨⟨k, adu'⟩, rest, rfl, hentry, -⟩ := List.map_eq_cons_iff.mp hlater
  injection hentry with hplace hadu
  subst hplace hadu
  obtain ⟨hk, peer, visit, hpeer, hvisit, hinit, htid, hjoined⟩ :=
    hconnects.served hkeeps (show (k, adu') ∈ framesIn log by rw [hlog]; simp)
  have hframes := @Tracks.requests _ _ _ visit.first.ctx visit.calls _ _ (hkeeps.tracks k peer hpeer)
    hjoined.requests
  rw [framesOf_entriesOf, entriesOf_split hlog] at hframes
  have hmem : adu' ∈ entriesOf k first ++ adu' :: entriesOf k rest := by simp
  have hlen := mbapVerdict_take (Client.whole_of_mem_sentIn (hframes.subset hmem))
  obtain ⟨hget, -⟩ := prefix_split (hframes.trans (Client.sentIn_requests visit.first visit.calls))
  rw [List.getElem?_map, Option.map_eq_some_iff] at hget
  obtain ⟨e, he, rfl⟩ := hget
  have hbegun : e.request ≠ [] := by
    intro hnil
    rw [hnil, List.length_nil] at hlen
    omega
  have hrequest := Client.request_of_get hinit htid he hbegun
  rw [hconnects.entriesOf_framesBy hkeeps ⟨_, hlog.symm⟩ hk]
  refine ⟨e.entry.1, e.entry.2, ?_, ?_⟩
  . unfold callsBy
    rw [madeAt_eq hvisit, List.getElem?_map]
    exact congrArg (Option.map Client.Exchange.entry) he
  . rw [hrequest]
    apply executed_snoc

-- Each call that is answered has been executed in its place.
theorem Connects.answers (hkeeps : Keeps cfg stack.locals s host opened log)
    (hconnects : Connects clients ends host)
    (hfew : ∀ client, ∀ stay ∈ clients client, stay.calls.length ≤ 65535)
    {place : ι × Nat} {n : Nat} {call : Pdu.RemoteCall} {answer : Int × Pdu.Out}
    (hcall : (callsBy clients place)[n]? = some (call, some answer))
    : ∃ before adu after, framesBy ends log = before ++ (place, adu) :: after ∧
        (entriesOf place before).length = n ∧
        (directly cfg stack.locals call (executed cfg stack.locals s before)).2 = [answer] := by
  unfold callsBy at hcall
  rw [List.getElem?_map, Option.map_eq_some_iff] at hcall
  obtain ⟨e, he, hentry⟩ := hcall
  obtain ⟨visit, hvisit, hget⟩ := visitAt_of_made he
  unfold Client.Exchange.entry at hentry
  injection hentry with hcall hanswer
  obtain ⟨hrc, hanswer⟩ := Option.ite_none_right_eq_some.mp hanswer
  obtain ⟨hinit, htid⟩ | hshut := Client.visits_fresh (mem_visits hvisit)
  swap
  . have := (Client.unopened hshut visit.calls e (List.mem_of_getElem? hget)).2
    omega
  obtain ⟨-, frame, hmem, -⟩ := Client.reply_of_get hinit htid hget hrc
  obtain ⟨k, peer, rfl, hk, hpeer, hjoined⟩ := hconnects.heard hvisit hmem
  obtain ⟨before, after, hlog, htake, haccepts, hdirect⟩ := answered_in_turn hinit htid
    (few_calls hfew hvisit) hkeeps.serial (hkeeps.tracks k peer hpeer) hjoined hget hrc
  refine ⟨before.map fun (j, adu) => (ends j, adu), e.request,
    after.map fun (j, adu) => (ends j, adu), ?_, ?_, ?_⟩
  . unfold framesBy
    rw [hlog, List.map_append, List.map_cons]
  . rw [hconnects.entriesOf_framesBy hkeeps ⟨_, hlog.symm⟩ hk, htake, List.length_map]
    exact List.length_take_of_le (Nat.le_of_lt (List.getElem?_eq_some_iff.mp hget).1)
  . rw [executed_frames, ← hcall, ← Option.some.inj hanswer]
    unfold directly
    rw [if_pos haccepts, hdirect.1, hdirect.2.1]

end

-- The clients call the server at the same time, and what they send may be long on its way. In the order in
-- which the server takes their requests each call is executed at most once, nothing else is done, what is
-- answered is what calling the application in its place gives, and a call that gets no answer leaves its
-- buffers alone.
theorem calls_at_most_once [DecidableEq ι] {env : StartEnv} {owner : Owner} {ctx : Ctx}
    {settings : ServerSettings} (hstart : (serverStart env owner ctx settings).1 = 0)
    (cfg : ServerConfig σ) (stack : Stack σ) (s : σ) {wakes : List Wake}
    (hfresh : Throughout (Host.step cfg stack) Fresh wakes
      (Host.start (serverStart env owner ctx settings).2.1 s))
    {clients : ι → List Client.Stay} {ends : Nat → ι × Nat}
    (hconnects : Connects clients ends (transduce (Host.step cfg stack) wakes
      (Host.start (serverStart env owner ctx settings).2.1 s)).1)
    (hfew : ∀ client, ∀ stay ∈ clients client, stay.calls.length ≤ 65535)
    : let run := transduce (Host.step cfg stack) wakes
        (Host.start (serverStart env owner ctx settings).2.1 s)
      let order := places (framesBy ends run.2)
      order.Nodup ∧
      Serializes (directly cfg stack.locals) (callsBy clients) order (s, [])
        (run.1.state, callsIn run.2) ∧
      ∀ place, ∀ e ∈ madeAt clients place, e.result.rc < 0 → e.result.out = e.call.out := by
  intro run order
  have hkeeps := started_keeps hstart cfg stack s hfresh
  have hlast : executed cfg stack.locals s (framesBy ends run.2) = (run.1.state, callsIn run.2) := by
    unfold framesBy
    rw [executed_frames, hkeeps.serial]
  have hserial := @serializes_places _ _ _ _ _ _ (directly cfg stack.locals) (callsBy clients)
    (framesBy ends run.2) (executed cfg stack.locals s) (hconnects.serves hkeeps)
    (hconnects.answers hkeeps hfew)
  rw [hlast] at hserial
  refine ⟨hserial.once, hserial, ?_⟩
  intro place e he hrc
  obtain ⟨n, hn⟩ := List.getElem?_of_mem he
  obtain ⟨visit, -, hget⟩ := visitAt_of_made hn
  obtain ⟨ses, hresult⟩ := Client.made_of_mem (List.mem_of_getElem? hget)
  rw [hresult] at hrc ⊢
  apply Client.make_out
  intro hok
  rw [hok] at hrc
  contradiction

-- The first client gives up its write, connects again and reads what the second one has written meanwhile.
-- Its own write is still on its way, and is executed last.
def staysSample (incoming : List UInt8) (op : Pdu.Operation) : Client.Stay where
  env := ⟨true, ⟨3, true, true, true, true, false⟩⟩
  owner := .context 0
  cfg := Client.clientSample
  line := ⟨0, incoming.map (⟨30000000, ·⟩), [], [], some 1000000000⟩
  calls := [{ Client.callSample with op := op }]

def clientsSample : Bool → List Client.Stay
  | true => [staysSample [] (.writeSingleRegister 0 5),
      staysSample (mbapAdu [0, 1] 1 [3, 2, 0, 7]) readOperation]
  | false => [staysSample (mbapAdu [0, 1] 1 [6, 0, 0, 0, 7]) (.writeSingleRegister 0 7)]

def endsSample (k : Nat) : Bool × Nat :=
  if k = 0 then (true, 0) else if k = 1 then (false, 0) else (true, 1)

def peersSample (k : Nat) : Line :=
  requestsSample (mbapAdu [0, 1] 1
    (if k = 0 then [6, 0, 0, 0, 5] else if k = 1 then [6, 0, 0, 0, 7] else [3, 0, 0, 0, 1]))

def lateWakes : List Wake :=
  [⟨2, ⟨.ready [3], 5, fun _ => 0, fun _ => 0⟩, peersSample 0⟩,
    ⟨2, ⟨.ready [3], 6, fun _ => 0, fun _ => 0⟩, peersSample 1⟩,
    ⟨2, ⟨.ready [6], 0, fun _ => 0, fun _ => 0⟩, peersSample 1⟩,
    ⟨2, ⟨.ready [3], 7, fun _ => 0, fun _ => 0⟩, peersSample 2⟩,
    ⟨2, ⟨.ready [7], 0, fun _ => 0, fun _ => 0⟩, peersSample 2⟩,
    ⟨2, ⟨.ready [5], 0, fun _ => 0, fun _ => 0⟩, peersSample 2⟩]

def lateRun : Host UInt16 × List (Nat × Event) :=
  transduce (Host.step registerConfig sampleStack) lateWakes
    (Host.start (serverStart startSample (.context 1) .zeroed ⟨502, 3, true⟩).2.1 0)

theorem lateRun_fresh
    : Throughout (Host.step registerConfig sampleStack) Fresh lateWakes
        (Host.start (serverStart startSample (.context 1) .zeroed ⟨502, 3, true⟩).2.1 0) := by
  decide +kernel

theorem lateRun_accepted
    : lateRun.1.accepted = [peersSample 0, peersSample 1, peersSample 2] := by
  rfl

theorem lateRun_joined (k : Nat) (hk : k < 3)
    : ∃ visit, visitAt clientsSample (endsSample k) = some visit ∧
        Joined visit.first.line visit.last.line (peersSample k) (lateRun.1.lines k) := by
  obtain rfl | rfl | rfl : k = 0 ∨ k = 1 ∨ k = 2 := by omega
  . exact ⟨_, rfl, by decide +kernel, by decide +kernel⟩
  . exact ⟨_, rfl, by decide +kernel, by decide +kernel⟩
  . exact ⟨_, rfl, by decide +kernel, by decide +kernel⟩

theorem lateRun_connects
    : Connects clientsSample endsSample lateRun.1 := by
  constructor
  . rw [lateRun_accepted]
    decide
  . intro k peer hpeer
    rw [lateRun_accepted] at hpeer
    have hk : k < 3 := (List.getElem?_eq_some_iff.mp hpeer).1
    have hjoined := lateRun_joined k hk
    obtain rfl | rfl | rfl : k = 0 ∨ k = 1 ∨ k = 2 := by omega
    all_goals
      obtain rfl := Option.some.inj hpeer
      exact hjoined
  . rw [lateRun_accepted]
    rintro ⟨client, n⟩ visit hvisit hends
    exfalso
    have hn := (List.getElem?_eq_some_iff.mp hvisit).1
    cases client with
    | true =>
      change n < 2 at hn
      obtain rfl | rfl : n = 0 ∨ n = 1 := by omega
      . exact hends 0 (by decide) rfl
      . exact hends 2 (by decide) rfl
    | false =>
      change n < 1 at hn
      obtain rfl : n = 0 := by omega
      exact hends 1 (by decide) rfl

theorem clientsSample_few
    : ∀ client, ∀ stay ∈ clientsSample client, stay.calls.length ≤ 65535 := by
  intro client stay hstay
  cases client with
  | true =>
    obtain rfl | rfl := List.mem_pair.mp hstay
    . decide
    . decide
  | false =>
    obtain rfl := List.mem_singleton.mp hstay
    decide

theorem calls_at_most_once_late
    : (madeAt clientsSample (true, 0)).map (·.result.rc) = [-4] ∧
      (madeAt clientsSample (true, 1)).map (·.result.out.registers 0) = [7] ∧
      places (framesBy endsSample lateRun.2) = [((false, 0), 0), ((true, 1), 0), ((true, 0), 0)] ∧
      Serializes (directly registerConfig sampleStack.locals) (callsBy clientsSample)
        (places (framesBy endsSample lateRun.2)) (0, []) (lateRun.1.state, callsIn lateRun.2) := by
  refine ⟨by decide +kernel, by decide +kernel, by decide +kernel, ?_⟩
  exact (@calls_at_most_once _ _ _ startSample (.context 1) .zeroed ⟨502, 3, true⟩ rfl registerConfig
    sampleStack 0 lateWakes lateRun_fresh clientsSample endsSample lateRun_connects
    clientsSample_few).2.1

theorem Client.take_request {first : Client.Session} (hinit : first.ctx.initialized = true)
    (htid : first.ctx.tid = 0) {calls : List Client.Call} {n : Nat} {e : Client.Exchange}
    (he : (Client.runCalls first calls)[n]? = some e) (hne : e.request ≠ [])
    : e.request.take 2 = Pdu.u16Bytes (Client.nextTid^[n + 1] 0) := by
  rw [Client.request_of_get hinit htid he hne]
  rfl

-- The requests on a connection are told apart by their transaction ids.
theorem Client.requests_apart {first : Client.Session} (hinit : first.ctx.initialized = true)
    (htid : first.ctx.tid = 0) {calls : List Client.Call} (hfew : calls.length ≤ 65535) {m n : Nat}
    {e e' : Client.Exchange} (he : (Client.runCalls first calls)[n]? = some e) (hne : e.request ≠ [])
    (he' : (Client.runCalls first calls)[m]? = some e') (hmn : m < n)
    : e'.request.take 2 ≠ e.request.take 2 := by
  intro hsame
  rw [Client.take_request hinit htid he hne] at hsame
  have hne' : e'.request ≠ [] := by
    intro hnil
    rw [hnil] at hsame
    contradiction
  rw [Client.take_request hinit htid he' hne'] at hsame
  have hlen := Client.length_runCalls first calls
  obtain ⟨hn, -⟩ := List.getElem?_eq_some_iff.mp he
  have := Client.tid_period (Nat.le_of_lt hmn) (by omega) (Pdu.u16Bytes_injective hsame)
  omega

-- While no client makes more than 65535 calls on one connection, no transaction id is used for two of them,
-- and what comes under the one of a call is the reply to the request of this call.
theorem few_unambiguous {env : StartEnv} {owner : Owner} {ctx : Ctx} {settings : ServerSettings}
    (hstart : (serverStart env owner ctx settings).1 = 0) (cfg : ServerConfig σ) (stack : Stack σ) (s : σ)
    {wakes : List Wake}
    (hfresh : Throughout (Host.step cfg stack) Fresh wakes
      (Host.start (serverStart env owner ctx settings).2.1 s))
    {clients : ι → List Client.Stay} {ends : Nat → ι × Nat}
    (hconnects : Connects clients ends (transduce (Host.step cfg stack) wakes
      (Host.start (serverStart env owner ctx settings).2.1 s)).1)
    (hfew : ∀ client, ∀ stay ∈ clients client, stay.calls.length ≤ 65535)
    : let run := transduce (Host.step cfg stack) wakes
        (Host.start (serverStart env owner ctx settings).2.1 s)
      ∀ place visit, visitAt clients place = some visit → ∀ n e, visit.made[n]? = some e →
        e.request ≠ [] →
        (∀ m < n, ∀ e', visit.made[m]? = some e' → e'.request.take 2 ≠ e.request.take 2) ∧
        ∀ frame ∈ ((mbapFraming 1).scan visit.first.line.bytes).1,
          frame.take 2 = e.request.take 2 →
          ∃ k before after, ends k = place ∧ framesIn run.2 = before ++ (k, e.request) :: after ∧
            entriesOf k before = (visit.made.take n).map Client.Exchange.request ∧
            .send frame ∈ (serveFrame cfg stack.locals e.request
              (transduce (serveOn cfg stack.locals) before s).1).2 := by
  intro run place visit hvisit n e he hne
  have hkeeps := started_keeps hstart cfg stack s hfresh
  obtain ⟨hinit, htid⟩ | hshut := Client.visits_fresh (mem_visits hvisit)
  swap
  . exact absurd (Client.unopened hshut visit.calls e (List.mem_of_getElem? he)).1 hne
  have hlen := few_calls hfew hvisit
  constructor
  . intro m hmn e' he'
    exact Client.requests_apart hinit htid hlen he hne he' hmn
  . intro frame hmem hsame
    rw [Client.take_request hinit htid he hne] at hsame
    obtain ⟨k, peer, hends, -, hpeer, hjoined⟩ := hconnects.heard hvisit hmem
    obtain ⟨before, after, hsplit, htake, -, hsend⟩ := reply_in_turn hinit htid hlen hkeeps.serial
      (hkeeps.tracks k peer hpeer) hjoined he hmem hsame
    exact ⟨k, before, after, hends, hsplit, htake, hsend⟩

-- All the requests have the same transaction id, each on a connection of its own.
theorem few_unambiguous_late
    : ∃ visit e, visitAt clientsSample (true, 1) = some visit ∧ visit.made = [e] ∧
        e.request = mbapAdu [0, 1] 1 [3, 0, 0, 0, 1] ∧
        ∃ k before after, endsSample k = (true, 1) ∧
          framesIn lateRun.2 = before ++ (k, e.request) :: after ∧ entriesOf k before = [] ∧
          .send (mbapAdu [0, 1] 1 [3, 2, 0, 7]) ∈ (serveFrame registerConfig sampleStack.locals e.request
            (transduce (serveOn registerConfig sampleStack.locals) before 0).1).2 := by
  refine ⟨_, _, rfl, rfl, by decide +kernel, ?_⟩
  apply (@few_unambiguous _ _ startSample (.context 1) .zeroed ⟨502, 3, true⟩ rfl registerConfig
    sampleStack 0 lateWakes lateRun_fresh clientsSample endsSample lateRun_connects clientsSample_few
    (true, 1) _ rfl 0 _ rfl (by decide +kernel)).2
  . decide +kernel
  . decide +kernel

end Tcp
