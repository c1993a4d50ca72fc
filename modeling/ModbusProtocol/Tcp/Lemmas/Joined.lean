import ModbusProtocol.Tcp.Lemmas.Host
import ModbusProtocol.Tcp.System

/-!
This module contains a client and the server thread at the two ends of a connection, each at its own pace:
what is written at one end is read at the other at any time later, or is lost when the connection is closed.
-/

open Modbus Posix

namespace Tcp

namespace Client

-- The requests that calls have sent, or begun to send.
def sentIn (run : List Exchange) : List (List UInt8) :=
  (run.map Exchange.request).filter (· ≠ [])

theorem make_request_adu (call : Call) {ses : Session} (h : ses.Open)
    : (Exchange.mk call ses.line (call.make ses)).request = call.adu ses := by
  rw [← ready_open call] at h
  unfold Exchange.request Call.make perform transact
  dsimp only
  rw [if_neg (by simp [h.1]), if_neg (by have := h.2; omega), frameRequest_adu]
  split
  . simp [transmitted]
  . rw [awaitReply_events]
    simp [transmitted]

theorem adu_whole (call : Call) (ses : Session)
    : mbapVerdict 2 (call.adu ses) = .take (call.adu ses).length := by
  unfold Call.adu
  apply mbapVerdict_mbapAdu (by rfl)
  . have := call.op.five_le_length
    omega
  . exact call.op.length_bytes_le

theorem adu_ne_nil (call : Call) (ses : Session)
    : call.adu ses ≠ [] := by
  unfold Call.adu mbapAdu
  simp [Pdu.u16Bytes]

-- A session that is still open behind a call has sent the request as a whole.
theorem make_sent {call : Call} {ses : Session} (h : ses.Open) (hopen : (call.make ses).ses.Open)
    : (sendAll (call.ready ses).line (call.adu ses)).1 = true := by
  rw [← ready_open call] at h
  replace hopen := hopen.2
  unfold Call.make perform transact at hopen
  dsimp only at hopen
  rw [if_neg (by simp [h.1]), if_neg (by have := h.2; omega), frameRequest_adu] at hopen
  split at hopen
  . contradiction
  . next heq => rw [heq]

theorem make_request_shut {call : Call} {ses : Session} (h : ¬ses.Open)
    : (Exchange.mk call ses.line (call.make ses)).request = [] := by
  rw [← ready_open call] at h
  unfold Session.Open at h
  unfold Exchange.request Call.make perform transact
  dsimp only
  split
  . rfl
  . next hinit =>
    rw [Bool.not_eq_true, Bool.not_eq_false'] at hinit
    rw [if_pos]
    . rfl
    . rw [not_and, Int.not_le] at h
      exact h hinit

theorem make_stays_shut {call : Call} {ses : Session} (h : ¬ses.Open)
    : ¬(call.make ses).ses.Open := by
  rw [(make_shut h).2, ready_open]
  exact h

theorem runCalls_cons (call : Call) (ses : Session) (calls : List Call)
    : runCalls ses (call :: calls)
        = ⟨call, ses.line, call.make ses⟩ :: runCalls (call.make ses).ses calls := by
  rfl

theorem runCalls_shut {ses : Session} (h : ¬ses.Open) (calls : List Call)
    : sentIn (runCalls ses calls) = [] ∧
      (lastSession ses calls).line.outgoing = ses.line.outgoing := by
  induction calls generalizing ses with
  | nil => exact ⟨rfl, rfl⟩
  | cons call calls ih =>
    obtain ⟨hnone, houtgoing⟩ := ih (@make_stays_shut call ses h)
    unfold sentIn at hnone ⊢
    constructor
    . rw [runCalls_cons, List.map_cons, List.filter_cons_of_neg (by simp [make_request_shut h])]
      exact hnone
    . unfold lastSession
      rw [houtgoing, (make_shut h).2, ready_outgoing]

theorem sentIn_cons (call : Call) {ses : Session} (h : ses.Open) (calls : List Call)
    : sentIn (runCalls ses (call :: calls))
        = call.adu ses :: sentIn (runCalls (call.make ses).ses calls) := by
  unfold sentIn
  rw [runCalls_cons, List.map_cons, make_request_adu call h]
  rw [List.filter_cons_of_pos (by simp [adu_ne_nil])]

-- The bytes that have been written are those of the requests, of which the last may be cut.
theorem runCalls_writes (ses : Session) (calls : List Call)
    : ∃ sent, (lastSession ses calls).line.outgoing = ses.line.outgoing ++ sent ∧
        sent <+: (sentIn (runCalls ses calls)).flatten := by
  induction calls generalizing ses with
  | nil => exact ⟨[], by simp [lastSession], List.nil_prefix⟩
  | cons call calls ih =>
    by_cases hopen : ses.Open
    . obtain ⟨first, hfirst, hpart, hall⟩ := make_outgoing call hopen
      rw [sentIn_cons call hopen, List.flatten_cons]
      unfold lastSession
      by_cases hstill : (call.make ses).ses.Open
      . obtain ⟨later, hlater, hrest⟩ := ih (call.make ses).ses
        refine ⟨first ++ later, ?_, ?_⟩
        . rw [hlater, hfirst, List.append_assoc]
        . rw [hall (make_sent hopen hstill), List.prefix_append_right_inj]
          exact hrest
      . refine ⟨first, ?_, ?_⟩
        . rw [(runCalls_shut hstill calls).2, hfirst]
        . exact hpart.trans (List.prefix_append _ _)
    . obtain ⟨hnone, houtgoing⟩ := runCalls_shut hopen (call :: calls)
      exact ⟨[], by rw [houtgoing, List.append_nil], List.nil_prefix⟩

theorem whole_of_mem_sentIn {ses : Session} {calls : List Call} {adu : List UInt8}
    (h : adu ∈ sentIn (runCalls ses calls))
    : mbapVerdict 2 adu = .take adu.length := by
  induction calls generalizing ses with
  | nil => contradiction
  | cons call calls ih =>
    by_cases hopen : ses.Open
    . rw [sentIn_cons call hopen, List.mem_cons] at h
      cases h with
      | inl h =>
        rw [h]
        apply adu_whole
      | inr h => exact ih h
    . rw [(runCalls_shut hopen _).1] at h
      contradiction

-- The calls that send are the first ones.
theorem sentIn_requests (ses : Session) (calls : List Call)
    : sentIn (runCalls ses calls) <+: (runCalls ses calls).map Exchange.request := by
  induction calls generalizing ses with
  | nil => exact List.prefix_refl _
  | cons call calls ih =>
    by_cases hopen : ses.Open
    . rw [sentIn_cons call hopen, runCalls_cons, List.map_cons, make_request_adu call hopen]
      rw [List.prefix_cons_inj]
      apply ih
    . rw [(runCalls_shut hopen _).1]
      apply List.nil_prefix

end Client

variable {σ : Type}

theorem framesOf_entriesOf (k : Nat) (log : List (Nat × Event))
    : framesOf (entriesOf k log) = entriesOf k (framesIn log) := by
  unfold framesOf entriesOf framesIn
  rw [List.filterMap_filterMap, List.filterMap_filterMap]
  congr 1
  funext ⟨j, event⟩
  by_cases hj : j = k
  . cases event with
    | frame adu => simp [hj]
    | call call => simp [hj]
    | txEnable enable => simp [hj]
    | send adu => simp [hj]
  . cases event with
    | frame adu => simp [hj]
    | call call => simp [hj]
    | txEnable enable => simp [hj]
    | send adu => simp [hj]

theorem transmitted_eq (events : List Event)
    : transmitted events = (adusOf events).flatten := by
  induction events with
  | nil => rfl
  | cons event events ih =>
    cases event with
    | send adu =>
      change adu ++ transmitted events = adu ++ (adusOf events).flatten
      rw [ih]
    | _ => exact ih

theorem mem_adusOf {adu : List UInt8} {events : List Event}
    : adu ∈ adusOf events ↔ .send adu ∈ events := by
  unfold adusOf
  rw [List.mem_filterMap]
  constructor
  . intro ⟨event, hmem, hadu⟩
    cases event with
    | send adu' =>
      injection hadu with hadu
      rwa [← hadu]
    | _ => contradiction
  . intro hmem
    exact ⟨_, hmem, rfl⟩

-- Where a reply on connection `k` comes from.
theorem split_of_reply {cfg : ServerConfig σ} {locals : σ → Pdu.Locals} {s s' : σ} {log : List (Nat × Event)}
    {k : Nat} {adu : List UInt8}
    (hserial : transduce (serveOn cfg locals) (framesIn log) s = (s', log))
    (h : adu ∈ adusOf (entriesOf k log))
    : ∃ before frame after, framesIn log = before ++ (k, frame) :: after ∧
        .send adu ∈ (serveFrame cfg locals frame (transduce (serveOn cfg locals) before s).1).2 := by
  have hmem := mem_entriesOf.mp (mem_adusOf.mp h)
  have hlog := congrArg Prod.snd hserial
  dsimp only at hlog
  rw [← hlog] at hmem
  obtain ⟨before, ⟨j, frame⟩, after, hsplit, houtput⟩ := split_of_mem_transduce _ hmem
  unfold serveOn at houtput
  dsimp only at houtput
  rw [List.mem_map] at houtput
  obtain ⟨event, hevent, heq⟩ := houtput
  injection heq with hj hevent'
  rw [hj] at hsplit
  rw [hevent'] at hevent
  exact ⟨before, frame, after, hsplit, hevent⟩

theorem mbapVerdict_one {l : List UInt8} {n : Nat} (h : mbapVerdict 2 l = .take n)
    : mbapVerdict 1 l = .take n := by
  unfold mbapVerdict at h ⊢
  grind

theorem Client.length_runCalls (ses : Client.Session) (calls : List Client.Call)
    : (Client.runCalls ses calls).length = calls.length := by
  induction calls generalizing ses with
  | nil => rfl
  | cons call calls ih => rw [Client.runCalls_cons, List.length_cons, List.length_cons, ih]

-- The requests are numbered from 1 on.
theorem Client.request_of_get {first : Client.Session} (hinit : first.ctx.initialized = true)
    (htid : first.ctx.tid = 0) {calls : List Client.Call} {n : Nat} {e : Client.Exchange}
    (he : (Client.runCalls first calls)[n]? = some e) (hne : e.request ≠ [])
    : e.request = mbapAdu (Pdu.u16Bytes (Client.nextTid^[n + 1] 0)) e.result.ses.ctx.cfg.unitId
        e.call.op.bytes := by
  obtain ⟨ses, hreached, heq⟩ := Client.runCalls_get (Client.Reached.zero hinit) he
  rw [Nat.zero_add] at hreached
  rw [heq] at hne ⊢
  have hsock := Client.open_of_request hreached.initialized hne
  rw [Client.make_request_adu e.call ⟨hreached.initialized, hsock⟩]
  unfold Client.Call.adu
  rw [hreached.tid hsock, htid, Function.iterate_succ_apply', Client.make_cfg]

-- What a send of the server holds.
theorem send_of_serveFrame {cfg : ServerConfig σ} {locals : σ → Pdu.Locals} {frame adu : List UInt8} {s : σ}
    (h : .send adu ∈ (serveFrame cfg locals frame s).2)
    : let reply := Pdu.respond cfg.handlers (locals s) (frame.drop 7) s
      adu = mbapAdu (frame.take 2) (frame.getD 6 0) reply.bytes ∧
      (serveFrame cfg locals frame s).1 = reply.state := by
  unfold serveFrame at h ⊢
  dsimp only at h ⊢
  split at h
  . next haccepts =>
    rw [if_pos haccepts]
    simp at h
    exact ⟨h, rfl⟩
  . simp at h

section

variable {line peer peer' : Line} {fresh : Client.ClientCtx} {calls : List Client.Call}
variable {events : List Event} {isOpen : Prop}

-- Each frame that is served is a request of the client, in its turn.
theorem Tracks.requests (h : Tracks peer peer' events isOpen)
    (hrequests : peer.bytes <+: line.written (Client.lastSession ⟨fresh, line⟩ calls).line)
    : framesOf events <+: Client.sentIn (Client.runCalls ⟨fresh, line⟩ calls) := by
  obtain ⟨sent, houtgoing, hsent⟩ := Client.runCalls_writes ⟨fresh, line⟩ calls
  have hwritten : line.written (Client.lastSession ⟨fresh, line⟩ calls).line = sent := by
    unfold Line.written
    rw [houtgoing, List.drop_left]
  rw [hwritten] at hrequests
  have hscan := (mbapFraming 2).scan_flatten fun adu => @Client.whole_of_mem_sentIn ⟨fresh, line⟩ calls adu
  have hframes := (mbapFraming 2).scan_mono (hrequests.trans hsent)
  rw [hscan] at hframes
  exact h.frames.trans hframes

-- Each frame that the client reads is a reply of the server.
theorem Tracks.replies (h : Tracks peer peer' events isOpen) (hreplies : line.bytes <+: peer.written peer')
    (hwhole : ∀ adu ∈ adusOf events, mbapVerdict 2 adu = .take adu.length)
    : ((mbapFraming 1).scan line.bytes).1 <+: adusOf events := by
  obtain ⟨sent, houtgoing, hsent, -⟩ := h.sent
  have hwritten : peer.written peer' = sent := by
    unfold Line.written
    rw [houtgoing, List.drop_left]
  rw [hwritten] at hreplies
  rw [transmitted_eq] at hsent
  have hscan := (mbapFraming 1).scan_flatten fun adu hadu => mbapVerdict_one (hwhole adu hadu)
  have hframes := (mbapFraming 1).scan_mono (hreplies.trans hsent)
  rw [hscan] at hframes
  exact hframes

end

-- A call that is answered has read a frame with its own transaction id.
theorem Client.reply_of_get {first : Client.Session} (hinit : first.ctx.initialized = true)
    (htid : first.ctx.tid = 0) {calls : List Client.Call} {n : Nat} {e : Client.Exchange}
    (he : (Client.runCalls first calls)[n]? = some e) (hrc : 0 ≤ e.result.rc)
    : e.request ≠ [] ∧ ∃ frame ∈ ((mbapFraming 1).scan first.line.bytes).1,
        Client.RepliesTo e.call.op (Client.nextTid^[n + 1] 0) frame e.result.rc ∧
        e.result.out = if e.result.rc = Client.ok then
          e.call.op.decode (Client.memoryOf (frame.drop 7)) e.call.out else e.call.out := by
  obtain ⟨ses, hreached, heq⟩ := Client.runCalls_get (Client.Reached.zero hinit) he
  rw [Nat.zero_add] at hreached
  rw [heq] at hrc ⊢
  have hsock := Client.open_of_rc hreached.initialized hrc
  obtain ⟨frame, hlast, hreplies, hout⟩ := Client.make_replied hreached.initialized hrc
  obtain ⟨frames, hsplit, hframes⟩ := hreached.whole hsock
  constructor
  . rw [Client.make_request_adu e.call ⟨hreached.initialized, hsock⟩]
    apply Client.adu_ne_nil
  . refine ⟨frame, ?_, ?_, hout⟩
    . rw [hsplit, Framing.scan_append, Framing.scan_flatten hframes]
      have hconsumed : Client.consumed ses.line (e.call.make ses).ses.line <+: ses.line.bytes :=
        List.take_prefix _ _
      have hmem := ((mbapFraming 1).scan_mono hconsumed).subset (List.mem_of_getLast? hlast)
      exact List.mem_append_right _ hmem
    . rw [hreached.tid hsock, htid] at hreplies
      rw [Function.iterate_succ_apply']
      exact hreplies

theorem prefix_split {α : Type} {l before after : List α} {a : α} (h : before ++ a :: after <+: l)
    : l[before.length]? = some a ∧ l.take before.length = before := by
  obtain ⟨rest, rfl⟩ := h
  constructor
  . simp
  . rw [List.append_assoc, List.take_left]

theorem memoryOf_slice (bytes : List UInt8)
    : (Client.memoryOf bytes).slice 0 bytes.length = bytes := by
  have hwrite := Mem.slice_write_same (fun _ => 0) 0 bytes
  rw [← Client.slice_memoryOf hwrite (Nat.le_refl _)]
  exact hwrite

-- The two ends of a connection, with all that the server does on it and on the others.
section

variable {cfg : ServerConfig σ} {stack : Stack σ} {s s' : σ} {log : List (Nat × Event)} {k : Nat}
variable {line peer peer' : Line} {fresh : Client.ClientCtx} {calls : List Client.Call} {isOpen : Prop}

theorem replies_whole (hserial : transduce (serveOn cfg stack.locals) (framesIn log) s = (s', log))
    (htracks : Tracks peer peer' (entriesOf k log) isOpen)
    (hjoined : Joined line (Client.lastSession ⟨fresh, line⟩ calls).line peer peer')
    : ∀ adu ∈ adusOf (entriesOf k log), mbapVerdict 2 adu = .take adu.length := by
  have hframes := htracks.requests hjoined.requests
  rw [framesOf_entriesOf] at hframes
  intro adu hadu
  obtain ⟨before, request, after, hsplit, hsend⟩ := split_of_reply hserial hadu
  apply send_mem_serveFrame _ hsend
  have hmem : request ∈ entriesOf k before ++ request :: entriesOf k after := by simp
  rw [entriesOf_split hsplit] at hframes
  have := mbapVerdict_take (Client.whole_of_mem_sentIn (hframes.subset hmem))
  omega

-- What a client reads under the transaction id of a call is the reply to the request of this call.
theorem reply_in_turn (hinit : fresh.initialized = true) (htid : fresh.tid = 0)
    (hfew : calls.length ≤ 65535)
    (hserial : transduce (serveOn cfg stack.locals) (framesIn log) s = (s', log))
    (htracks : Tracks peer peer' (entriesOf k log) isOpen)
    (hjoined : Joined line (Client.lastSession ⟨fresh, line⟩ calls).line peer peer')
    {n : Nat} {e : Client.Exchange} (he : (Client.runCalls ⟨fresh, line⟩ calls)[n]? = some e)
    {frame : List UInt8} (hmem : frame ∈ ((mbapFraming 1).scan line.bytes).1)
    (hnumber : frame.take 2 = Pdu.u16Bytes (Client.nextTid^[n + 1] 0))
    : ∃ before after, framesIn log = before ++ (k, e.request) :: after ∧
        entriesOf k before = ((Client.runCalls ⟨fresh, line⟩ calls).take n).map Client.Exchange.request ∧
        e.request ≠ [] ∧ .send frame ∈ (serveFrame cfg stack.locals e.request
          (transduce (serveOn cfg stack.locals) before s).1).2 := by
  have hframes := htracks.requests hjoined.requests
  rw [framesOf_entriesOf] at hframes
  have hwhole := replies_whole hserial htracks hjoined
  have hadu := (htracks.replies hjoined.replies hwhole).subset hmem
  obtain ⟨before, request, after, hsplit, hsend⟩ := split_of_reply hserial hadu
  obtain ⟨hframe, -⟩ := send_of_serveFrame hsend
  have hserved : request ∈ entriesOf k before ++ request :: entriesOf k after := by simp
  rw [entriesOf_split hsplit] at hframes
  have hrequest := mbapVerdict_take (Client.whole_of_mem_sentIn (hframes.subset hserved))
  obtain ⟨hget, htake⟩ := prefix_split (hframes.trans (Client.sentIn_requests ⟨fresh, line⟩ calls))
  rw [List.getElem?_map, Option.map_eq_some_iff] at hget
  obtain ⟨e', he', rfl⟩ := hget
  have hbegun : e'.request ≠ [] := by
    intro hnil
    rw [hnil, List.length_nil] at hrequest
    omega
  have hadu' := Client.request_of_get hinit htid he' hbegun
  -- the reply carries the number of the request, and there are not enough calls for it to come back
  have hsame : (entriesOf k before).length = n := by
    rw [hframe, hadu'] at hnumber
    have htids := Pdu.u16Bytes_injective hnumber
    have hlen := Client.length_runCalls ⟨fresh, line⟩ calls
    obtain ⟨hm, -⟩ := List.getElem?_eq_some_iff.mp he'
    obtain ⟨hn, -⟩ := List.getElem?_eq_some_iff.mp he
    rcases Nat.le_total (entriesOf k before).length n with hle | hle
    . exact Client.tid_period hle (by omega) htids
    . exact (Client.tid_period hle (by omega) htids.symm).symm
  rw [hsame] at he' htake
  obtain rfl : e' = e := Option.some.inj (he'.symm.trans he)
  refine ⟨before, after, hsplit, ?_, hbegun, hsend⟩
  rw [← htake, List.map_take]

theorem answered_in_turn (hinit : fresh.initialized = true) (htid : fresh.tid = 0)
    (hfew : calls.length ≤ 65535)
    (hserial : transduce (serveOn cfg stack.locals) (framesIn log) s = (s', log))
    (htracks : Tracks peer peer' (entriesOf k log) isOpen)
    (hjoined : Joined line (Client.lastSession ⟨fresh, line⟩ calls).line peer peer')
    {n : Nat} {e : Client.Exchange} (he : (Client.runCalls ⟨fresh, line⟩ calls)[n]? = some e)
    (hrc : 0 ≤ e.result.rc)
    : ∃ before after, framesIn log = before ++ (k, e.request) :: after ∧
        entriesOf k before = ((Client.runCalls ⟨fresh, line⟩ calls).take n).map Client.Exchange.request ∧
        cfg.accepts e.result.ses.ctx.cfg.unitId ∧
        let found := (transduce (serveOn cfg stack.locals) before s).1
        let direct := Pdu.directCall cfg.handlers (stack.locals found) e.call.op e.call.out found
        e.result.rc = direct.rc ∧ e.result.out = direct.out ∧
        (transduce (serveOn cfg stack.locals) (before ++ [(k, e.request)]) s).1 = direct.state := by
  obtain ⟨hne, frame, hmem, hreplies, hout⟩ := Client.reply_of_get hinit htid he hrc
  obtain ⟨before, after, hsplit, htake, hbegun, hsend⟩ :=
    reply_in_turn hinit htid hfew hserial htracks hjoined he hmem hreplies.tid
  obtain ⟨hframe, hstate⟩ := send_of_serveFrame hsend
  have hadu := Client.request_of_get hinit htid he hbegun
  have haccepts : cfg.accepts e.result.ses.ctx.cfg.unitId := by
    by_contra hrefused
    rw [hadu, serveFrame_refused rfl hrefused, List.mem_singleton] at hsend
    contradiction
  refine ⟨before, after, hsplit, htake, haccepts, ?_⟩
  have hpdu : e.request.drop 7 = e.call.op.bytes := by
    rw [hadu]
    rfl
  have hreply : frame.drop 7
      = (Pdu.respond cfg.handlers (stack.locals (transduce (serveOn cfg stack.locals) before s).1)
          e.call.op.bytes (transduce (serveOn cfg stack.locals) before s).1).bytes := by
    rw [hframe, hadu]
    rfl
  rw [hpdu] at hstate
  have hanswer := hreplies.answer
  have hslice := memoryOf_slice (frame.drop 7)
  rw [hreply] at hanswer hslice
  have hdirect := @Pdu.directCall_of_answer σ cfg.handlers _ e.call.op _ e.call.out _ _ hanswer
    hslice
  dsimp only
  rw [hdirect, transduce_append, transduce_singleton]
  refine ⟨rfl, ?_, hstate⟩
  rw [hout, hreply]

end

-- The clients of a server may call it at the same time. Each request that the server executes is one of
-- them, once and in the order of its client, and each call that is answered returns what it would have
-- returned on the spot, at the place that it has among all requests of all clients.
theorem clients_serialized {env : StartEnv} {owner : Owner} {ctx : Ctx} {settings : ServerSettings}
    (hstart : (serverStart env owner ctx settings).1 = 0) (cfg : ServerConfig σ) (stack : Stack σ) (s : σ)
    {wakes : List Wake}
    (hfresh : Throughout (Host.step cfg stack) Fresh wakes
      (Host.start (serverStart env owner ctx settings).2.1 s))
    {clientEnv : Client.ClientEnv} {clientOwner : Owner} {clientCtx fresh : Client.ClientCtx}
    {clientCfg : Client.ClientConfig} {clientActs : List Act}
    (hconnect : Client.connect clientEnv clientOwner clientCtx clientCfg = (0, fresh, clientActs))
    {line peer : Line} {calls : List Client.Call} (hfew : calls.length ≤ 65535) {k : Nat}
    : let run := transduce (Host.step cfg stack) wakes
        (Host.start (serverStart env owner ctx settings).2.1 s)
      let made := Client.runCalls ⟨fresh, line⟩ calls
      run.1.accepted[k]? = some peer →
      Joined line (Client.lastSession ⟨fresh, line⟩ calls).line peer (run.1.lines k) →
      entriesOf k (framesIn run.2) <+: Client.sentIn made ∧
      ∀ n e, made[n]? = some e → 0 ≤ e.result.rc →
        ∃ before after, framesIn run.2 = before ++ (k, e.request) :: after ∧
          entriesOf k before = (made.take n).map Client.Exchange.request ∧
          let found := (transduce (serveOn cfg stack.locals) before s).1
          let direct := Pdu.directCall cfg.handlers (stack.locals found) e.call.op e.call.out found
          e.result.rc = direct.rc ∧ e.result.out = direct.out ∧
          (transduce (serveOn cfg stack.locals) (before ++ [(k, e.request)]) s).1 = direct.state := by
  intro run made haccepted hjoined
  have hkeeps := started_keeps hstart cfg stack s hfresh
  obtain ⟨hinit, htid⟩ := Client.connect_ok hconnect
  have htracks := hkeeps.tracks k peer haccepted
  constructor
  . rw [← framesOf_entriesOf]
    exact htracks.requests hjoined.requests
  . intro n e he hrc
    obtain ⟨before, after, hsplit, htake, -, hdirect⟩ :=
      answered_in_turn hinit htid hfew hkeeps.serial htracks hjoined he hrc
    exact ⟨before, after, hsplit, htake, hdirect⟩

def readOperation : Pdu.Operation :=
  .readRegisters 3 0 1 (.inl rfl) (Nat.le_refl 1) (Nat.le_of_ble_eq_true rfl)

-- A client that writes 5 and reads 7, which another one has written meanwhile.
def callsSample : List Client.Call :=
  [Client.callSample, { Client.callSample with op := readOperation }]

def repliesSample : Line where
  now := 0
  incoming := (mbapAdu [0, 1] 1 [6, 0, 0, 0, 5] ++ mbapAdu [0, 2] 1 [3, 2, 0, 7]).map (⟨30000000, ·⟩)
  outgoing := []
  turns := []
  recvTimeout := some 1000000000

def requestsSample (requests : List UInt8) : Line where
  now := 0
  incoming := requests.map (⟨3, ·⟩)
  outgoing := []
  turns := []
  recvTimeout := none

def meanwhileSample : List Wake :=
  let first := requestsSample (mbapAdu [0, 1] 1 [6, 0, 0, 0, 5] ++ mbapAdu [0, 2] 1 [3, 0, 0, 0, 1])
  let second := requestsSample (mbapAdu [0, 1] 1 [6, 0, 0, 0, 7])
  [⟨2, ⟨.ready [3], 5, fun _ => 0, fun _ => 0⟩, first⟩,
    ⟨2, ⟨.ready [3, 5], 6, fun _ => 0, fun _ => 0⟩, second⟩,
    ⟨2, ⟨.ready [6], 0, fun _ => 0, fun _ => 0⟩, second⟩,
    ⟨2, ⟨.ready [5], 0, fun _ => 0, fun _ => 0⟩, second⟩]

theorem clients_serialized_meanwhile
    : let run := transduce (Host.step registerConfig sampleStack) meanwhileSample
        (Host.start (serverStart startSample (.context 1) .zeroed ⟨502, 2, true⟩).2.1 0)
      let made := Client.runCalls ⟨⟨3, 0, true, Client.clientSample⟩, repliesSample⟩ callsSample
      made.map (fun e => (e.result.rc, e.result.out.registers 0)) = [(0, 0), (0, 7)] ∧
      entriesOf 0 (framesIn run.2) <+: Client.sentIn made := by
  have hfresh : Throughout (Host.step registerConfig sampleStack) Fresh meanwhileSample
      (Host.start (serverStart startSample (.context 1) .zeroed ⟨502, 2, true⟩).2.1 0) := by
    decide +kernel
  have hserialized := @clients_serialized _ startSample (.context 1) .zeroed ⟨502, 2, true⟩ rfl
    registerConfig sampleStack 0 meanwhileSample hfresh ⟨true, ⟨3, true, true, true, true, false⟩⟩
    (.context 0) ⟨0, 0, false, Client.clientSample⟩ _ Client.clientSample _ rfl repliesSample
    (requestsSample (mbapAdu [0, 1] 1 [6, 0, 0, 0, 5] ++ mbapAdu [0, 2] 1 [3, 0, 0, 0, 1])) callsSample
    (by decide) 0
  constructor
  . decide +kernel
  . apply (hserialized _ _).1
    . decide +kernel
    . constructor
      . decide +kernel
      . decide +kernel

end Tcp
