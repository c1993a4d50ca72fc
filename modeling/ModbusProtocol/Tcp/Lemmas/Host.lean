import ModbusProtocol.Data.Serial
import ModbusProtocol.Data.Service
import ModbusProtocol.Tcp.Host
import ModbusProtocol.Tcp.Lemmas.Ends
import ModbusProtocol.Tcp.Lemmas.Slots

/-!
This module contains what the connections of one server have to do with each other: on each of them the
server does what the bytes ask for that have come on it, and nothing but the application is shared.
-/

open Modbus Posix

namespace Tcp

section Tracks

-- What has been done on a connection since it was `before`. It stays so when the connection is closed.
structure Tracks (before line : Line) (events : List Event) (isOpen : Prop) : Prop where
  frames : framesOf events <+: ((mbapFraming 2).scan before.bytes).1
  rest : isOpen → (mbapFraming 2).scan before.bytes
    = (framesOf events ++ ((mbapFraming 2).scan line.bytes).1, ((mbapFraming 2).scan line.bytes).2)
  sent : ∃ sent, line.outgoing = before.outgoing ++ sent ∧ sent <+: transmitted events ∧
    (isOpen → sent = transmitted events)

theorem Tracks.refl (line : Line) (isOpen : Prop)
    : Tracks line line [] isOpen := by
  constructor
  . apply List.nil_prefix
  . intro _
    rfl
  . exact ⟨[], (List.append_nil _).symm, List.nil_prefix, fun _ => rfl⟩

variable {before line : Line} {events : List Event} {isOpen isOpen' : Prop}

theorem Tracks.mono (h : Tracks before line events isOpen) (himp : isOpen' → isOpen)
    : Tracks before line events isOpen' := by
  obtain ⟨sent, houtgoing, hpart, hall⟩ := h.sent
  constructor
  . exact h.frames
  . intro hopen
    exact h.rest (himp hopen)
  . exact ⟨sent, houtgoing, hpart, fun hopen => hall (himp hopen)⟩

theorem Tracks.pass (h : Tracks before line events isOpen) (us : Nat)
    : Tracks before (line.pass us) events isOpen := by
  exact ⟨h.frames, h.rest, h.sent⟩

variable {σ : Type} {cfg : ServerConfig σ} {stack : Stack σ} {s : σ}

theorem Tracks.serve (h : Tracks before line events isOpen) (hopen : isOpen)
    (hrc : isOpen' → 0 ≤ (serverOnProcess cfg stack ⟨s, line⟩).rc)
    : Tracks before (serverOnProcess cfg stack ⟨s, line⟩).server.line
        (events ++ (serverOnProcess cfg stack ⟨s, line⟩).events) isOpen' := by
  have hstep := serverOnProcess_step cfg stack ⟨s, line⟩
  have hwrote := serverOnProcess_wrote cfg stack ⟨s, line⟩
  have hrest := h.rest hopen
  obtain ⟨sent, houtgoing, -, hsent⟩ := h.sent
  rw [hsent hopen] at houtgoing
  generalize serverOnProcess cfg stack ⟨s, line⟩ = p at hstep hwrote hrc ⊢
  cases hstep with
  | served n line' hverdict htook hserves =>
    have hbytes := hserves.bytes htook (mbapVerdict_take hverdict).2.1
    dsimp only at hverdict htook hserves hbytes hwrote
    have hscan := (mbapFraming 2).scan_take hverdict
    obtain ⟨reply, hput, hreply⟩ := hserves.sent
    dsimp only at hput
    rw [htook.written_put hput] at hwrote
    rw [hscan, ← hbytes] at hrest
    constructor
    . rw [framesOf_append, hserves.frames, hrest, List.prefix_append_right_inj]
      exact ⟨_, rfl⟩
    . intro _
      rw [framesOf_append, hserves.frames, hrest, List.append_assoc, List.singleton_append]
    . refine ⟨transmitted events ++ reply, ?_, ?_, ?_⟩
      . rw [hput.outgoing, htook.outgoing, houtgoing, List.append_assoc]
      . rw [transmitted_append, List.prefix_append_right_inj]
        exact hwrote
      . intro hopen'
        rw [transmitted_append, hreply]
        have := hserves.rc
        have := hrc hopen'
        omega
  | closed hserver hevents hrc' hcalm =>
    have hshut : ¬isOpen' := by
      intro hopen'
      have := hrc hopen'
      omega
    rw [hevents, List.append_nil]
    constructor
    . exact h.frames
    . intro hopen'
      contradiction
    . refine ⟨transmitted events, ?_, List.prefix_refl _, fun _ => rfl⟩
      rw [hserver.2]
      exact houtgoing

end Tracks

-- The frames that have been served, on any of the connections.
def framesIn (log : List (Nat × Event)) : List (Nat × List UInt8) :=
  log.filterMap fun (k, event) =>
    match event with
    | .frame adu => some (k, adu)
    | _ => none

theorem framesIn_append (log log' : List (Nat × Event))
    : framesIn (log ++ log') = framesIn log ++ framesIn log' := by
  apply List.filterMap_append

theorem framesIn_map (k : Nat) (events : List Event)
    : framesIn (events.map (k, ·)) = (framesOf events).map (k, ·) := by
  unfold framesIn framesOf
  rw [List.filterMap_map, List.map_filterMap]
  congr 1
  funext event
  cases event with
  | frame adu => rfl
  | call call => rfl
  | txEnable enable => rfl
  | send adu => rfl

variable {σ : Type}

-- What one frame on connection `k` makes the server do.
def serveOn (cfg : ServerConfig σ) (locals : σ → Pdu.Locals) (request : Nat × List UInt8) (s : σ)
    : σ × List (Nat × Event) :=
  let (s, events) := serveFrame cfg locals request.2 s
  (s, events.map (request.1, ·))

-- The calls of the application, for whichever of the clients.
def callsIn (log : List (Nat × Event)) : List Pdu.Call :=
  callsOf (log.map Prod.snd)

theorem callsIn_append (log log' : List (Nat × Event))
    : callsIn (log ++ log') = callsIn log ++ callsIn log' := by
  unfold callsIn
  rw [List.map_append, callsOf_append]

-- The state is what the calls of the application have made of it.
theorem serveOn_effect (cfg : ServerConfig σ) (locals : σ → Pdu.Locals) (request : Nat × List UInt8) (s : σ)
    : (serveOn cfg locals request s).1
        = (transduce (cfg.handlers.execute locals) (callsIn (serveOn cfg locals request s).2) s).1 := by
  unfold serveOn callsIn serveFrame
  dsimp only
  rw [List.map_map]
  change _ = (transduce _ (callsOf (List.map id _)) s).1
  rw [List.map_id]
  split
  . rw [← List.singleton_append, callsOf_append, callsOf_append, callsOf_calls]
    have heffect := Pdu.respond_effect cfg.handlers locals (request.2.drop 7) s
    dsimp only
    rw [heffect]
    congr 2
    exact (List.append_nil _).symm
  . rfl

theorem served_effect (cfg : ServerConfig σ) (locals : σ → Pdu.Locals)
    (requests : List (Nat × List UInt8)) (s : σ)
    : let served := transduce (serveOn cfg locals) requests s
      served.1 = (transduce (cfg.handlers.execute locals) (callsIn served.2) s).1 := by
  induction requests generalizing s with
  | nil => rfl
  | cons request requests ih =>
    have hlater := ih (serveOn cfg locals request s).1
    have hfirst := serveOn_effect cfg locals request s
    dsimp only at hlater ⊢
    rw [← List.singleton_append, transduce_append, transduce_singleton]
    dsimp only
    rw [callsIn_append, transduce_append]
    dsimp only
    rw [← hfirst]
    exact hlater

theorem framesIn_served (cfg : ServerConfig σ) (locals : σ → Pdu.Locals) (requests : List (Nat × List UInt8))
    (s : σ)
    : framesIn (transduce (serveOn cfg locals) requests s).2 = requests := by
  induction requests generalizing s with
  | nil => rfl
  | cons request requests ih =>
    have hlater := ih (serveOn cfg locals request s).1
    rw [← List.singleton_append, transduce_append, transduce_singleton]
    dsimp only
    rw [framesIn_append, hlater]
    congr 1
    unfold serveOn
    dsimp only
    rw [framesIn_map, framesOf_serveFrame]
    rfl

-- The log up to a request is what serving the requests before it gives.
theorem log_split {cfg : ServerConfig σ} {locals : σ → Pdu.Locals} {s s' : σ} {log : List (Nat × Event)}
    {before after : List (Nat × List UInt8)} {k : Nat} {frame : List UInt8}
    (hserial : transduce (serveOn cfg locals) (framesIn log) s = (s', log))
    (hsplit : framesIn log = before ++ (k, frame) :: after)
    : ∃ later, log = (transduce (serveOn cfg locals) before s).2 ++ (k, .frame frame) :: later := by
  have hlog := congrArg Prod.snd hserial
  dsimp only at hlog
  rw [hsplit, List.append_cons, transduce_append, transduce_append, transduce_singleton] at hlog
  dsimp only at hlog
  have hframe : ∀ t, ∃ events, (serveOn cfg locals (k, frame) t).2 = (k, .frame frame) :: events := by
    intro t
    unfold serveOn serveFrame
    dsimp only
    split
    . exact ⟨_, rfl⟩
    . exact ⟨_, rfl⟩
  obtain ⟨events, hevents⟩ := hframe (transduce (serveOn cfg locals) before s).1
  rw [hevents, List.append_assoc] at hlog
  exact ⟨_, hlog.symm⟩

-- The connections that have not been closed.
def openPeers (peers : Int → Nat) (fds : List Int) : List Nat :=
  (connected fds).map peers

-- What holds of a server of which the connections in `opened` are open when it has done what is in `log`.
structure Keeps (cfg : ServerConfig σ) (locals : σ → Pdu.Locals) (s : σ) (host : Host σ) (opened : List Nat)
    (log : List (Nat × Event)) : Prop where
  distinct : opened.Nodup
  known : ∀ k ∈ opened, k < host.accepted.length
  tracks : ∀ k line, host.accepted[k]? = some line →
    Tracks line (host.lines k) (entriesOf k log) (k ∈ opened)
  silent : ∀ k, host.accepted.length ≤ k → entriesOf k log = []
  serial : transduce (serveOn cfg locals) (framesIn log) s = (host.state, log)

variable {cfg : ServerConfig σ} {stack : Stack σ} {s : σ} {host : Host σ} {opened opened' : List Nat}
variable {log : List (Nat × Event)}

theorem Keeps.mono (h : Keeps cfg stack.locals s host opened log) (hdistinct : opened'.Nodup)
    (hsub : opened' ⊆ opened)
    : Keeps cfg stack.locals s host opened' log := by
  constructor
  . exact hdistinct
  . intro k hk
    exact h.known k (hsub hk)
  . intro k line hline
    exact (h.tracks k line hline).mono fun hk => hsub hk
  . exact h.silent
  . exact h.serial

theorem Keeps.pass (h : Keeps cfg stack.locals s host opened log) (us : Nat)
    : Keeps cfg stack.locals s (host.pass us) opened log := by
  constructor
  . exact h.distinct
  . exact h.known
  . intro k line hline
    exact (h.tracks k line hline).pass us
  . exact h.silent
  . exact h.serial

theorem Keeps.enrol (h : Keeps cfg stack.locals s host opened log) (wake : Wake)
    : Keeps cfg stack.locals s (host.enrol wake) (host.accepted.length :: opened) log := by
  have hnew : host.accepted.length ∉ opened := by
    intro hmem
    have := h.known _ hmem
    omega
  have hlen : (host.accepted ++ [wake.line]).length = host.accepted.length + 1 := by simp
  constructor
  . exact List.nodup_cons.mpr ⟨hnew, h.distinct⟩
  . intro k hk
    change k < (host.accepted ++ [wake.line]).length
    rw [hlen]
    obtain rfl | hk := List.mem_cons.mp hk
    . omega
    . have := h.known k hk
      omega
  . intro k line hline
    change (host.accepted ++ [wake.line])[k]? = some line at hline
    change Tracks line (Function.update host.lines host.accepted.length wake.line k) _ _
    by_cases hk : k = host.accepted.length
    . rw [hk] at hline ⊢
      rw [List.getElem?_concat_length] at hline
      injection hline with hline
      rw [Function.update_self, h.silent _ (Nat.le_refl _), hline]
      apply Tracks.refl
    . have hlt : k < host.accepted.length := by
        obtain ⟨hbound, -⟩ := List.getElem?_eq_some_iff.mp hline
        omega
      rw [List.getElem?_append_left hlt] at hline
      rw [Function.update_of_ne hk]
      apply (h.tracks k line hline).mono
      intro hmem
      obtain hmem | hmem := List.mem_cons.mp hmem
      . contradiction
      . exact hmem
  . intro k hk
    change (host.accepted ++ [wake.line]).length ≤ k at hk
    rw [hlen] at hk
    exact h.silent k (by omega)
  . exact h.serial

-- A call of `on_process` serves a frame or does nothing.
theorem serverOnProcess_serial (cfg : ServerConfig σ) (stack : Stack σ) (k : Nat) (srv : Server σ)
    : let p := serverOnProcess cfg stack srv
      transduce (serveOn cfg stack.locals) (framesIn (p.events.map (k, ·))) srv.state
        = (p.server.state, p.events.map (k, ·)) := by
  dsimp only
  cases serverOnProcess_step cfg stack srv with
  | served n line hverdict htook hserves =>
    rw [framesIn_map, hserves.frames, List.map_singleton, transduce_singleton]
    unfold serveOn
    have hserved := hserves.served
    dsimp only at hserved ⊢
    rw [← hserved]
  | closed hserver hevents hrc hcalm =>
    rw [hevents, hserver.1]
    rfl

theorem Keeps.serve {k : Nat} (h : Keeps cfg stack.locals s host opened log) (hk : k ∈ opened)
    (hdistinct : opened'.Nodup) (hsub : opened' ⊆ opened)
    (hrc : k ∈ opened' → 0 ≤ (serverOnProcess cfg stack ⟨host.state, host.lines k⟩).rc)
    : let p := serverOnProcess cfg stack ⟨host.state, host.lines k⟩
      Keeps cfg stack.locals s (host.serve k p.server) opened' (log ++ p.events.map (k, ·)) := by
  have hserial := serverOnProcess_serial cfg stack k ⟨host.state, host.lines k⟩
  dsimp only at hserial ⊢
  constructor
  . exact hdistinct
  . intro j hj
    exact h.known j (hsub hj)
  . intro j line hline
    have htracks := h.tracks j line hline
    unfold Host.serve
    dsimp only
    rw [entriesOf_append]
    by_cases hj : j = k
    . subst hj
      rw [Function.update_self, entriesOf_same]
      exact htracks.serve hk hrc
    . rw [Function.update_of_ne hj, entriesOf_other (Ne.symm hj), List.append_nil]
      exact (htracks.pass _).mono fun hmem => hsub hmem
  . intro j hj
    have hlt := h.known k hk
    change host.accepted.length ≤ j at hj
    rw [entriesOf_append, h.silent j hj, entriesOf_other (by omega)]
    rfl
  . rw [framesIn_append, transduce_append, h.serial, hserial]
    rfl

theorem openPeers_occupied (peers : Int → Nat) {sd : Int} (fds : List Int) (hsd : 0 ≤ sd)
    : openPeers peers (sd :: fds) = peers sd :: openPeers peers fds := by
  unfold openPeers
  rw [connected_cons_occupied fds hsd, List.map_cons]

theorem openPeers_free (peers : Int → Nat) {sd : Int} (fds : List Int) (hsd : ¬0 ≤ sd)
    : openPeers peers (sd :: fds) = openPeers peers fds := by
  unfold openPeers
  rw [connected_cons_free fds hsd]

-- The slots in front of `fds` have been visited and stand for the connections in `visited`.
theorem Keeps.processClients (readfds : List Int) {fds : List Int} {host : Host σ} {visited : List Nat}
    {log : List (Nat × Event)}
    (h : Keeps cfg stack.locals s host (visited ++ openPeers host.peers fds) log)
    : let visit := host.processClients cfg stack readfds fds
      visit.host.peers = host.peers ∧
      Keeps cfg stack.locals s visit.host (visited ++ openPeers host.peers visit.fds)
        (log ++ visit.log) := by
  induction fds generalizing host visited log with
  | nil =>
    unfold Host.processClients
    refine ⟨rfl, ?_⟩
    rw [List.append_nil]
    exact h
  | cons sd fds ih =>
    unfold Host.processClients
    by_cases hready : sd ≥ 0 ∧ sd ∈ readfds
    . rw [if_pos hready]
      have hocc : 0 ≤ sd := hready.1
      rw [openPeers_occupied host.peers fds hocc] at h
      have hmem : host.peers sd ∈ visited ++ host.peers sd :: openPeers host.peers fds := by simp
      dsimp only
      rw [← List.append_assoc]
      split
      . next hfailed =>
        rw [openPeers_free host.peers _ (by omega)]
        obtain ⟨hnot, hdistinct⟩ := List.nodup_cons.mp (List.nodup_middle.mp h.distinct)
        apply ih (h.serve hmem hdistinct _ _)
        . exact fun j hj => (List.perm_middle.mem_iff).mpr (List.mem_cons_of_mem _ hj)
        . intro hk
          contradiction
      . next hfine =>
        rw [openPeers_occupied host.peers _ hocc, List.append_cons]
        rw [List.append_cons] at h hmem
        apply ih (h.serve hmem h.distinct (List.Subset.refl _) _)
        intro _
        omega
    . rw [if_neg hready]
      dsimp only
      by_cases hocc : 0 ≤ sd
      . rw [openPeers_occupied host.peers _ hocc, List.append_cons] at h
        rw [openPeers_occupied host.peers _ hocc, List.append_cons]
        exact ih h
      . rw [openPeers_free host.peers _ hocc] at h
        rw [openPeers_free host.peers _ hocc]
        exact ih h

-- A loop over the slots does not open any.
theorem Visiting.connected_sublist {tcfg : TransportConfig} {visit : Nat → Int → Int × List ThreadEvent}
    (h : Visiting tcfg visit) (i : Nat) (fds : List Int)
    : (connected (forSlots visit i fds).1).Sublist (connected fds) := by
  induction fds generalizing i with
  | nil => apply List.Sublist.refl
  | cons sd fds ih =>
    unfold forSlots
    dsimp only
    by_cases hsd : 0 ≤ sd
    . rw [connected_cons_occupied fds hsd]
      have hkept : (connected (sd :: (forSlots visit (i + 1) fds).1)).Sublist (sd :: connected fds) := by
        rw [connected_cons_occupied _ hsd]
        exact (ih _).cons_cons sd
      obtain hvisit | ⟨event, -, hvisit | hvisit⟩ := h.occupied i sd hsd
      . rw [hvisit]
        exact hkept
      . rw [hvisit]
        exact hkept
      . rw [hvisit, connected_cons_free _ (by omega)]
        exact (ih _).cons sd
    . rw [h.free i sd hsd, connected_cons_free _ hsd, connected_cons_free _ hsd]
      exact ih _

theorem connected_place {newSocket : Int} {fds fds' : List Int} (hnew : 0 ≤ newSocket)
    (h : place newSocket fds = some fds')
    : (connected fds').Perm (newSocket :: connected fds) := by
  induction fds generalizing fds' with
  | nil => contradiction
  | cons sd fds ih =>
    unfold place at h
    split at h
    . next hfree =>
      injection h with h
      rw [← h, connected_cons_occupied fds hnew, connected_cons_free fds (by omega)]
    . next hfree =>
      rw [Option.map_eq_some_iff] at h
      obtain ⟨rest, hrest, rfl⟩ := h
      rw [connected_cons_occupied _ (by omega), connected_cons_occupied _ (by omega)]
      exact ((ih hrest).cons sd).trans (List.Perm.swap _ _ _)

-- accept() returns a descriptor that is not in use.
def Fresh (wake : Wake) (host : Host σ) : Prop :=
  wake.env.accept < 0 ∨ wake.env.accept ∉ host.transport.clientFds

instance (wake : Wake) (host : Host σ) : Decidable (Fresh wake host) := by
  unfold Fresh
  infer_instance

theorem openPeers_place {wake : Wake} {fds : List Int} (hfresh : Fresh wake host)
    (h : (acceptClient host.transport.cfg wake.env host.transport.clientFds).1 = some fds)
    : (openPeers (host.enrol wake).peers fds).Perm
        (host.accepted.length :: openPeers host.peers host.transport.clientFds) := by
  have hnew : 0 ≤ wake.env.accept := by
    unfold acceptClient at h
    grind
  have hfree : wake.env.accept ∉ connected host.transport.clientFds := by
    intro hmem
    obtain hfresh | hfresh := hfresh
    . omega
    . exact hfresh (List.mem_of_mem_filter hmem)
  have hperm := (connected_place hnew (acceptClient_some h)).map (host.enrol wake).peers
  have hothers : (connected host.transport.clientFds).map (host.enrol wake).peers
      = (connected host.transport.clientFds).map host.peers := by
    apply List.map_congr_left
    intro sd hsd
    apply Function.update_of_ne
    intro hsame
    exact hfree (hsame ▸ hsd)
  have hfirst : (host.enrol wake).peers wake.env.accept = host.accepted.length := by
    apply Function.update_self
  rw [List.map_cons, hothers, hfirst] at hperm
  exact hperm

theorem Keeps.iterate {wake : Wake} {host : Host σ}
    (h : Keeps cfg stack.locals s host (openPeers host.peers host.transport.clientFds) log)
    (hfresh : Fresh wake host)
    : let next := host.iterate cfg stack wake
      Keeps cfg stack.locals s next.1 (openPeers next.1.peers next.1.transport.clientFds)
        (log ++ next.2) := by
  unfold Host.iterate
  dsimp only
  split
  . rw [List.append_nil]
    exact h
  . split
    . rw [List.append_nil]
      have hsub := ((checkIdle_visiting host.transport.cfg wake.env).connected_sublist 0
        host.transport.clientFds).map host.peers
      have hmono := h.mono (hsub.nodup h.distinct) hsub.subset
      exact ⟨hmono.distinct, hmono.known, hmono.tracks, hmono.silent, hmono.serial⟩
    . have hserve : ∀ {host' : Host σ} {fds : List Int},
          Keeps cfg stack.locals s host' (openPeers host'.peers fds) log →
          let visit := host'.processClients cfg stack (wake.env.select.result
            (fdSet host.transport)).2 fds
          let next : Host σ :=
            { visit.host with transport := { host.transport with clientFds := visit.fds } }
          Keeps cfg stack.locals s next (openPeers next.peers next.transport.clientFds)
            (log ++ visit.log) := by
        intro host' fds hhost
        obtain ⟨hpeers, hkeeps⟩ := @Keeps.processClients σ cfg stack s
          (wake.env.select.result (fdSet host.transport)).2 fds host' [] log hhost
        dsimp only
        rw [hpeers]
        exact ⟨hkeeps.distinct, hkeeps.known, hkeeps.tracks, hkeeps.silent, hkeeps.serial⟩
      split
      . rw [List.append_nil]
        exact h
      . next fds host' haccepted =>
        apply hserve
        unfold Host.accept at haccepted
        dsimp only at haccepted
        split at haccepted
        . rw [Option.map_eq_some_iff] at haccepted
          obtain ⟨fds', hplaced, heq⟩ := haccepted
          injection heq with hfds hhost
          rw [← hfds, ← hhost]
          have hperm := openPeers_place hfresh hplaced
          have henrol := h.enrol wake
          exact henrol.mono (hperm.nodup_iff.mpr henrol.distinct) hperm.subset
        . injection haccepted with heq
          injection heq with hfds hhost
          rw [← hfds, ← hhost]
          exact h

theorem Keeps.step {wake : Wake} {host : Host σ}
    (h : Keeps cfg stack.locals s host (openPeers host.peers host.transport.clientFds) log)
    (hfresh : Fresh wake host)
    : let next := host.step cfg stack wake
      Keeps cfg stack.locals s next.1 (openPeers next.1.peers next.1.transport.clientFds)
        (log ++ next.2) := by
  have hpass : Keeps cfg stack.locals s (host.pass wake.pause)
    (openPeers host.peers host.transport.clientFds) log := h.pass wake.pause
  exact @Keeps.iterate σ cfg stack s log wake (host.pass wake.pause) hpass hfresh

theorem Keeps.run {wakes : List Wake} {host : Host σ} {log : List (Nat × Event)}
    (h : Keeps cfg stack.locals s host (openPeers host.peers host.transport.clientFds) log)
    (hfresh : Throughout (Host.step cfg stack) Fresh wakes host)
    : let run := transduce (Host.step cfg stack) wakes host
      Keeps cfg stack.locals s run.1 (openPeers run.1.peers run.1.transport.clientFds)
        (log ++ run.2) := by
  induction wakes generalizing host log with
  | nil =>
    unfold transduce
    dsimp only
    rw [List.append_nil]
    exact h
  | cons wake wakes ih =>
    have hlater := ih (h.step hfresh.1) hfresh.2
    unfold transduce
    dsimp only at hlater ⊢
    rw [← List.append_assoc]
    exact hlater

-- What `on_process` has returned for the slots is given.
def Environment.returning (env : Environment) (onProcess : Nat → Int) : Environment :=
  { env with onProcess := onProcess }

theorem processClients_slots {tcfg : TransportConfig} {env : Environment} {readfds fds : List Int} {i : Nat}
    {host : Host σ} (hprocess : tcfg.onProcess = true)
    (h : ∀ j, env.onProcess (i + j) = (host.processClients cfg stack readfds fds).returns.getD j 0)
    : (forSlots (processClient tcfg env readfds) i fds).1
        = (host.processClients cfg stack readfds fds).fds := by
  induction fds generalizing i host with
  | nil => rfl
  | cons sd fds ih =>
    have hfirst := h 0
    have hlater : ∀ j, env.onProcess (i + 1 + j)
        = (host.processClients cfg stack readfds (sd :: fds)).returns.getD (j + 1) 0 := by
      intro j
      rw [Nat.add_right_comm]
      exact h (j + 1)
    have hslots : (forSlots (processClient tcfg env readfds) i (sd :: fds)).1
        = (processClient tcfg env readfds i sd).1 ::
          (forSlots (processClient tcfg env readfds) (i + 1) fds).1 := by
      rfl
    rw [hslots]
    unfold Host.processClients at hfirst hlater ⊢
    rw [Nat.add_zero] at hfirst
    by_cases hready : sd ≥ 0 ∧ sd ∈ readfds
    . rw [if_pos hready] at hfirst hlater ⊢
      rw [ih hlater]
      unfold processClient
      rw [if_pos hready, if_pos hprocess, hfirst, apply_ite Prod.fst]
      rfl
    . rw [if_neg hready] at hlater ⊢
      rw [ih hlater]
      unfold processClient
      rw [if_neg hready]

section

variable {ctx : TransportCtx} {env : Environment}

theorem transport_failed (h : (env.select.result (fdSet ctx)).1 < 0 ∧ env.select.errno ≠ eintr)
    : (iteration ctx env).1 = ctx := by
  unfold iteration
  dsimp only
  rw [if_pos h]

theorem transport_quiet (hfine : ¬((env.select.result (fdSet ctx)).1 < 0 ∧ env.select.errno ≠ eintr))
    (h : (env.select.result (fdSet ctx)).1 = 0)
    : (iteration ctx env).1
        = { ctx with clientFds := (forSlots (checkIdle ctx.cfg env) 0 ctx.clientFds).1 } := by
  unfold iteration
  dsimp only
  rw [if_neg hfine, if_pos h]

theorem transport_active (hfine : ¬((env.select.result (fdSet ctx)).1 < 0 ∧ env.select.errno ≠ eintr))
    (h : ¬(env.select.result (fdSet ctx)).1 = 0)
    : (iteration ctx env).1
        =
      match if ctx.listenSock ≥ 0 ∧ ctx.listenSock ∈ (env.select.result (fdSet ctx)).2 then
          (acceptClient ctx.cfg env ctx.clientFds).1
        else
          some ctx.clientFds with
      | none => ctx
      | some fds =>
        { ctx with clientFds :=
            (forSlots (processClient ctx.cfg env (env.select.result (fdSet ctx)).2) 0 fds).1 } := by
  unfold iteration
  dsimp only
  rw [if_neg hfine, if_neg h]
  by_cases hpending : ctx.listenSock ≥ 0 ∧ ctx.listenSock ∈ (env.select.result (fdSet ctx)).2
  . rw [if_pos hpending, if_pos hpending]
    cases (acceptClient ctx.cfg env ctx.clientFds).1 with
    | none => rfl
    | some fds => rfl
  . rw [if_neg hpending, if_neg hpending]

end

theorem transport_accept {wake : Wake} (onProcess : Nat → Int)
    (hfine : ¬((wake.env.select.result (fdSet host.transport)).1 < 0 ∧ wake.env.select.errno ≠ eintr))
    (h : ¬(wake.env.select.result (fdSet host.transport)).1 = 0)
    : let env := wake.env.returning onProcess
      let readfds := (wake.env.select.result (fdSet host.transport)).2
      (iteration host.transport env).1
        =
      match host.accept wake readfds with
      | none => host.transport
      | some (fds, _) =>
        { host.transport with clientFds :=
            (forSlots (processClient host.transport.cfg env readfds) 0 fds).1 } := by
  dsimp only
  rw [@transport_active host.transport (wake.env.returning onProcess) hfine h]
  have hresult : ((wake.env.returning onProcess).select.result (fdSet host.transport)).2
      = (wake.env.select.result (fdSet host.transport)).2 := by
    rfl
  have haccept : acceptClient host.transport.cfg (wake.env.returning onProcess) host.transport.clientFds
      = acceptClient host.transport.cfg wake.env host.transport.clientFds := by
    rfl
  simp only [hresult, haccept]
  unfold Host.accept
  dsimp only
  by_cases hpending : host.transport.listenSock ≥ 0 ∧
      host.transport.listenSock ∈ (wake.env.select.result (fdSet host.transport)).2
  . rw [if_pos hpending, if_pos hpending]
    cases (acceptClient host.transport.cfg wake.env host.transport.clientFds).1 with
    | none => rfl
    | some fds => rfl
  . rw [if_neg hpending, if_neg hpending]

-- The slots of the server are those of its thread, for what `on_process` returns.
theorem iterate_iteration (wake : Wake) (hprocess : host.transport.cfg.onProcess = true)
    : ∃ onProcess, (host.iterate cfg stack wake).1.transport
        = (iteration host.transport (wake.env.returning onProcess)).1 := by
  unfold Host.iterate
  dsimp only
  split
  . next hfailed =>
    exact ⟨fun _ => 0, (@transport_failed host.transport (wake.env.returning fun _ => 0) hfailed).symm⟩
  . next hfine =>
    split
    . next hquiet =>
      exact ⟨fun _ => 0,
        (@transport_quiet host.transport (wake.env.returning fun _ => 0) hfine hquiet).symm⟩
    . next hactive =>
      have hiteration := fun onProcess => @transport_accept _ host _ onProcess hfine hactive
      dsimp only at hiteration
      split
      . next hrefused =>
        refine ⟨fun _ => 0, ?_⟩
        rw [hiteration, hrefused]
      . next fds host' haccepted =>
        refine ⟨fun j => (host'.processClients cfg stack
          (wake.env.select.result (fdSet host.transport)).2 fds).returns.getD j 0, ?_⟩
        rw [hiteration, haccepted]
        dsimp only
        rw [processClients_slots hprocess]
        intro j
        rw [Nat.zero_add]
        rfl

theorem run_serverThread {wakes : List Wake} {host : Host σ} (hprocess : host.transport.cfg.onProcess = true)
    : ∃ returns, returns.length = wakes.length ∧
        (transduce (Host.step cfg stack) wakes host).1.transport
          = (serverThread host.transport
              (List.zipWith (fun wake => wake.env.returning) wakes returns)).1 := by
  induction wakes generalizing host with
  | nil => exact ⟨[], rfl, rfl⟩
  | cons wake wakes ih =>
    obtain ⟨onProcess, hfirst⟩ :=
      @iterate_iteration σ cfg stack (host.pass wake.pause) wake hprocess
    have hkeeps := (iteration_keeps host.transport (wake.env.returning onProcess)).2.1
    have hnext : (host.step cfg stack wake).1.transport
        = (iteration host.transport (wake.env.returning onProcess)).1 := hfirst
    obtain ⟨returns, hlen, hlater⟩ := @ih (host.step cfg stack wake).1 (by
      rw [hnext, hkeeps]
      exact hprocess)
    refine ⟨onProcess :: returns, ?_, ?_⟩
    . rw [List.length_cons, List.length_cons, hlen]
    . unfold transduce
      dsimp only
      rw [hlater, hnext]
      rfl

theorem keeps_start {ctx : Ctx} (hslots : connected (slotsOf ctx) = [])
    : let host := Host.start ctx s
      Keeps cfg stack.locals s host (openPeers host.peers host.transport.clientFds) [] := by
  have hnone : openPeers (Host.start ctx s).peers (Host.start ctx s).transport.clientFds = [] := by
    change (connected (slotsOf ctx)).map _ = []
    rw [hslots]
    rfl
  dsimp only
  rw [hnone]
  constructor
  . apply List.nodup_nil
  . intro k hk
    contradiction
  . intro k line hline
    contradiction
  . intro k _
    rfl
  . rfl

theorem connected_replicate (n : Nat)
    : connected (List.replicate n (-1)) = [] := by
  unfold connected
  rw [List.filter_replicate]
  rfl

-- A server that has been started has no clients, and `on_process` is set.
theorem serverStart_idle {env : StartEnv} {owner : Owner} {ctx : Ctx} {settings : ServerSettings}
    (hstart : (serverStart env owner ctx settings).1 = 0)
    : let started := (serverStart env owner ctx settings).2.1
      connected (slotsOf started) = [] ∧ started.transport.cfg.onProcess = true := by
  have hstarted := hstart
  unfold serverStart at hstarted
  split at hstarted
  . contradiction
  . next hfree =>
    have heq : serverStart env owner ctx settings = start env owner .zeroed
        ⟨.listenServer, "", settings.port, "", settings.maxClients, ⟨true, settings.onLink, false⟩⟩ := by
      unfold serverStart
      rw [if_neg hfree]
    obtain ⟨slots, cap, -, hlistening⟩ := start_listening rfl hstarted
    rw [← heq] at hlistening
    dsimp only
    rw [hlistening]
    exact ⟨connected_replicate cap.toNat, rfl⟩

theorem started_keeps {env : StartEnv} {owner : Owner} {ctx : Ctx} {settings : ServerSettings}
    (hstart : (serverStart env owner ctx settings).1 = 0) (cfg : ServerConfig σ) (stack : Stack σ) (s : σ)
    {wakes : List Wake}
    (hfresh : Throughout (Host.step cfg stack) Fresh wakes
      (Host.start (serverStart env owner ctx settings).2.1 s))
    : let run := transduce (Host.step cfg stack) wakes
        (Host.start (serverStart env owner ctx settings).2.1 s)
      Keeps cfg stack.locals s run.1 (openPeers run.1.peers run.1.transport.clientFds) run.2 := by
  obtain ⟨hslots, -⟩ := serverStart_idle hstart
  have hrun := (@keeps_start σ cfg stack s _ hslots).run hfresh
  dsimp only at hrun ⊢
  rw [List.nil_append] at hrun
  exact hrun

-- Whatever comes on the other connections, what is done on a connection is what the frames on it ask for, in
-- their order: a part of them when it has been closed, all that have been taken as long as it is open. The
-- requests on all of them are executed one after the other.
theorem connections_apart {env : StartEnv} {owner : Owner} {ctx : Ctx} {settings : ServerSettings}
    (hstart : (serverStart env owner ctx settings).1 = 0) (cfg : ServerConfig σ) (stack : Stack σ) (s : σ)
    {wakes : List Wake}
    (hfresh : Throughout (Host.step cfg stack) Fresh wakes
      (Host.start (serverStart env owner ctx settings).2.1 s))
    : let started := (serverStart env owner ctx settings).2.1
      let run := transduce (Host.step cfg stack) wakes (Host.start started s)
      let opened := openPeers run.1.peers run.1.transport.clientFds
      opened.Nodup ∧ (∀ k ∈ opened, k < run.1.accepted.length) ∧
      (∀ k line, run.1.accepted[k]? = some line →
        Tracks line (run.1.lines k) (entriesOf k run.2) (k ∈ opened)) ∧
      transduce (serveOn cfg stack.locals) (framesIn run.2) s = (run.1.state, run.2) ∧
      ∃ returns, returns.length = wakes.length ∧
        run.1.transport = (serverThread started.transport
          (List.zipWith (fun wake => wake.env.returning) wakes returns)).1 := by
  have hkeeps := started_keeps hstart cfg stack s hfresh
  obtain ⟨-, hprocess⟩ := serverStart_idle hstart
  exact ⟨hkeeps.distinct, hkeeps.known, hkeeps.tracks, hkeeps.serial, run_serverThread hprocess⟩

-- A client that writes 5 and then sends what is no frame, and one that reads the register twice.
def writerSample : Line where
  now := 0
  incoming := [0, 1, 0, 0, 0, 6, 1, 6, 0, 0, 0, 5, 9, 9, 9, 9, 9, 9].map fun byte => ⟨0, byte⟩
  outgoing := []
  turns := [⟨0, 3, .done⟩, ⟨0, 0, .intr⟩]
  recvTimeout := none

def readerSample : Line where
  now := 0
  incoming := [0, 1, 0, 0, 0, 6, 1, 3, 0, 0, 0, 1, 0, 2, 0, 0, 0, 6, 1, 3, 0, 0, 0, 1].map
    fun byte => ⟨0, byte⟩
  outgoing := []
  turns := []
  recvTimeout := none

-- The descriptor of the writer is taken again after its connection has been closed.
def wakesSample : List Wake :=
  let wake := fun accept fds line => (⟨2, ⟨.ready fds, accept, fun _ => -1, fun _ => 0⟩, line⟩ : Wake)
  [wake 5 [3] writerSample, wake 6 [3, 5] readerSample, wake 0 [6] readerSample,
    wake 0 [5, 6] readerSample, wake 5 [3] readerSample, wake 0 [5] readerSample]

def startSample : StartEnv :=
  ⟨some 4096, true, 3, true, true, true, true⟩

theorem connections_apart_reused
    : let started := (serverStart startSample (.context 1) .zeroed ⟨502, 2, true⟩).2.1
      let run := transduce (Host.step registerConfig sampleStack) wakesSample (Host.start started 0)
      openPeers run.1.peers run.1.transport.clientFds = [2, 1] ∧
      adusOf (entriesOf 1 run.2)
        = [[0, 1, 0, 0, 0, 5, 1, 3, 2, 0, 5], [0, 2, 0, 0, 0, 5, 1, 3, 2, 0, 5]] ∧
      framesOf (entriesOf 2 run.2) <+: ((mbapFraming 2).scan readerSample.bytes).1 := by
  have hfresh : Throughout (Host.step registerConfig sampleStack) Fresh wakesSample
      (Host.start (serverStart startSample (.context 1) .zeroed ⟨502, 2, true⟩).2.1 0) := by
    decide +kernel
  obtain ⟨-, -, htracks, -, -⟩ := @connections_apart _ startSample (.context 1) .zeroed ⟨502, 2, true⟩ rfl
    registerConfig sampleStack 0 wakesSample hfresh
  refine ⟨?_, ?_, ?_⟩
  . decide +kernel
  . decide +kernel
  . apply (htracks 2 readerSample _).frames
    decide +kernel

end Tcp
