import ModbusProtocol.Tcp.Impl.Connector
import ModbusProtocol.Tcp.Lemmas.Lifecycle

/-!
This module contains the life of a transport that connects to a server: the flags of the loop of
`mb_tcp_client_thread` make a sequence of connections, each of which is announced, used and given up before
the next one.
-/

open Posix

namespace Tcp

section

variable (cfg : TransportConfig)

def announced (fd : Int) : List ConnectorEvent :=
  [.connected fd] ++ (linkCall cfg fd true ++ errorCall cfg true).map .event

-- What is repeated while a connection lasts.
def rounds (fd : Int) (n : Nat) : List ConnectorEvent :=
  (List.replicate n
    (if cfg.onProcess then [.event (.process fd), .sleep] else [ConnectorEvent.sleep])).flatten

def lost (fd : Int) : List ConnectorEvent :=
  ([ThreadEvent.process fd] ++ linkCall cfg fd false ++ [ThreadEvent.close fd] ++
    errorCall cfg false).map .event

def closed (fd : Int) : List ConnectorEvent :=
  (linkCall cfg fd false ++ [ThreadEvent.close fd]).map .event

def delayed (n : Nat) : List ConnectorEvent :=
  [.refused] ++ (errorCall cfg false).map .event ++ List.replicate n .sleep

-- What a transport may do between its start and its stop.
inductive Life (retrySec : Nat) : List ConnectorEvent → Prop where
  | idle : Life retrySec []
  | refused {later : List ConnectorEvent} (hlater : Life retrySec later)
      : Life retrySec (delayed cfg retrySec ++ later)
  -- stopped while it waits for its next attempt
  | waiting {n : Nat} (hn : n < retrySec) : Life retrySec (delayed cfg n)
  -- on_process has failed
  | lost (fd : Int) (n : Nat) {later : List ConnectorEvent} (hprocess : cfg.onProcess = true)
      (hlater : Life retrySec later)
      : Life retrySec (announced cfg fd ++ rounds cfg fd n ++ lost cfg fd ++ later)
  -- stopped while it is connected
  | closed (fd : Int) (n : Nat)
      : Life retrySec (announced cfg fd ++ rounds cfg fd n ++ closed cfg fd)

-- What is left of a life when a connection has been announced.
inductive Lasting (retrySec : Nat) (fd : Int) : List ConnectorEvent → Prop where
  | lost (n : Nat) {later : List ConnectorEvent} (hprocess : cfg.onProcess = true)
      (hlater : Life cfg retrySec later)
      : Lasting retrySec fd (rounds cfg fd n ++ lost cfg fd ++ later)
  | closed (n : Nat) : Lasting retrySec fd (rounds cfg fd n ++ closed cfg fd)

end

variable {cfg : TransportConfig} {retrySec : Nat} {fd : Int} {events : List ConnectorEvent}

-- Each connection is given up once, and announced once to be there and once to be gone.
structure Balances (cfg : TransportConfig) (events : List ConnectorEvent) : Prop where
  closed : ∀ fd, events.count (.event (.close fd)) = events.count (.connected fd)
  up : cfg.onLink = true →
    ∀ fd, events.count (.event (.link fd true)) = events.count (.connected fd)
  down : cfg.onLink = true →
    ∀ fd, events.count (.event (.link fd false)) = events.count (.connected fd)

theorem Balances.append {events' : List ConnectorEvent} (h : Balances cfg events)
    (h' : Balances cfg events')
    : Balances cfg (events ++ events') := by
  constructor
  . intro fd
    rw [List.count_append, List.count_append, h.closed, h'.closed]
  . intro hlink fd
    rw [List.count_append, List.count_append, h.up hlink, h'.up hlink]
  . intro hlink fd
    rw [List.count_append, List.count_append, h.down hlink, h'.down hlink]

theorem Balances.perm {events' : List ConnectorEvent} (h : Balances cfg events)
    (hperm : events.Perm events')
    : Balances cfg events' := by
  constructor
  . intro fd
    rw [← hperm.count_eq, ← hperm.count_eq, h.closed]
  . intro hlink fd
    rw [← hperm.count_eq, ← hperm.count_eq, h.up hlink]
  . intro hlink fd
    rw [← hperm.count_eq, ← hperm.count_eq, h.down hlink]

-- What neither makes nor gives up a connection and announces none.
def ConnectorEvent.Quiet : ConnectorEvent → Prop
  | .connected _ | .event (.close _) | .event (.link _ _) => False
  | _ => True

theorem balances_quiet (hquiet : ∀ event ∈ events, event.Quiet)
    : Balances cfg events := by
  have hzero : ∀ {event : ConnectorEvent}, ¬event.Quiet → events.count event = 0 := by
    intro event hloud
    rw [List.count_eq_zero]
    intro hevent
    exact hloud (hquiet event hevent)
  constructor
  . intro fd
    rw [hzero id, hzero id]
  . intro _ fd
    rw [hzero id, hzero id]
  . intro _ fd
    rw [hzero id, hzero id]

theorem quiet_errorCall (cfg : TransportConfig) (state : Bool)
    : ∀ event ∈ (errorCall cfg state).map ConnectorEvent.event, event.Quiet := by
  intro event hevent
  obtain ⟨thread, hthread, rfl⟩ := List.mem_map.mp hevent
  unfold errorCall at hthread
  split at hthread
  . rw [List.mem_singleton] at hthread
    subst hthread
    trivial
  . contradiction

theorem quiet_rounds (cfg : TransportConfig) (fd : Int) (n : Nat)
    : ∀ event ∈ rounds cfg fd n, event.Quiet := by
  intro event hevent
  obtain ⟨round, hround, hmem⟩ := List.mem_flatten.mp hevent
  rw [List.eq_of_mem_replicate hround] at hmem
  split at hmem
  . obtain rfl | rfl := List.mem_pair.mp hmem
    . trivial
    . trivial
  . obtain rfl := List.mem_singleton.mp hmem
    trivial

theorem quiet_delayed (cfg : TransportConfig) (n : Nat)
    : ∀ event ∈ delayed cfg n, event.Quiet := by
  intro event hevent
  unfold delayed at hevent
  rw [List.append_assoc, List.mem_append, List.mem_append, List.mem_singleton] at hevent
  obtain rfl | hevent | hevent := hevent
  . trivial
  . exact quiet_errorCall cfg false event hevent
  . rw [List.eq_of_mem_replicate hevent]
    trivial

-- What is done to a connection, and who is told of it.
def connection (cfg : TransportConfig) (fd : Int) : List ConnectorEvent :=
  [.connected fd] ++ (linkCall cfg fd true).map .event ++ (linkCall cfg fd false).map .event ++
    [.event (.close fd)]

theorem balances_connection (cfg : TransportConfig) (fd : Int)
    : Balances cfg (connection cfg fd) := by
  unfold connection linkCall
  constructor
  . intro g
    split
    . simp [List.count_cons]
    . simp [List.count_cons]
  . intro hlink g
    rw [if_pos hlink, if_pos hlink]
    simp [List.count_cons]
  . intro hlink g
    rw [if_pos hlink, if_pos hlink]
    simp [List.count_cons]

theorem balances_closed (cfg : TransportConfig) (fd : Int) (n : Nat)
    : Balances cfg (announced cfg fd ++ rounds cfg fd n ++ closed cfg fd) := by
  have hrest := @balances_quiet cfg _ (quiet_errorCall cfg true)
  have hrounds := @balances_quiet cfg _ (quiet_rounds cfg fd n)
  apply ((balances_connection cfg fd).append (hrest.append hrounds)).perm
  rw [List.perm_iff_count]
  intro event
  unfold connection announced closed
  simp only [List.map_append, List.map_cons, List.map_nil, List.count_append]
  omega

theorem balances_lost (cfg : TransportConfig) (fd : Int) (n : Nat)
    : Balances cfg (announced cfg fd ++ rounds cfg fd n ++ lost cfg fd) := by
  have hrest := @balances_quiet cfg _ (quiet_errorCall cfg false)
  have hprocess : Balances cfg [.event (.process fd)] := by
    apply balances_quiet
    intro event hevent
    obtain rfl := List.mem_singleton.mp hevent
    trivial
  apply ((balances_closed cfg fd n).append (hprocess.append hrest)).perm
  rw [List.perm_iff_count]
  intro event
  unfold closed lost
  simp only [List.map_append, List.map_cons, List.map_nil, List.count_append]
  omega

-- Every life of a transport announces, uses and gives up what it opens.
theorem Life.balances (h : Life cfg retrySec events)
    : Balances cfg events := by
  induction h with
  | idle => exact ⟨fun _ => rfl, fun _ _ => rfl, fun _ _ => rfl⟩
  | refused _ ih => exact (balances_quiet (quiet_delayed cfg retrySec)).append ih
  | @waiting n _ => exact balances_quiet (quiet_delayed cfg n)
  | lost fd n _ _ ih => exact (balances_lost cfg fd n).append ih
  | closed fd n => exact balances_closed cfg fd n

theorem Lasting.life (h : Lasting cfg retrySec fd events)
    : Life cfg retrySec (announced cfg fd ++ events) := by
  cases h with
  | lost n hprocess hlater =>
    rw [← List.append_assoc, ← List.append_assoc]
    exact .lost fd n hprocess hlater
  | closed n =>
    rw [← List.append_assoc]
    exact .closed fd n

theorem Lasting.round (h : Lasting cfg retrySec fd events)
    : Lasting cfg retrySec fd (rounds cfg fd 1 ++ events) := by
  have hround : ∀ n, rounds cfg fd 1 ++ rounds cfg fd n = rounds cfg fd (n + 1) := by
    intro n
    unfold rounds
    rw [← List.flatten_append, ← List.replicate_add, Nat.add_comm]
  cases h with
  | lost n hprocess hlater =>
    rw [← List.append_assoc, ← List.append_assoc, hround]
    exact .lost (n + 1) hprocess hlater
  | closed n =>
    rw [← List.append_assoc, hround]
    exact .closed (n + 1)

theorem neg_one_lt : (-1 : Int) < 0 := by
  decide

-- A transport without a connection, and with one.
def seeking (cfg : Config) (sock : Int) : Transport :=
  ⟨⟨cfg, -1, -1, none, 0, true⟩, sock, false⟩

def holding (cfg : Config) (fd : Int) : Transport :=
  ⟨⟨cfg, -1, fd, none, 0, true⟩, fd, true⟩

theorem start_seeking {env : StartEnv} {owner : Owner} {ctx : Ctx} {cfg : Config}
    (hmode : cfg.mode = .connectClient) (hstart : (start env owner ctx cfg).1 = 0)
    : (start env owner ctx cfg).2.1 = (seeking cfg (-1)).ctx := by
  obtain ⟨mode, remoteHost, port, bindIface, maxClients, callbacks⟩ := cfg
  dsimp only at hmode
  subst hmode
  unfold start allocateSlots startThread at *
  dsimp only at *
  split at hstart
  . contradiction
  next hhost =>
    rw [if_neg hhost]
    split at hstart
    . contradiction
    next hfree =>
      rw [if_neg hfree]
      split at hstart
      . contradiction
      next hmutex =>
        rw [if_neg hmutex]
        dsimp only at *
        split at hstart
        next hthread =>
          rw [if_pos hthread]
          rfl
        . contradiction

-- A connection attempt that has failed leaves nothing behind that mb_tcp_stop() or the end of the thread
-- would take for a connection.
theorem connect_sock {env : ConnectEnv} {sock : Int} {bindIface remoteHost : String} {port : UInt16}
    (hsock : sock < 0) (hrc : (connect env sock bindIface remoteHost port).1 ≠ 0)
    : (connect env sock bindIface remoteHost port).2.1 < 0 := by
  unfold connect at *
  split
  . exact hsock
  . split
    next hnone => exact hnone
    . dsimp only
      split
      . exact neg_one_lt
      . split
        . exact neg_one_lt
        . next hargs hsocket hset hconnect =>
          rw [if_neg hargs, if_neg hsocket] at hrc
          dsimp only at hrc
          rw [if_neg hset, if_neg hconnect] at hrc
          exact absurd rfl hrc

theorem life_nil_seeking (cfg : Config) {sock : Int} (hsock : sock < 0)
    : (seeking cfg sock).life retrySec [] = [] := by
  unfold Transport.life clientThread Transport.exitEvents Ctx.closeStream seeking
  dsimp only
  rw [if_neg (Int.not_le.mpr hsock), if_neg (Int.not_le.mpr neg_one_lt)]
  rfl

theorem life_nil_holding (cfg : Config) (hfd : 0 ≤ fd)
    : (holding cfg fd).life retrySec [] = closed cfg.callbacks fd := by
  unfold Transport.life clientThread Transport.exitEvents Ctx.closeStream holding closed
  dsimp only
  rw [if_pos hfd, if_pos hfd, List.map_append]
  rfl

theorem life_cons (env : ConnectorEnv) (envs : List ConnectorEnv) (transport : Transport)
    : transport.life retrySec (env :: envs)
        = (connectorEvents retrySec env transport).2 ++
          (clientIteration env.toThreadEnv transport).1.life retrySec
            (if (connectorEvents retrySec env transport).1 then envs else []) := by
  unfold Transport.life
  rw [clientThread]
  dsimp only
  split
  . rw [List.append_assoc]
  . rw [List.append_assoc]
    rfl

-- on_process fails, or it does not.
theorem processed_cases (env : ThreadEnv) (cfg : Config) (fd : Int)
    : cfg.callbacks.onProcess = true ∧ (clientProcess env (holding cfg fd)).1 = seeking cfg (-1) ∧
          processEvents cfg.callbacks env.onProcess fd = lost cfg.callbacks fd ∨
        (clientProcess env (holding cfg fd)).1 = holding cfg fd ∧
          processEvents cfg.callbacks env.onProcess fd = rounds cfg.callbacks fd 1 := by
  unfold clientProcess processEvents rounds holding
  dsimp only
  by_cases hprocess : cfg.callbacks.onProcess = true
  . rw [if_pos hprocess, if_pos hprocess, if_pos hprocess]
    by_cases hfailed : env.onProcess < 0
    . rw [if_pos hfailed, if_pos hfailed]
      exact .inl ⟨hprocess, rfl, rfl⟩
    . rw [if_neg hfailed, if_neg hfailed]
      exact .inr ⟨rfl, rfl⟩
  . rw [if_neg hprocess, if_neg hprocess, if_neg hprocess]
    exact .inr ⟨rfl, rfl⟩

-- What comes of a pass through on_process, when the passes behind it are as they should be.
theorem processed_lasting {cfg : Config} {envs : List ConnectorEnv} (env : ThreadEnv)
    (hseeking : Life cfg.callbacks retrySec ((seeking cfg (-1)).life retrySec envs))
    (hholding : Lasting cfg.callbacks retrySec fd ((holding cfg fd).life retrySec envs))
    : Lasting cfg.callbacks retrySec fd (processEvents cfg.callbacks env.onProcess fd ++
        (clientProcess env (holding cfg fd)).1.life retrySec envs) := by
  obtain ⟨hprocess, hnext, hevents⟩ | ⟨hnext, hevents⟩ := processed_cases env cfg fd
  . rw [hnext, hevents]
    exact .lost 0 hprocess hseeking
  . rw [hnext, hevents]
    apply Lasting.round
    apply hholding

theorem seeking_cons {cfg : Config} {envs : List ConnectorEnv} (env : ConnectorEnv) {sock : Int}
    (hsock : sock < 0)
    (hseeking : ∀ {sock}, sock < 0 → Life cfg.callbacks retrySec ((seeking cfg sock).life retrySec envs))
    (hholding : ∀ {fd}, 0 ≤ fd →
      Lasting cfg.callbacks retrySec fd ((holding cfg fd).life retrySec envs))
    : Life cfg.callbacks retrySec ((seeking cfg sock).life retrySec (env :: envs)) := by
  rw [life_cons]
  unfold connectorEvents clientIteration seeking
  dsimp only
  rw [if_neg Bool.false_ne_true, if_neg Bool.false_ne_true]
  obtain ⟨hopen, heq⟩ | ⟨rc, sock', acts, hrc, -, heq⟩ :=
    connect_cases env.connect sock cfg.bindIface cfg.remoteHost cfg.port
  . rw [heq]
    dsimp only
    rw [if_pos rfl, if_pos rfl, List.append_assoc]
    apply Lasting.life
    apply processed_lasting
    . exact hseeking neg_one_lt
    . exact hholding hopen
  . have hleft : sock' < 0 := by
      have hfailed : (connect env.connect sock cfg.bindIface cfg.remoteHost cfg.port).1 ≠ 0 := by
        rw [heq]
        exact hrc
      have hleft := connect_sock hsock hfailed
      rw [heq] at hleft
      exact hleft
    rw [heq]
    dsimp only
    rw [if_neg hrc, if_neg hrc]
    change Life cfg.callbacks retrySec (_ ++ (seeking cfg sock').life retrySec _)
    dsimp only
    by_cases hkept : retrySec ≤ env.kept
    . rw [if_pos (decide_eq_true hkept), Nat.min_eq_left hkept]
      exact .refused (hseeking hleft)
    . rw [if_neg (by simpa using hkept), Nat.min_eq_right (by omega), life_nil_seeking cfg hleft,
        List.append_nil]
      exact .waiting (Nat.lt_of_not_le hkept)

theorem transport_life (cfg : Config) (retrySec : Nat) (envs : List ConnectorEnv)
    : (∀ {sock}, sock < 0 → Life cfg.callbacks retrySec ((seeking cfg sock).life retrySec envs)) ∧
      ∀ {fd}, 0 ≤ fd → Lasting cfg.callbacks retrySec fd ((holding cfg fd).life retrySec envs) := by
  induction envs with
  | nil =>
    constructor
    . intro sock hsock
      rw [life_nil_seeking cfg hsock]
      exact .idle
    . intro fd hfd
      rw [life_nil_holding cfg hfd]
      exact .closed 0
  | cons env envs ih =>
    constructor
    . intro sock hsock
      exact seeking_cons env hsock ih.1 ih.2
    . intro fd hfd
      rw [life_cons]
      exact processed_lasting env.toThreadEnv (ih.1 neg_one_lt) (ih.2 hfd)

-- What the events do to descriptors, those of mb_tcp_connect() apart.
def ConnectorEvent.acts (env : Environment) (connecting : List Act) : ConnectorEvent → List Act
  | .connected _ | .refused => connecting
  | .sleep => []
  | .event thread => thread.acts env

theorem acts_event (env : Environment) (connecting : List Act) (events : List ThreadEvent)
    : (events.map ConnectorEvent.event).flatMap (·.acts env connecting)
        = events.flatMap (·.acts env) := by
  apply List.flatMap_map

theorem acts_sleeps (env : Environment) (connecting : List Act) (n : Nat)
    : (List.replicate n ConnectorEvent.sleep).flatMap (·.acts env connecting) = [] := by
  rw [List.flatMap_eq_nil_iff]
  intro event hevent
  rw [List.eq_of_mem_replicate hevent]
  rfl

theorem processEvents_acts (env : ThreadEnv) (connecting : List Act) (transport : Transport)
    : (processEvents transport.ctx.cfg.callbacks env.onProcess transport.sock).flatMap
          (·.acts env.server connecting)
        = (clientProcess env transport).2 := by
  unfold processEvents clientProcess
  split
  . split
    . rw [acts_event, List.flatMap_append, List.flatMap_append, List.flatMap_append, acts_linkCall,
        acts_errorCall]
      rfl
    . rfl
  . rfl

-- The events of an iteration are those of the model that keeps the descriptors.
theorem connectorEvents_acts (retrySec : Nat) (env : ConnectorEnv) (transport : Transport)
    : (connectorEvents retrySec env transport).2.flatMap (·.acts env.server
          (connect env.connect transport.sock transport.ctx.cfg.bindIface transport.ctx.cfg.remoteHost
            transport.ctx.cfg.port).2.2)
        = (clientIteration env.toThreadEnv transport).2 := by
  unfold connectorEvents clientIteration
  dsimp only
  split
  . apply processEvents_acts
  . generalize connect env.connect transport.sock transport.ctx.cfg.bindIface
      transport.ctx.cfg.remoteHost transport.ctx.cfg.port = attempt
    obtain ⟨rc, sock, acts⟩ := attempt
    dsimp only
    split
    . rw [List.flatMap_append, List.flatMap_append, acts_event, List.flatMap_append, acts_linkCall,
        acts_errorCall]
      have hprocess := processEvents_acts env.toThreadEnv acts
        ⟨{ transport.ctx with streamSock := sock }, sock, true⟩
      dsimp only at hprocess
      rw [hprocess]
      simp [ConnectorEvent.acts]
    . rw [List.flatMap_append, List.flatMap_append, acts_event, acts_errorCall, acts_sleeps]
      simp [ConnectorEvent.acts]

-- Whatever comes, a transport that connects to a server makes one connection after the other, and each of
-- them is announced, given up and announced to be gone.
theorem connector_life {env : StartEnv} {owner : Owner} {ctx : Ctx} {cfg : Config}
    (hmode : cfg.mode = .connectClient) (hstart : (start env owner ctx cfg).1 = 0) (configured : Nat)
    (envs : List ConnectorEnv)
    : let life := Transport.life (connectRetrySec configured) envs
        ⟨(start env owner ctx cfg).2.1, -1, false⟩
      Life cfg.callbacks (connectRetrySec configured) life ∧ Balances cfg.callbacks life := by
  intro life
  have hlife : Life cfg.callbacks (connectRetrySec configured) life := by
    unfold life
    rw [start_seeking hmode hstart]
    exact (transport_life cfg (connectRetrySec configured) envs).1 neg_one_lt
  exact ⟨hlife, hlife.balances⟩

def connectorConfig : Config :=
  ⟨.connectClient, "127.0.0.1", 502, "", 0, ⟨true, true, true⟩⟩

def connectorEnv (socket onProcess : Int) : ConnectorEnv where
  server := ⟨.timeout, -1, fun _ => -1, fun _ => 0⟩
  connect := ⟨socket, true, true, true, true, true⟩
  onProcess := onProcess
  kept := 4

-- The second attempt makes a connection, which is lost. The transport is stopped while it has the next one.
theorem connector_life_lost
    : let life := Transport.life (connectRetrySec 0)
        [connectorEnv (-1) 0, connectorEnv 5 0, connectorEnv 5 (-1), connectorEnv 6 0]
        ⟨(start sampleEnv (.context 0) sampleCtx connectorConfig).2.1, -1, false⟩
      life = [.refused, .event (.error false), .sleep, .sleep, .sleep,
        .connected 5, .event (.link 5 true), .event (.error true), .event (.process 5), .sleep,
        .event (.process 5), .event (.link 5 false), .event (.close 5), .event (.error false),
        .connected 6, .event (.link 6 true), .event (.error true), .event (.process 6), .sleep,
        .event (.link 6 false), .event (.close 6)] ∧
      Life connectorConfig.callbacks (connectRetrySec 0) life ∧
      Balances connectorConfig.callbacks life := by
  refine ⟨?_, ?_⟩
  . decide +kernel
  . apply connector_life
    . rfl
    . decide

end Tcp
