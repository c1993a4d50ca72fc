import Mathlib.Data.List.Basic

/-!
This module contains one iteration of the loop of `mb_tcp_server_thread` in `modbus_tcp.c`.

A slot of `client_fds` holds a descriptor or a negative number. `Environment` says what the system calls
and the `on_process` callback of the iteration return, what the iteration does is recorded in order as
events. Logging and the socket options of an accepted client are left out.
-/

namespace Tcp

@[simp] abbrev fdSetSize : Int := 1024
@[simp] abbrev eintr : Nat := 4

-- Which of the optional callbacks are set.
structure TransportConfig where
  onProcess : Bool
  onLink : Bool
  onError : Bool

structure TransportCtx where
  cfg : TransportConfig
  listenSock : Int
  clientFds : List Int

inductive Select where
  -- the descriptors that are readable, of which the caller learns those it has asked for
  | ready (fds : List Int)
  | timeout
  | failed (errno : Nat)
  deriving DecidableEq, Repr

structure Environment where
  select : Select
  -- negative when it fails
  accept : Int
  -- what is returned by recv() with MSG_PEEK and MSG_DONTWAIT on the descriptor of a slot
  peek : Nat → Int
  -- what is returned by `on_process` for the descriptor of a slot
  onProcess : Nat → Int

inductive ThreadEvent where
  | accept
  | peek (fd : Int)
  | process (fd : Int)
  | close (fd : Int)
  | link (fd : Int) (connected : Bool)
  | error (connectionState : Bool)
  deriving DecidableEq, Repr

def linkCall (cfg : TransportConfig) (fd : Int) (connected : Bool) : List ThreadEvent :=
  if cfg.onLink then [.link fd connected] else []

def errorCall (cfg : TransportConfig) (connectionState : Bool) : List ThreadEvent :=
  if cfg.onError then [.error connectionState] else []

def fdSet (ctx : TransportCtx) : List Int :=
  ctx.listenSock :: ctx.clientFds.filter (0 ≤ ·)

-- The return value of select() and what it leaves of the set it is handed.
def Select.result (select : Select) (readfds : List Int) : Int × List Int :=
  match select with
  | .ready fds =>
    let readfds := readfds.filter (· ∈ fds)
    (readfds.length, readfds)
  | .timeout => (0, [])
  -- the set is left as it is
  | .failed _ => (-1, readfds)

def Select.errno : Select → Nat
  | .failed errno => errno
  | _ => 0

def closeClient (cfg : TransportConfig) (sd : Int) : List ThreadEvent :=
  [.close sd] ++ linkCall cfg sd false ++ errorCall cfg false

-- A loop `for (i = 0; i < max_clients; i++)` that may give up the slots it visits.
def forSlots (visit : Nat → Int → Int × List ThreadEvent) : Nat → List Int
    → List Int × List ThreadEvent
  | _, [] => ([], [])
  | i, sd :: fds =>
    let (sd, events) := visit i sd
    let (fds, later) := forSlots visit (i + 1) fds
    (sd :: fds, events ++ later)

def checkIdle (cfg : TransportConfig) (env : Environment) (i : Nat) (sd : Int)
    : Int × List ThreadEvent :=
  if sd ≥ 0 then
    if env.peek i = 0 then
      (-1, [.peek sd] ++ closeClient cfg sd)
    else
      (sd, [.peek sd])
  else
    (sd, [])

def processClient (cfg : TransportConfig) (env : Environment) (readfds : List Int) (i : Nat)
    (sd : Int) : Int × List ThreadEvent :=
  if sd ≥ 0 ∧ sd ∈ readfds then
    if cfg.onProcess then
      if env.onProcess i < 0 then
        (-1, [.process sd] ++ closeClient cfg sd)
      else
        (sd, [.process sd])
    else
      (sd, [])
  else
    (sd, [])

-- The first free slot is taken.
def place (newSocket : Int) : List Int → Option (List Int)
  | [] => none
  | sd :: fds => if sd < 0 then some (newSocket :: fds) else (place newSocket fds).map (sd :: ·)

-- The slots behind the accepted client, `none` when the iteration ends there.
def acceptClient (cfg : TransportConfig) (env : Environment) (fds : List Int)
    : Option (List Int) × List ThreadEvent :=
  let newSocket := env.accept
  if newSocket < 0 then
    (none, [.accept])
  else if newSocket ≥ fdSetSize then
    (none, [.accept, .close newSocket])
  else
    match place newSocket fds with
    | none => (none, [.accept, .close newSocket])
    | some fds => (some fds, [.accept] ++ linkCall cfg newSocket true ++ errorCall cfg true)

def iteration (ctx : TransportCtx) (env : Environment) : TransportCtx × List ThreadEvent :=
  let (activity, readfds) := env.select.result (fdSet ctx)
  if activity < 0 ∧ env.select.errno ≠ eintr then
    (ctx, [])
  else if activity = 0 then
    let (fds, events) := forSlots (checkIdle ctx.cfg env) 0 ctx.clientFds
    ({ ctx with clientFds := fds }, events)
  else
    let (accepted, events) :=
      if ctx.listenSock ≥ 0 ∧ ctx.listenSock ∈ readfds then
        acceptClient ctx.cfg env ctx.clientFds
      else
        (some ctx.clientFds, [])
    match accepted with
    | none => (ctx, events)
    | some fds =>
      let (fds, later) := forSlots (processClient ctx.cfg env readfds) 0 fds
      ({ ctx with clientFds := fds }, events ++ later)

end Tcp
