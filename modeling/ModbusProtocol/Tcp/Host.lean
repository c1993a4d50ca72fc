import Mathlib.Logic.Function.Basic
import ModbusProtocol.Data.Scan
import ModbusProtocol.Tcp.Impl.Server
import ModbusProtocol.Tcp.Impl.Transport

/-!
This module contains the server thread of `modbus_tcp.c` together with the `on_process` callback of
`modbus_tcp_server.c`, which it calls on the connections of its clients. What is done on a connection is
recorded with the number of the connection, in the order in which the connections have been accepted.
-/

open Modbus Posix

namespace Tcp

structure Host (σ : Type) where
  transport : TransportCtx
  -- which connection a descriptor of the table stands for
  peers : Int → Nat
  -- the connections, as they have been accepted and as they are
  accepted : List Line
  lines : Nat → Line
  state : σ

-- An iteration of the thread: how long it waits and what the system calls return, where `line` is the
-- connection that is accepted. What `on_process` returns is not taken from `env`.
structure Wake where
  pause : Nat
  env : Environment
  line : Line

variable {σ : Type}

def Host.pass (host : Host σ) (us : Nat) : Host σ :=
  { host with lines := fun k => (host.lines k).pass us }

-- The host after a call of `on_process` on connection `k`. Meanwhile the time passes on the others.
def Host.serve (host : Host σ) (k : Nat) (server : Server σ) : Host σ :=
  let elapsed := server.line.now - (host.lines k).now
  { host.pass elapsed with
    lines := Function.update (host.pass elapsed).lines k server.line
    state := server.state }

-- The host with a connection more.
def Host.enrol (host : Host σ) (wake : Wake) : Host σ :=
  { host with
    peers := Function.update host.peers wake.env.accept host.accepted.length
    accepted := host.accepted ++ [wake.line]
    lines := Function.update host.lines host.accepted.length wake.line }

structure HostVisit (σ : Type) where
  fds : List Int
  -- what `on_process` has returned
  returns : List Int
  host : Host σ
  log : List (Nat × Event)

-- The loop over the slots that calls `on_process` where there is something to be read.
def Host.processClients (cfg : ServerConfig σ) (stack : Stack σ) (readfds : List Int)
    : List Int → Host σ → HostVisit σ
  | [], host => ⟨[], [], host, []⟩
  | sd :: fds, host =>
    if sd ≥ 0 ∧ sd ∈ readfds then
      let k := host.peers sd
      let p := serverOnProcess cfg stack ⟨host.state, host.lines k⟩
      let later := processClients cfg stack readfds fds (host.serve k p.server)
      ⟨(if p.rc < 0 then -1 else sd) :: later.fds, p.rc :: later.returns, later.host,
        p.events.map (k, ·) ++ later.log⟩
    else
      let later := processClients cfg stack readfds fds host
      ⟨sd :: later.fds, 0 :: later.returns, later.host, later.log⟩

-- The slots and the host behind a connection that is pending, `none` when the iteration ends there.
def Host.accept (wake : Wake) (readfds : List Int) (host : Host σ) : Option (List Int × Host σ) :=
  let transport := host.transport
  if transport.listenSock ≥ 0 ∧ transport.listenSock ∈ readfds then
    (acceptClient transport.cfg wake.env transport.clientFds).1.map (·, host.enrol wake)
  else
    some (transport.clientFds, host)

-- One iteration of the loop of `mb_tcp_server_thread`.
def Host.iterate (cfg : ServerConfig σ) (stack : Stack σ) (wake : Wake) (host : Host σ)
    : Host σ × List (Nat × Event) :=
  let transport := host.transport
  let (activity, readfds) := wake.env.select.result (fdSet transport)
  if activity < 0 ∧ wake.env.select.errno ≠ eintr then
    (host, [])
  else if activity = 0 then
    let (fds, _) := forSlots (checkIdle transport.cfg wake.env) 0 transport.clientFds
    ({ host with transport := { transport with clientFds := fds } }, [])
  else
    match host.accept wake readfds with
    | none => (host, [])
    | some (fds, host) =>
      let visit := host.processClients cfg stack readfds fds
      ({ visit.host with transport := { transport with clientFds := visit.fds } }, visit.log)

def Host.step (cfg : ServerConfig σ) (stack : Stack σ) (wake : Wake) (host : Host σ)
    : Host σ × List (Nat × Event) :=
  (host.pass wake.pause).iterate cfg stack wake

-- A server that has been started and has not accepted anyone yet.
def Host.start (ctx : Ctx) (s : σ) : Host σ :=
  ⟨ctx.transport, fun _ => 0, [], fun _ => ⟨0, [], [], [], none⟩, s⟩

end Tcp
