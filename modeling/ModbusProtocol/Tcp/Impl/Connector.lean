import ModbusProtocol.Tcp.Impl.Transport

/-!
This module contains what `mb_tcp_client_thread` in `modbus_tcp.c` does from the start to the stop of a
transport that connects to a server: its callbacks, its pauses and the end of its connections.
-/

open Posix

namespace Tcp

@[simp] abbrev defaultConnectRetrySec : Nat := 3

inductive ConnectorEvent where
  -- mb_tcp_connect() has returned zero, with the descriptor, or something else
  | connected (fd : Int)
  | refused
  | sleep
  | event (event : ThreadEvent)
  deriving DecidableEq, Repr

structure ConnectorEnv extends ThreadEnv where
  -- in how many of the tests between the pauses behind a failed attempt `keep_running` is still set
  kept : Nat

def connectRetrySec (configured : Nat) : Nat :=
  if configured = 0 then defaultConnectRetrySec else configured

-- What `clientProcess` does, as events.
def processEvents (cfg : TransportConfig) (onProcess sock : Int) : List ConnectorEvent :=
  if cfg.onProcess then
    if onProcess < 0 then
      ([ThreadEvent.process sock] ++ linkCall cfg sock false ++ [ThreadEvent.close sock] ++
        errorCall cfg false).map .event
    else
      [.event (.process sock), .sleep]
  else
    [.sleep]

-- What `clientIteration` does, as events, and whether `keep_running` is still set behind it, as far as the
-- iteration has seen.
def connectorEvents (retrySec : Nat) (env : ConnectorEnv) (transport : Transport)
    : Bool × List ConnectorEvent :=
  let cfg := transport.ctx.cfg
  if transport.connected then
    (true, processEvents cfg.callbacks env.onProcess transport.sock)
  else
    let (rc, sock, _) := connect env.connect transport.sock cfg.bindIface cfg.remoteHost cfg.port
    if rc = 0 then
      (true, [.connected sock] ++
        (linkCall cfg.callbacks sock true ++ errorCall cfg.callbacks true).map .event ++
        processEvents cfg.callbacks env.onProcess sock)
    else
      (retrySec ≤ env.kept, [.refused] ++ (errorCall cfg.callbacks false).map .event ++
        List.replicate (min retrySec env.kept) .sleep)

-- What `mb_tcp_client_thread` does behind its loop.
def Transport.exitEvents (transport : Transport) : List ConnectorEvent :=
  if transport.sock ≥ 0 then
    (linkCall transport.ctx.cfg.callbacks transport.sock false).map .event
  else
    []

-- `mb_tcp_client_thread`, with an environment for each time that `while` finds `keep_running` set.
def clientThread (retrySec : Nat) : List ConnectorEnv → Transport → Transport × List ConnectorEvent
  | [], transport => (transport, transport.exitEvents)
  | env :: envs, transport =>
    let (running, events) := connectorEvents retrySec env transport
    let next := (clientIteration env.toThreadEnv transport).1
    if running then
      let (last, later) := clientThread retrySec envs next
      (last, events ++ later)
    else
      (next, events ++ next.exitEvents)

-- What `mb_tcp_stop` does to the connection, when it has joined the thread.
def Ctx.closeStream (ctx : Ctx) : List ConnectorEvent :=
  if ctx.streamSock ≥ 0 then [.event (.close ctx.streamSock)] else []

-- What is left of the life of a transport up to the end of `mb_tcp_stop`.
def Transport.life (retrySec : Nat) (envs : List ConnectorEnv) (transport : Transport)
    : List ConnectorEvent :=
  let (last, events) := clientThread retrySec envs transport
  events ++ last.ctx.closeStream

end Tcp
