import ModbusProtocol.Posix.Resource
import ModbusProtocol.Tcp.Impl.Thread

/-!
This module contains what `modbus_tcp.c` acquires and releases: starting and stopping a transport, the two
threads it may run, and `mb_tcp_connect`.

What the system calls return comes as an environment. Calls that acquire and release nothing, such as
shutdown() and sleep(), are left out unless their failure is checked.
-/

open Posix

namespace Tcp

inductive Mode where
  | listenServer
  | connectClient
  deriving DecidableEq, Repr

structure Config where
  mode : Mode
  remoteHost : String
  port : UInt16
  bindIface : String
  maxClients : UInt16
  callbacks : TransportConfig

@[simp] abbrev defaultMaxClients : UInt16 := 10

-- `client_fds` is the address of the slots and what they hold.
structure Ctx where
  cfg : Config
  listenSock : Int
  streamSock : Int
  clientFds : Option (Nat × List Int)
  clientCap : UInt16
  initialized : Bool

structure StartEnv where
  malloc : Option Nat
  mutexInit : Bool
  -- negative when it fails
  socket : Int
  setsockopt : Bool
  bind : Bool
  listen : Bool
  pthreadCreate : Bool

def closeSocket (fd : Int) : List Act :=
  if fd ≥ 0 then [.release (.descriptor fd)] else []

def freeSlots (clientFds : Option (Nat × List Int)) : List Act :=
  match clientFds with
  | none => []
  | some (slots, _) => [.release (.memory slots)]

def listenInit (env : StartEnv) (ctx : Ctx) : Bool × Ctx × List Act :=
  let ctx := { ctx with listenSock := env.socket }
  if ctx.listenSock < 0 then
    (false, ctx, [])
  else if !env.setsockopt ∨ !env.bind ∨ !env.listen then
    (false, { ctx with listenSock := -1 },
      [.acquire (.descriptor env.socket), .release (.descriptor env.socket)])
  else
    (true, ctx, [.acquire (.descriptor env.socket)])

-- `mb_tcp_start` from the allocation of the slots to the mutex.
def allocateSlots (env : StartEnv) (ctx : Ctx) : Bool × Ctx × List Act :=
  match ctx.cfg.mode with
  | .connectClient => (true, ctx, [])
  | .listenServer =>
    let clientCap := if ctx.cfg.maxClients ≠ 0 then ctx.cfg.maxClients else defaultMaxClients
    let ctx := { ctx with clientCap := clientCap }
    match env.malloc with
    | none => (false, ctx, [])
    | some slots =>
      (true, { ctx with clientFds := some (slots, List.replicate clientCap.toNat (-1)) },
        [.acquire (.memory slots)])

-- `mb_tcp_start` from the mutex on.
def startThread (env : StartEnv) (owner : Owner) (ctx : Ctx) : Int × Ctx × List Act :=
  match ctx.cfg.mode with
  | .listenServer =>
    let (listening, ctx, acts) := listenInit env ctx
    if listening ∧ env.pthreadCreate then
      (0, { ctx with initialized := true }, acts ++ [.acquire (.thread owner)])
    else
      (-1, { ctx with listenSock := if ctx.listenSock ≥ 0 then -1 else ctx.listenSock,
                      clientFds := none },
        acts ++ closeSocket ctx.listenSock ++ freeSlots ctx.clientFds ++
          [.release (.mutex owner)])
  | .connectClient =>
    if env.pthreadCreate then
      (0, { ctx with initialized := true }, [.acquire (.thread owner)])
    else
      (-1, ctx, [.release (.mutex owner)])

-- `mb_tcp_start`
def start (env : StartEnv) (owner : Owner) (ctx : Ctx) (cfg : Config) : Int × Ctx × List Act :=
  if cfg.mode = .connectClient ∧ cfg.remoteHost = "" then
    (-1, ctx, [])
  else if ctx.initialized then
    (-1, ctx, [])
  else
    match allocateSlots env ⟨cfg, -1, -1, none, 0, false⟩ with
    | (false, ctx, acts) => (-1, ctx, acts)
    | (true, ctx, acts) =>
      if !env.mutexInit then
        (-1, { ctx with clientFds := none }, acts ++ freeSlots ctx.clientFds)
      else
        let (rc, ctx, started) := startThread env owner ctx
        (rc, ctx, acts ++ [.acquire (.mutex owner)] ++ started)

def slotsOf (ctx : Ctx) : List Int :=
  match ctx.clientFds with
  | none => []
  | some (_, fds) => fds

structure Stopped where
  ctx : Ctx
  -- what happens to the clients
  events : List ThreadEvent
  acts : List Act

-- `mb_tcp_stop`
def stop (owner : Owner) (ctx : Ctx) : Stopped :=
  if !ctx.initialized then
    ⟨ctx, [], []⟩
  else
    let clients := (slotsOf ctx).filter (0 ≤ ·)
    ⟨{ ctx with listenSock := if ctx.listenSock ≥ 0 then -1 else ctx.listenSock,
                streamSock := if ctx.streamSock ≥ 0 then -1 else ctx.streamSock,
                clientFds := none, clientCap := 0, initialized := false },
      clients.map .close,
      [.release (.thread owner)] ++ closeSocket ctx.listenSock ++
        clients.map (fun fd => .release (.descriptor fd)) ++ freeSlots ctx.clientFds ++
        closeSocket ctx.streamSock ++ [.release (.mutex owner)]⟩

-- What the events of the server thread do to descriptors.
def ThreadEvent.acts (env : Environment) : ThreadEvent → List Act
  | .accept => if env.accept ≥ 0 then [.acquire (.descriptor env.accept)] else []
  | .peek fd | .process fd => [.use (.descriptor fd)]
  | .close fd => [.release (.descriptor fd)]
  | .link _ _ | .error _ => []

def iterationActs (ctx : TransportCtx) (env : Environment) : List Act :=
  (fdSet ctx).map (fun fd => .use (.descriptor fd)) ++ (iteration ctx env).2.flatMap (·.acts env)

def Ctx.transport (ctx : Ctx) : TransportCtx :=
  ⟨ctx.cfg.callbacks, ctx.listenSock, slotsOf ctx⟩

-- The server thread until it sees that `keep_running` is cleared.
def serverThread (ctx : TransportCtx) : List Environment → TransportCtx × List ThreadEvent × List Act
  | [] => (ctx, [], [])
  | env :: envs =>
    let (next, events) := iteration ctx env
    let (last, laterEvents, laterActs) := serverThread next envs
    (last, events ++ laterEvents, iterationActs ctx env ++ laterActs)

-- A server from its start to when it is about to be stopped.
def Ctx.serve (ctx : Ctx) (envs : List Environment) : Ctx :=
  { ctx with clientFds := ctx.clientFds.map fun (slots, _) =>
      (slots, (serverThread ctx.transport envs).1.clientFds) }

@[simp] abbrev einval : Int := 22

-- What mb_tcp_connect() learns from the system.
structure ConnectEnv where
  -- negative when it fails
  socket : Int
  setsockopt : Bool
  -- SO_BINDTODEVICE
  bindToDevice : Bool
  inetPton : Bool
  connect : Bool
  -- connect() has failed with EINPROGRESS, select() finds the socket writable and SO_ERROR is zero
  connected : Bool

-- `mb_tcp_connect`, with what becomes of `*sock_out`.
def connect (env : ConnectEnv) (sock : Int) (bindIface remoteHost : String) (port : UInt16)
    : Int × Int × List Act :=
  if remoteHost = "" ∨ port = 0 then
    (-einval, sock, [])
  else if env.socket < 0 then
    (-1, env.socket, [])
  else
    let acquire := Ledger.Act.acquire (Resource.descriptor env.socket)
    let release := Ledger.Act.release (Resource.descriptor env.socket)
    if !env.setsockopt ∨ (bindIface ≠ "" ∧ !env.bindToDevice) ∨ !env.inetPton then
      (-1, -1, [acquire, release])
    else if !env.connect ∧ !env.connected then
      (-1, -1, [acquire, release])
    else
      (0, env.socket, [acquire])

-- A transport, with the local variables of `mb_tcp_client_thread`.
structure Transport where
  ctx : Ctx
  sock : Int
  connected : Bool

-- What an iteration of the thread finds, in either mode.
structure ThreadEnv where
  server : Environment
  connect : ConnectEnv
  -- what is returned by `on_process` for the connection of a client
  onProcess : Int

-- One iteration of the loop of `mb_tcp_client_thread`, once it is connected.
def clientProcess (env : ThreadEnv) (transport : Transport) : Transport × List Act :=
  if transport.ctx.cfg.callbacks.onProcess then
    if env.onProcess < 0 then
      (⟨{ transport.ctx with streamSock := -1 }, -1, false⟩,
        [.use (.descriptor transport.sock), .release (.descriptor transport.sock)])
    else
      (transport, [.use (.descriptor transport.sock)])
  else
    (transport, [])

-- One iteration of the loop of `mb_tcp_client_thread`.
def clientIteration (env : ThreadEnv) (transport : Transport) : Transport × List Act :=
  if transport.connected then
    clientProcess env transport
  else
    let cfg := transport.ctx.cfg
    let (rc, sock, acts) := connect env.connect transport.sock cfg.bindIface cfg.remoteHost cfg.port
    if rc = 0 then
      let (next, later) := clientProcess env ⟨{ transport.ctx with streamSock := sock }, sock, true⟩
      (next, acts ++ later)
    else
      ({ transport with sock := sock }, acts)

-- One iteration of the thread of a transport, if it runs.
def Transport.iterate (env : ThreadEnv) (transport : Transport) : Transport × List Act :=
  if !transport.ctx.initialized then
    (transport, [])
  else
    match transport.ctx.cfg.mode with
    | .listenServer =>
      ({ transport with ctx := transport.ctx.serve [env.server] },
        (serverThread transport.ctx.transport [env.server]).2.2)
    | .connectClient => clientIteration env transport

-- A context that has been set to zero.
def Ctx.zeroed : Ctx :=
  ⟨⟨.listenServer, "", 0, "", 0, ⟨false, false, false⟩⟩, 0, 0, none, 0, false⟩

-- What the transport of a server is configured with.
structure ServerSettings where
  port : UInt16
  maxClients : UInt16
  onLink : Bool

-- `mb_tcp_server_start`, on the transport of the server
def serverStart (env : StartEnv) (owner : Owner) (ctx : Ctx) (settings : ServerSettings)
    : Int × Ctx × List Act :=
  if ctx.initialized then
    (-1, ctx, [])
  else
    start env owner .zeroed ⟨.listenServer, "", settings.port, "", settings.maxClients,
      ⟨true, settings.onLink, false⟩⟩

end Tcp
