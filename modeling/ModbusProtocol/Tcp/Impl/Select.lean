import ModbusProtocol.Posix.Select
import ModbusProtocol.Tcp.Impl.Transport

/-!
This module contains the functions of `modbus_tcp.c` that call select(), with what they put into its sets.
-/

open Posix

namespace Tcp.WithSets

structure ConnectEnv extends Tcp.ConnectEnv where
  -- connect() has failed with EINPROGRESS
  inProgress : Bool
  inProgress_of_connected : connected = true → inProgress = true

-- `mb_tcp_connect`
def connect (env : ConnectEnv) (sock : Int) (bindIface remoteHost : String) (port : UInt16)
    : Selected (Int × Int × List Act) :=
  if remoteHost = "" ∨ port = 0 then
    ⟨[], -einval, sock, []⟩
  else if env.socket < 0 then
    ⟨[], -1, env.socket, []⟩
  else
    let acquire := Ledger.Act.acquire (Resource.descriptor env.socket)
    let release := Ledger.Act.release (Resource.descriptor env.socket)
    if !env.setsockopt ∨ (bindIface ≠ "" ∧ !env.bindToDevice) ∨ !env.inetPton then
      ⟨[], -1, -1, [acquire, release]⟩
    else if !env.connect then
      if env.inProgress then
        let writefds := [env.socket]
        if env.connected then
          ⟨writefds, 0, env.socket, [acquire]⟩
        else
          ⟨writefds, -1, -1, [acquire, release]⟩
      else
        ⟨[], -1, -1, [acquire, release]⟩
    else
      ⟨[], 0, env.socket, [acquire]⟩

-- The server thread through these iterations, each of which starts with the set of `fdSet`.
def serverThread (ctx : TransportCtx) : List Environment → Selected TransportCtx
  | [] => ⟨[], ctx⟩
  | env :: envs => (serverThread (iteration ctx env).1 envs).after (fdSet ctx)

end Tcp.WithSets
