import ModbusProtocol.Rtu.Impl.Serial

/-!
This module contains what `mb_rtu_start` and `mb_rtu_stop` in `modbus_rtu.c` acquire and release, and the
server on top of them.

What the system calls return comes as an environment. The callbacks acquire and release nothing.
-/

open Modbus Posix

namespace Rtu

structure Config where
  serial : SerialConfig
  recvTimeoutMs : UInt32
  -- whether the callback is set
  onProcess : Bool

structure Ctx where
  cfg : Config
  serialFd : Int
  initialized : Bool

structure StartEnv where
  mutexInit : Bool
  port : OpenEnv
  -- both calls
  fcntl : Bool
  pthreadCreate : Bool

-- `mb_rtu_start`
def start (env : StartEnv) (owner : Owner) (ctx : Ctx) (cfg : Config) : Int × Ctx × List Act :=
  if cfg.serial.device = "" then
    (-1, ctx, [])
  else if ctx.initialized then
    (-1, ctx, [])
  else
    let recvTimeoutMs :=
      if cfg.recvTimeoutMs = 0 then UInt32.ofNat rtuDefaultTimeoutMs else cfg.recvTimeoutMs
    let ctx := ⟨{ cfg with recvTimeoutMs := recvTimeoutMs }, -1, false⟩
    if !env.mutexInit then
      (-1, ctx, [])
    else
      let acts := [.acquire (.mutex owner)]
      match openPort cfg.serial env.port with
      | (none, opened) => (-1, ctx, acts ++ opened ++ [.release (.mutex owner)])
      | (some fd, opened) =>
        if !env.fcntl ∨ !env.pthreadCreate then
          let (serialFd, closed) := closePort fd
          (-1, { ctx with serialFd := serialFd }, acts ++ opened ++ closed ++ [.release (.mutex owner)])
        else
          (0, { ctx with serialFd := fd, initialized := true },
            acts ++ opened ++ [.acquire (.thread owner)])

-- `mb_rtu_stop`
def stop (owner : Owner) (ctx : Ctx) : Ctx × List Act :=
  if !ctx.initialized then
    (ctx, [])
  else
    let (serialFd, closed) := closePort ctx.serialFd
    ({ ctx with serialFd := serialFd, initialized := false },
      [.release (.thread owner)] ++ closed ++ [.release (.mutex owner)])

-- One iteration of the loop of `mb_rtu_thread`, if it runs.
def iterate (ctx : Ctx) : Ctx × List Act :=
  if ctx.initialized ∧ ctx.serialFd ≥ 0 ∧ ctx.cfg.onProcess then
    (ctx, [.use (.descriptor ctx.serialFd)])
  else
    (ctx, [])

-- A context that has been set to zero.
def Ctx.zeroed : Ctx :=
  ⟨⟨⟨"", 0, 0, 0, .none, .none⟩, 0, false⟩, 0, false⟩

-- `mb_rtu_server_start`, on the transport of the server
def serverStart (env : StartEnv) (owner : Owner) (ctx : Ctx) (serial : SerialConfig)
    (recvTimeoutMs : UInt32) : Int × Ctx × List Act :=
  if serial.device = "" then
    (-1, ctx, [])
  else if ctx.initialized then
    (-1, ctx, [])
  else
    let recvTimeoutMs :=
      if recvTimeoutMs = 0 then UInt32.ofNat serverDefaultRecvTimeoutMs else recvTimeoutMs
    start env owner .zeroed ⟨serial, recvTimeoutMs, true⟩

end Rtu
