import ModbusProtocol.Rtu.Impl.Serial
import ModbusProtocol.Posix.Line

/-!
This module contains the registry of shared buses in `modbus_rtu_client.c`, connecting and disconnecting,
and the silence between transactions.

The registry is the linked list behind `shared_buses`, each record with its address. Locks are left out
here. A configuration comes without its pointers to log sinks.
-/

open Posix

namespace Rtu.Client

@[simp] abbrev pathMax : Nat := 4096
@[simp] abbrev defaultHandoffSilenceMs : UInt32 := 30

structure Timespec where
  sec : Int
  nsec : Int
  deriving DecidableEq, Repr

structure SharedBus where
  path : String
  fd : Int
  refcnt : UInt32
  baudRate : UInt32
  dataBits : UInt8
  stopBits : UInt8
  parity : Parity
  rs485Mode : Rs485Mode
  t35Us : UInt32
  hasLastTransaction : Bool
  lastUnitId : UInt8
  lastReleaseTime : Timespec
  deriving DecidableEq, Repr

structure ClientConfig where
  device : String
  baudRate : UInt32
  dataBits : UInt8
  stopBits : UInt8
  parity : Parity
  unitId : UInt8
  responseTimeoutMs : UInt32
  interFrameDelayUs : UInt32
  busHandoffSilenceMs : UInt32
  rs485Mode : Rs485Mode
  localEcho : Bool
  -- whether the hook is set
  onTxEnable : Bool
  deriving DecidableEq, Repr

abbrev Address := Nat

structure ClientCtx where
  fd : Int
  sharedBus : Option Address
  initialized : Bool
  cfg : ClientConfig
  deriving DecidableEq, Repr

abbrev Registry := List (Address × SharedBus)

-- What the system returns from the calls of a connect. Of a call that is not reached, nothing.
structure ConnectEnv where
  lockInit : Bool
  -- the resolved path, `none` when it cannot be resolved
  realpath : Option String
  calloc : Option Address
  port : OpenEnv
  mutexInit : Bool
  deriving DecidableEq, Repr

def resolveBusKey (device : String) (env : ConnectEnv) : Option String :=
  match env.realpath with
  | some key => some key
  | none => if device.utf8ByteSize ≥ pathMax then none else some device

def findBus (reg : Registry) (key : String) : Option (Address × SharedBus) :=
  reg.find? fun entry => entry.2.path = key

def busSettingsMatch (bus : SharedBus) (serial : SerialConfig) : Bool :=
  bus.baudRate = effectiveBaudRate serial.baudRate ∧
    bus.dataBits = effectiveDataBits serial.dataBits ∧
    bus.stopBits = effectiveStopBits serial.stopBits ∧
    bus.parity = serial.parity ∧
    bus.rs485Mode = serial.rs485Mode

-- The record that `open_bus_locked` links into the registry.
def newBus (key : String) (serial : SerialConfig) (fd : Int) : SharedBus where
  path := key
  fd := fd
  refcnt := 0
  baudRate := effectiveBaudRate serial.baudRate
  dataBits := effectiveDataBits serial.dataBits
  stopBits := effectiveStopBits serial.stopBits
  parity := serial.parity
  rs485Mode := serial.rs485Mode
  t35Us := t35Us serial
  hasLastTransaction := false
  lastUnitId := 0
  lastReleaseTime := ⟨0, 0⟩

def openBus (reg : Registry) (key : String) (serial : SerialConfig) (env : ConnectEnv)
    : Option (Address × SharedBus) × Registry × List Act :=
  match env.calloc with
  | none => (none, reg, [])
  | some bus =>
    let acts := [.acquire (.memory bus)]
    match openPort serial env.port with
    | (none, opened) => (none, reg, acts ++ opened ++ [.release (.memory bus)])
    | (some fd, opened) =>
      if !env.mutexInit then
        let (_, closed) := closePort fd
        (none, reg, acts ++ opened ++ closed ++ [.release (.memory bus)])
      else
        let entry := (bus, newBus key serial fd)
        (some entry, entry :: reg, acts ++ opened ++ [.acquire (.mutex (.memory bus))])

-- A change of the record behind a pointer.
def updateBus (reg : Registry) (bus : Address) (f : SharedBus → SharedBus) : Registry :=
  reg.map fun entry => if entry.1 = bus then (entry.1, f entry.2) else entry

def sharedBusAttach (reg : Registry) (serial : SerialConfig) (env : ConnectEnv)
    : Option (Address × SharedBus) × Registry × List Act :=
  match resolveBusKey serial.device env with
  | none => (none, reg, [])
  | some key =>
    let (bus, reg, acts) :=
      match findBus reg key with
      | some entry => if busSettingsMatch entry.2 serial then (some entry, reg, []) else (none, reg, [])
      | none => openBus reg key serial env
    match bus with
    | none => (none, reg, acts)
    | some entry =>
      (some entry, updateBus reg entry.1 fun bus => { bus with refcnt := bus.refcnt + 1 }, acts)

def getBus (reg : Registry) (bus : Address) : Option SharedBus :=
  (reg.find? fun entry => entry.1 = bus).map (·.2)

-- The list without the first record that has this address.
def unlinkBus (reg : Registry) (bus : Address) : Registry :=
  reg.eraseP fun entry => entry.1 = bus

def sharedBusDetach (reg : Registry) (bus : Address) : Registry × List Act :=
  let reg := updateBus reg bus fun bus =>
    if bus.refcnt > 0 then { bus with refcnt := bus.refcnt - 1 } else bus
  match getBus reg bus with
  -- the pointer of a connected context leads to a record
  | none => (reg, [])
  | some record =>
    if record.refcnt = 0 then
      let (_, closed) := closePort record.fd
      (unlinkBus reg bus,
        closed ++ [.release (.mutex (.memory bus)), .release (.memory bus)])
    else
      (reg, [])

structure Connected where
  rc : Int
  ctx : ClientCtx
  reg : Registry
  acts : List Act

def ClientConfig.serial (cfg : ClientConfig) : SerialConfig :=
  ⟨cfg.device, cfg.baudRate, cfg.dataBits, cfg.stopBits, cfg.parity, cfg.rs485Mode⟩

-- `mb_rtu_client_connect` of the context with this index
def connect (env : ConnectEnv) (reg : Registry) (index : Nat) (ctx : ClientCtx)
    (cfg : ClientConfig) : Connected :=
  if cfg.device = "" then
    ⟨-1, ctx, reg, []⟩
  else if ctx.initialized then
    ⟨-1, ctx, reg, []⟩
  else
    let ctx := ⟨-1, none, false, cfg⟩
    if !env.lockInit then
      ⟨-1, ctx, reg, []⟩
    else
      let acts := [.acquire (.mutex (.context index))]
      match sharedBusAttach reg cfg.serial env with
      | (none, reg, attached) =>
        ⟨-1, ctx, reg, acts ++ attached ++ [.release (.mutex (.context index))]⟩
      | (some (bus, record), reg, attached) =>
        let ctx := { ctx with sharedBus := some bus, fd := record.fd, initialized := true }
        ⟨0, ctx, reg, acts ++ attached⟩

-- `mb_rtu_client_disconnect`
def disconnect (reg : Registry) (index : Nat) (ctx : ClientCtx)
    : ClientCtx × Registry × List Act :=
  match ctx.initialized, ctx.sharedBus with
  | true, some bus =>
    let (reg, detached) := sharedBusDetach reg bus
    let ctx := { ctx with sharedBus := none, fd := -1, initialized := false }
    (ctx, reg, [.use (.mutex (.context index))] ++ detached ++ [.release (.mutex (.context index))])
  | _, _ => (ctx, reg, [])

def setUnitId (ctx : ClientCtx) (unitId : UInt8) : ClientCtx :=
  if !ctx.initialized then
    ctx
  else
    { ctx with cfg := { ctx.cfg with unitId := unitId } }

def effectiveHandoffSilenceMs (cfg : ClientConfig) : UInt32 :=
  effectiveTiming cfg.busHandoffSilenceMs defaultHandoffSilenceMs

def effectiveInterFrameUs (cfg : ClientConfig) (bus : SharedBus) : UInt32 :=
  effectiveTiming cfg.interFrameDelayUs bus.t35Us

-- The time of a line in nanoseconds, as CLOCK_MONOTONIC has it.
def Timespec.ofNs (ns : Nat) : Timespec :=
  ⟨ns / 1000000000, ns % 1000000000⟩

def clockGettime (line : Line) : Timespec × Line :=
  let (_, line) := line.clock
  (.ofNs line.now, line)

def requiredUs (bus : SharedBus) (unitId : UInt8) (interFrameUs handoffMs : UInt32) : Nat :=
  if bus.lastUnitId ≠ unitId ∧ handoffMs.toNat * 1000 > interFrameUs.toNat then
    handoffMs.toNat * 1000
  else
    interFrameUs.toNat

-- The division of C, towards zero.
def elapsedUs (now last : Timespec) : Int :=
  (now.sec - last.sec) * 1000000 + (now.nsec - last.nsec).tdiv 1000

-- How long is slept once the clock has been read.
def sleepUs (now last : Timespec) (requiredUs : Nat) : Nat :=
  if elapsedUs now last ≥ 0 ∧ elapsedUs now last < requiredUs then
    requiredUs - (elapsedUs now last).toNat
  else
    0

def waitBusSilence (bus : SharedBus) (line : Line) (unitId : UInt8)
    (interFrameUs handoffMs : UInt32) : Line :=
  if !bus.hasLastTransaction then
    line
  else
    let requiredUs := requiredUs bus unitId interFrameUs handoffMs
    if requiredUs = 0 then
      line
    else
      let (now, line) := clockGettime line
      let us := sleepUs now bus.lastReleaseTime requiredUs
      if us = 0 then line else line.sleep (us * 1000)

def markBusTransactionDone (bus : SharedBus) (line : Line) (unitId : UInt8) : SharedBus × Line :=
  let (now, line) := clockGettime line
  ({ bus with lastReleaseTime := now, lastUnitId := unitId, hasLastTransaction := true }, line)

end Rtu.Client
