import ModbusProtocol.Posix.Select
import ModbusProtocol.Rtu.Impl.Client

/-!
This module contains the functions of `modbus_rtu_client.c` and `modbus_rtu_server.c` that wait for a
descriptor, with what they put into the sets of select().
-/

open Modbus Posix

namespace Rtu

namespace Client.WithSets

def waitLoop (fd : Int) (deadlineUs : Nat) : Nat → Line → Selected (Int × Line)
  | 0, line => ⟨[], -1, line⟩
  | fuel + 1, line =>
    let (nowUs, line) := monotonicUs line
    if nowUs ≥ deadlineUs then
      ⟨[], -2, line⟩
    else
      let readfds := [fd]
      match line.select ((deadlineUs - nowUs) * 1000) with
      | (.ready, line) => ⟨readfds, 0, line⟩
      | (.timeout, line) => ⟨readfds, -2, line⟩
      | (.intr, line) => (waitLoop fd deadlineUs fuel line).after readfds
      | (.error, line) => ⟨readfds, -1, line⟩

def waitReadable (fd : Int) (line : Line) (deadlineUs : Nat) : Selected (Int × Line) :=
  waitLoop fd deadlineUs (line.turns.length + 1) line

def readLoop (fd : Int) (deadlineUs : Nat) : Nat → Line → Nat → Selected (Int × List UInt8 × Line)
  | 0, line, _ => ⟨[], -1, [], line⟩
  | fuel + 1, line, len =>
    if len = 0 then
      ⟨[], 0, [], line⟩
    else
      let ⟨sets, ready, line⟩ := waitReadable fd line deadlineUs
      if ready ≠ 0 then
        ⟨sets, ready, [], line⟩
      else
        match line.read len with
        | (.bytes chunk, line) =>
          let ⟨later, rc, rest, line⟩ := readLoop fd deadlineUs fuel line (len - chunk.length)
          ⟨sets ++ later, rc, chunk ++ rest, line⟩
        | (.intr, line) => (readLoop fd deadlineUs fuel line len).after sets
        | (.hangup, line) => ⟨sets, -2, [], line⟩
        | (.again, line) => ⟨sets, -1, [], line⟩
        | (.error, line) => ⟨sets, -1, [], line⟩

def readExactTimeout (fd : Int) (line : Line) (len deadlineUs : Nat)
    : Selected (Int × List UInt8 × Line) :=
  readLoop fd deadlineUs (line.effort + 1) line len

end Client.WithSets

namespace WithSets

-- The loop of `write_all` in the server.
def writeLoop (fd : Int) (line : Line) (buf : List UInt8) : Nat → Selected (Bool × Line)
  | 0 => ⟨[], false, line⟩
  | fuel + 1 =>
    if buf = [] then
      ⟨[], true, line⟩
    else
      match line.write buf with
      | (.bytes chunk, line) => writeLoop fd line (buf.drop chunk.length) fuel
      | (.intr, line) => writeLoop fd line buf fuel
      | (.again, line) =>
        let writefds := [fd]
        (writeLoop fd line.turn.2 buf fuel).after writefds
      | (.hangup, line) => ⟨[], false, line⟩
      | (.error, line) => ⟨[], false, line⟩

def writeAll (fd : Int) (line : Line) (buf : List UInt8) : Selected (Bool × Line) :=
  match writeLoop fd line buf (line.turns.length + buf.length + 1) with
  | ⟨sets, false, line⟩ => ⟨sets, false, line⟩
  | ⟨sets, true, line⟩ => ⟨sets, line.drain⟩

def echoLoop (fd : Int) (deadlineUs len : Nat) : Nat → Line → Nat → Selected Line
  | 0, line, _ => ⟨[], line⟩
  | fuel + 1, line, got =>
    if got < len then
      let (nowUs, line) := currentTimeUs line
      if nowUs ≥ deadlineUs then
        ⟨[], line⟩
      else
        let readfds := [fd]
        match line.select (deadlineUs - nowUs) with
        | (.ready, line) =>
          match line.read (len - got) with
          | (.bytes chunk, line) =>
            (echoLoop fd deadlineUs len fuel line (got + chunk.length)).after readfds
          | (.hangup, line) => ⟨readfds, line⟩
          | (.intr, line) => (echoLoop fd deadlineUs len fuel line got).after readfds
          | (.again, line) => (echoLoop fd deadlineUs len fuel line got).after readfds
          | (.error, line) => ⟨readfds, line⟩
        | (_, line) => (echoLoop fd deadlineUs len fuel line got).after readfds
    else
      ⟨[], line⟩

def discardEcho {σ : Type} (cfg : ServerConfig σ) (fd : Int) (line : Line) (len : Nat)
    : Selected Line :=
  let (nowUs, line) := currentTimeUs line
  let deadlineUs := nowUs + effectiveTimeoutMs cfg * 1000
  echoLoop fd deadlineUs len (line.effort + 2) line 0

end WithSets

end Rtu
