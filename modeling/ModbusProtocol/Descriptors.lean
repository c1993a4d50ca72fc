import ModbusProtocol.Rtu.Lemmas.Select
import ModbusProtocol.Rtu.Lemmas.Server
import ModbusProtocol.Tcp.Lemmas.Select

/-!
This module contains which descriptors the library hands to select(): only an accepted client is checked
against `FD_SETSIZE` before it is put into a set.
-/

open Posix

variable {σ : Type}

-- A descriptor that is out of range is turned away where a client is accepted. Everywhere else it is only an
-- error of another kind that keeps it out of the sets.
theorem select_guards_iff
    : (∀ (cfg : Tcp.TransportConfig) (env : Tcp.Environment) fds, fdSetSize ≤ env.accept →
        Tcp.acceptClient cfg env fds = (none, [.accept, .close env.accept])) ∧
      (∀ env owner ctx (cfg : Tcp.Config) envs, cfg.mode = .listenServer →
        (Tcp.start env owner ctx cfg).1 = 0 →
        (Guards env.socket
            (Tcp.WithSets.serverThread (Tcp.start env owner ctx cfg).2.1.transport envs).sets
            ((Tcp.start env owner ctx cfg).1 ≠ 0)
          ↔ env.socket < fdSetSize)) ∧
      (∀ env sock bindIface remoteHost port,
        Guards env.socket (Tcp.WithSets.connect env sock bindIface remoteHost port).sets
            ((Tcp.WithSets.connect env sock bindIface remoteHost port).result.1 < 0)
          ↔ env.socket < fdSetSize ∨ ¬Tcp.WithSets.Reaches env bindIface remoteHost port) ∧
      (∀ fd line len deadlineUs,
        Guards fd (Rtu.Client.WithSets.readExactTimeout fd line len deadlineUs).sets
            ((Rtu.Client.WithSets.readExactTimeout fd line len deadlineUs).result.1 < 0)
          ↔ fd < fdSetSize ∨ (len ≠ 0 ∧ deadlineUs ≤ (Rtu.Client.monotonicUs line).1)) ∧
      (∀ fd line buf,
        Guards fd (Rtu.WithSets.writeAll fd line buf).sets
            ((Rtu.WithSets.writeAll fd line buf).result.1 = false)
          ↔ fd < fdSetSize ∨ Fails line.turns buf.length) ∧
      (∀ (cfg : Rtu.ServerConfig σ) fd line len,
        Guards fd (Rtu.WithSets.discardEcho cfg fd line len).sets False ↔ fd < fdSetSize) := by
  refine ⟨?_, ?_, Tcp.WithSets.connect_guards_iff, Rtu.Client.WithSets.readExactTimeout_guards_iff,
    Rtu.WithSets.writeAll_guards_iff, Rtu.WithSets.discardEcho_guards_iff⟩
  . intro cfg env fds hlarge
    apply Tcp.WithSets.acceptClient_rejects cfg fds hlarge
  . intro env owner ctx cfg envs hmode hstart
    exact Tcp.WithSets.start_guards_iff hmode hstart envs

-- Descriptor 1024, which no FD_SET may be given: a server that listens on it, a connection and three
-- transfers on a serial port, none of which reports an error.
theorem select_out_of_range
    : let start := Tcp.start ⟨some 4096, true, 1024, true, true, true, true⟩ (.context 0) Tcp.sampleCtx
        Tcp.sampleListen
      let connect := Tcp.WithSets.connect ⟨⟨1024, true, true, true, false, true⟩, true, fun _ => rfl⟩ (-1) ""
        "10.0.0.1" 502
      let read := Rtu.Client.WithSets.readExactTimeout 1024 ⟨0, [⟨0, 7⟩], [], [], none⟩ 1 1000
      let write := Rtu.WithSets.writeAll 1024 ⟨0, [], [], [⟨0, 0, .again⟩], none⟩ [7]
      let echo := Rtu.WithSets.discardEcho (Rtu.sampleConfig 1) 1024 ⟨0, [⟨0, 7⟩], [], [], none⟩ 1
      start.1 = 0 ∧ ¬InRange (Tcp.WithSets.serverThread start.2.1.transport
        [⟨.timeout, -1, fun _ => -1, fun _ => 0⟩]).sets ∧
      connect.result.1 = 0 ∧ ¬InRange connect.sets ∧ read.result.1 = 0 ∧ ¬InRange read.sets ∧
      write.result.1 = true ∧ ¬InRange write.sets ∧ ¬InRange echo.sets := by
  decide +kernel

-- A server that listens on descriptor 3, and a client on descriptor 1024 that is turned away.
theorem select_in_range
    : Guards 3 (Tcp.WithSets.serverThread
        (Tcp.start Tcp.sampleEnv (.context 0) Tcp.sampleCtx Tcp.sampleListen).2.1.transport
        Tcp.sampleRun).sets ((Tcp.start Tcp.sampleEnv (.context 0) Tcp.sampleCtx Tcp.sampleListen).1 ≠ 0) ∧
      Tcp.acceptClient Tcp.sampleListen.callbacks ⟨.ready [3], 1024, fun _ => -1, fun _ => 0⟩ [-1]
        = (none, [.accept, .close 1024]) := by
  obtain ⟨haccept, hthread, -⟩ := @select_guards_iff Unit
  constructor
  . exact (hthread Tcp.sampleEnv (.context 0) Tcp.sampleCtx Tcp.sampleListen Tcp.sampleRun rfl rfl).mpr
      (by decide)
  . exact haccept _ ⟨.ready [3], 1024, fun _ => -1, fun _ => 0⟩ [-1] (by decide)
