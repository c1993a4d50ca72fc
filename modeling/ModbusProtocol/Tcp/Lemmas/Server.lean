import ModbusProtocol.Pdu.Lemmas.Validation
import ModbusProtocol.Posix.Lemmas
import ModbusProtocol.Tcp.Spec

/-!
This module contains the TCP server as a stream transducer: a call of `server_on_process` takes one MBAP
frame from the stream and serves it, or ends the connection, and the calls on one connection do what the
frames of the whole stream ask for, however it is cut into segments.
-/

open Modbus Posix

namespace Tcp

variable {σ : Type}

theorem recvExact_ok {line line' : Line} {buf buf' : Mem UInt8} {len : Nat}
    (h : recvExact line buf len = (true, buf', line'))
    : Line.Took line (line.bytes.take len) line' ∧ len ≤ line.bytes.length ∧
      buf' = buf.write 0 (line.bytes.take len) := by
  have hreceives := Line.recvAll_receives line len
  unfold recvExact at h
  generalize line.recvAll len = result at h hreceives
  obtain ⟨status, got, line''⟩ := result
  injection h with hok h
  injection h with hbuf hline
  obtain ⟨hgot, -, hlen⟩ := hreceives.got_eq (by simpa using hok)
  dsimp only at hgot hbuf hline hreceives
  subst hgot hbuf hline
  exact ⟨hreceives.took, hlen, rfl⟩

theorem recvExact_outgoing (line : Line) (buf : Mem UInt8) (len : Nat)
    : (recvExact line buf len).2.2.outgoing = line.outgoing := by
  apply (Line.recvAll_receives line len).took.outgoing

theorem recvExact_fails {line line' : Line} {buf buf' : Mem UInt8} {len : Nat}
    (h : recvExact line buf len = (false, buf', line')) (hcalm : line.Calm)
    : line.bytes.length < len := by
  rw [← Nat.not_le]
  intro hlen
  have hok := hcalm.recvAll len hlen
  have hfirst : decide ((line.recvAll len).1 = .ok) = false := congrArg Prod.fst h
  simp [hok] at hfirst

-- The response buffer of `server_on_process` once the reply stands in it.
theorem slice_reply (resp : Mem UInt8) (tid : List UInt8) (unitId : UInt8) (bytes : List UInt8)
    (htid : tid.length = 2)
    : ((((((resp.splice 7 ((resp.shift 7).write 0 bytes)).write 0 (tid ++ [0, 0])).set 4
          (UInt16.ofNat (1 + bytes.length) >>> 8).toUInt8).set 5
          (UInt16.ofNat (1 + bytes.length) &&& 0xFF).toUInt8).set 6 unitId).slice 0
          (7 + bytes.length))
        =
      mbapAdu tid unitId bytes := by
  rw [Mem.splice_write_shift, Mem.set_eq_write, Mem.set_eq_write, Mem.set_eq_write]
  rw [Mem.write_write _ _ _ (by simp), Mem.write_write _ _ _ (by simp)]
  rw [Mem.write_write _ _ _ (by simp [htid]), Nat.add_zero]
  generalize hhead : tid ++ [0, 0] ++ _ = head
  have hlen : head.length = 7 := by simp [← hhead, htid]
  rw [Mem.slice_add, Mem.slice_write_of_disjoint _ _ (0 + 7) _ _ (by omega)]
  rw [Nat.zero_add, Mem.slice_write_same, ← hlen, Mem.slice_write_same, ← hhead]
  simp [mbapAdu, Pdu.u16Bytes]

-- What a call leaves that has taken `frame` from the line.
structure Serves (cfg : ServerConfig σ) (locals : σ → Pdu.Locals) (srv : Server σ)
    (frame : List UInt8) (p : Processed σ) : Prop where
  served : (p.server.state, p.events) = serveFrame cfg locals frame srv.state
  sent : ∃ sent, Line.Put srv.line sent p.server.line ∧ (p.rc = 0 → sent = transmitted p.events)
  rc : p.rc = 0 ∨ p.rc = -1
  calm : srv.line.Calm → p.rc = 0

theorem Serves.bytes {cfg : ServerConfig σ} {locals : σ → Pdu.Locals} {s : σ} {l line : Line} {n : Nat}
    {frame : List UInt8} {p : Processed σ} (h : Serves cfg locals ⟨s, line⟩ frame p)
    (htook : Line.Took l (l.bytes.take n) line) (hlen : n ≤ l.bytes.length)
    : p.server.line.bytes = l.bytes.drop n := by
  obtain ⟨sent, hput, -⟩ := h.sent
  have hdrop := congrArg (List.drop n) htook.bytes
  rw [List.drop_left' (List.length_take_of_le hlen)] at hdrop
  unfold Line.bytes at hdrop ⊢
  rw [hput.incoming, hdrop]

theorem framesOf_serveFrame (cfg : ServerConfig σ) (locals : σ → Pdu.Locals) (frame : List UInt8) (s : σ)
    : framesOf (serveFrame cfg locals frame s).2 = [frame] := by
  unfold serveFrame
  dsimp only
  split
  . rw [List.cons_append, ← List.singleton_append, framesOf_append, framesOf_append, framesOf_calls]
    rfl
  . rfl

theorem Serves.frames {cfg : ServerConfig σ} {locals : σ → Pdu.Locals} {srv : Server σ}
    {frame : List UInt8} {p : Processed σ} (h : Serves cfg locals srv frame p)
    : framesOf p.events = [frame] := by
  have hevents : p.events = (serveFrame cfg locals frame srv.state).2 := congrArg Prod.snd h.served
  rw [hevents]
  apply framesOf_serveFrame

theorem serves_ignored {cfg : ServerConfig σ} {locals : σ → Pdu.Locals} {srv : Server σ}
    {frame : List UInt8} (h : ¬((frame.drop 2).take 2 = [0, 0] ∧ cfg.accepts (frame.getD 6 0)))
    : Serves cfg locals srv frame ⟨0, srv, [.frame frame]⟩ := by
  constructor
  . unfold serveFrame
    rw [if_neg h]
  . exact ⟨[], Line.Put.refl _, fun _ => rfl⟩
  . exact .inl rfl
  . intro
    rfl

theorem transmitted_served (frame adu : List UInt8) (calls : List Pdu.Call)
    : transmitted ([.frame frame] ++ calls.map .call ++ [.send adu]) = adu := by
  rw [transmitted_append, transmitted_append, transmitted_calls]
  simp [transmitted]

theorem processFrame_serves (cfg : ServerConfig σ) (stack : Stack σ) (srv : Server σ)
    (adu : Mem UInt8) (n : Nat) (hmin : 2 ≤ n)
    : Serves cfg stack.locals srv (adu.slice 0 (6 + n)) (processFrame cfg stack srv adu n) := by
  have hunit : (adu.slice 0 (6 + n)).getD 6 0 = adu 6 := Pdu.getD_slice _ _ _ (by omega)
  have hproto : ((adu.slice 0 (6 + n)).drop 2).take 2 = [adu 2, adu 3] := by
    rw [Mem.drop_slice _ _ _ _ (by omega), Mem.take_slice _ _ _ _ (by omega)]
    rfl
  have htid : (adu.slice 0 (6 + n)).take 2 = [adu 0, adu 1] := by
    rw [Mem.take_slice _ _ _ _ (by omega)]
    rfl
  have hpdu : (adu.slice 0 (6 + n)).drop 7 = (adu.shift 7).slice 0 (n - 1) := by
    rw [Mem.drop_slice _ _ _ _ (by omega), Mem.slice_shift, show 6 + n - 7 = n - 1 by omega]
  unfold processFrame
  dsimp only [tcpMbapHeaderLen, offsetUnitId, offsetProtoHigh, offsetProtoLow, offsetPdu,
    offsetLenHigh, offsetLenLow]
  split
  . next hforeign =>
    apply serves_ignored
    rw [hproto]
    rintro ⟨hzero, -⟩
    simp only [List.cons.injEq, and_true] at hzero
    simp [hzero] at hforeign
  . next hmodbus =>
    rw [not_or, not_not, not_not] at hmodbus
    split
    . next hmismatch =>
      apply serves_ignored
      rw [hunit]
      rintro ⟨-, haccepts⟩
      unfold ServerConfig.accepts at haccepts
      simp_all
    . next hmatch =>
      have haccepts : cfg.accepts (adu 6) := by
        unfold ServerConfig.accepts
        rw [Decidable.or_iff_not_imp_left]
        simpa using hmatch
      have hslice : adu.slice 0 4 = [adu 0, adu 1] ++ [0, 0] := by
        have hbytes : adu.slice 0 4 = [adu 0, adu 1, adu 2, adu 3] := by rfl
        rw [hbytes, hmodbus.1, hmodbus.2]
        rfl
      rw [Pdu.handleRequest_eq_respond _ _ _ _ _ _ (by omega), ← hpdu, hslice]
      generalize hreply : Pdu.respond cfg.handlers (stack.locals srv.state) ((adu.slice 0 (6 + n)).drop 7)
        srv.state = reply
      dsimp only [Pdu.Reply.store]
      rw [slice_reply _ _ _ _ (by rfl)]
      generalize hadu : mbapAdu [adu 0, adu 1] (adu 6) reply.bytes = resp
      have hserve : serveFrame cfg stack.locals (adu.slice 0 (6 + n)) srv.state
          = (reply.state, [.frame (adu.slice 0 (6 + n))] ++ reply.calls.map .call ++ [.send resp]) := by
        unfold serveFrame
        dsimp only
        rw [hproto, hunit, htid, hreply, hadu, if_pos]
        . rfl
        . rw [hmodbus.1, hmodbus.2]
          exact ⟨rfl, haccepts⟩
      obtain ⟨sent, hput, -, hall⟩ := Line.writeAll_put false srv.line resp
      have hcalm : srv.line.Calm → (sendAll srv.line resp).1 = true := by
        intro hcalm
        apply hcalm.writeAll
      unfold sendAll at hcalm ⊢
      split
      . next line' heq =>
        rw [heq] at hput hcalm
        exact ⟨hserve.symm, ⟨sent, hput, by simp⟩, .inr rfl, by simpa using hcalm⟩
      . next line' heq =>
        rw [heq] at hput hall
        refine ⟨hserve.symm, ⟨sent, hput, ?_⟩, .inl rfl, fun _ => rfl⟩
        intro
        rw [transmitted_served]
        apply hall
        rfl

-- A call takes the frame at the head of the stream and serves it, or ends the connection.
inductive Step (cfg : ServerConfig σ) (locals : σ → Pdu.Locals) (srv : Server σ) (p : Processed σ)
    : Prop where
  | served (n : Nat) (line : Line) (hverdict : mbapVerdict 2 srv.line.bytes = .take n)
      (htook : Line.Took srv.line (srv.line.bytes.take n) line)
      (hserves : Serves cfg locals ⟨srv.state, line⟩ (srv.line.bytes.take n) p)
  | closed (hserver : p.server.state = srv.state ∧ p.server.line.outgoing = srv.line.outgoing)
      (hevents : p.events = []) (hrc : p.rc = -1)
      (hcalm : srv.line.Calm → ∀ n, mbapVerdict 2 srv.line.bytes ≠ .take n)

theorem mbapLen_header {adu : Mem UInt8} {l : List UInt8} (hlen : 6 ≤ l.length)
    (hadu : adu.slice 0 6 = l.take 6)
    : (((adu 4).toUInt16 <<< 8) ||| (adu 5).toUInt16).toNat = mbapLen l := by
  have hbyte : ∀ i < 6, adu i = l.getD i 0 := by
    intro i hi
    rw [← Pdu.getD_slice adu 6 i hi, hadu, ← List.take_append_drop 6 l]
    rw [List.take_left' (by simp [hlen]), List.getD_append _ _ _ _ (by simp; omega)]
  rw [hbyte 4 (by omega), hbyte 5 (by omega)]
  rfl

theorem serverOnProcess_step (cfg : ServerConfig σ) (stack : Stack σ) (srv : Server σ)
    : Step cfg stack.locals srv (serverOnProcess cfg stack srv) := by
  unfold serverOnProcess
  dsimp only [tcpMbapHeaderLen, tcpMaxAduLength, offsetLenHigh, offsetLenLow]
  split
  . next adu line hheader =>
    have houtgoing := recvExact_outgoing srv.line (stack.adu srv.state) 6
    rw [hheader] at houtgoing
    apply Step.closed
    . exact ⟨rfl, houtgoing⟩
    . rfl
    . rfl
    . intro hcalm n htake
      have hshort := recvExact_fails hheader hcalm
      have := mbapVerdict_take htake
      omega
  . next adu line hheader =>
    obtain ⟨htook, hlen, hadu⟩ := recvExact_ok hheader
    have hslice : adu.slice 0 6 = srv.line.bytes.take 6 := by
      have hsame := Mem.slice_write_same (stack.adu srv.state) 0 (srv.line.bytes.take 6)
      rw [List.length_take_of_le hlen] at hsame
      rw [hadu, hsame]
    have hmbap := mbapLen_header hlen hslice
    have hbytes : line.bytes = srv.line.bytes.drop 6 := by
      have hdrop := congrArg (List.drop 6) htook.bytes
      rw [List.drop_left' (List.length_take_of_le hlen)] at hdrop
      rw [hdrop]
    generalize ((adu 4).toUInt16 <<< 8) ||| (adu 5).toUInt16 = mbapRemaining at hmbap
    split
    . next hbad =>
      apply Step.closed
      . exact ⟨rfl, htook.outgoing⟩
      . rfl
      . rfl
      . intro hcalm n htake
        have := mbapVerdict_take htake
        rw [UInt16.lt_iff_toNat_lt] at hbad
        simp at hbad
        omega
    . next hgood =>
      rw [hmbap]
      split
      . next body line' hbody =>
        have houtgoing := recvExact_outgoing line (adu.shift 6) (mbapLen srv.line.bytes)
        rw [hbody] at houtgoing
        apply Step.closed
        . exact ⟨rfl, houtgoing.trans htook.outgoing⟩
        . rfl
        . rfl
        . intro hcalm n htake
          have hshort := recvExact_fails hbody (hcalm.took htook)
          have := mbapVerdict_take htake
          rw [hbytes, List.length_drop] at hshort
          omega
      . next body line' hbody =>
        obtain ⟨htook', hlen', hadu'⟩ := recvExact_ok hbody
        generalize hn : mbapLen srv.line.bytes = n at *
        have hmin : 2 ≤ n ∧ n ≤ 254 := by
          rw [UInt16.lt_iff_toNat_lt] at hgood
          simp at hgood
          omega
        have htake : srv.line.bytes.take 6 ++ line.bytes.take n = srv.line.bytes.take (6 + n) := by
          rw [hbytes, List.take_add]
        replace htook' := htook.trans htook'
        rw [htake] at htook'
        rw [hbytes, List.length_drop] at hlen'
        have hframe : (adu.splice 6 body).slice 0 (6 + n) = srv.line.bytes.take (6 + n) := by
          rw [hadu', Mem.splice_write_shift, Mem.slice_add]
          rw [Mem.slice_write_of_disjoint _ _ _ _ _ (by omega), hslice, ← htake]
          have hbody := Mem.slice_write_same adu 6 (line.bytes.take n)
          rw [hbytes, List.length_take, List.length_drop, Nat.min_eq_left hlen'] at hbody
          rw [Nat.zero_add, Nat.add_zero, hbytes, hbody]
        apply Step.served (6 + n) line'
        . unfold mbapVerdict
          rw [hn, if_neg (by simp; omega), if_neg (by simp; omega), if_neg (by simp; omega)]
        . exact htook'
        . rw [← hframe]
          apply processFrame_serves cfg stack ⟨srv.state, line'⟩ _ _ hmin.1

theorem scan_of_not_take {l : List UInt8} (h : ∀ n, mbapVerdict 2 l ≠ .take n)
    : (mbapFraming 2).scan l = ([], l) := by
  apply Framing.scan_stop
  cases hverdict : (mbapFraming 2).verdict l with
  | wait => exact .inl rfl
  | halt => exact .inr rfl
  | skip =>
    unfold mbapFraming mbapVerdict at hverdict
    grind
  | take n => exact absurd hverdict (h n)

-- The first calls on a connection do what as many frames of the stream ask for, and the first call
-- behind the last frame ends it.
theorem runServer_serves (cfg : ServerConfig σ) (stack : Stack σ) (pauses : List Nat)
    (srv : Server σ) (hcalm : srv.line.Calm)
    : let frames := ((mbapFraming 2).scan srv.line.bytes).1
      let run := runServer cfg stack pauses srv
      (run.server.state, run.events)
        = transduce (serveFrame cfg stack.locals) (frames.take pauses.length) srv.state ∧
      (run.closed ↔ frames.length < pauses.length) ∧
      run.server.line.outgoing = srv.line.outgoing ++ transmitted run.events := by
  induction pauses generalizing srv with
  | nil => exact ⟨rfl, by simp [runServer], by simp [runServer, transmitted]⟩
  | cons pause pauses ih =>
    have hpass := Line.pass_took srv.line pause
    have hcalm' := hcalm.took hpass
    unfold runServer
    cases serverOnProcess_step cfg stack (srv.pass pause) with
    | served n line hverdict htook hserves =>
      have hbytes : (srv.pass pause).line.bytes = srv.line.bytes := rfl
      rw [hbytes] at hverdict htook hserves
      generalize serverOnProcess cfg stack (srv.pass pause) = p at hserves
      have hrc := hserves.calm (hcalm'.took htook)
      obtain ⟨sent, hput, hall⟩ := hserves.sent
      have hrest : p.server.line.bytes = (srv.pass pause).line.bytes.drop n :=
        hserves.bytes htook (mbapVerdict_take hverdict).2.1
      rw [hbytes] at hrest
      obtain ⟨hserved, hclosed, houtgoing⟩ := ih p.server ((hcalm'.took htook).put hput)
      dsimp only
      rw [if_neg (by omega), Framing.scan_take hverdict]
      rw [hrest] at hserved hclosed
      refine ⟨?_, ?_, ?_⟩
      . dsimp only [List.length_cons]
        rw [List.take_succ_cons]
        unfold transduce
        have hfirst : (p.server.state, p.events)
            = serveFrame cfg stack.locals (srv.line.bytes.take n) srv.state := hserves.served
        rw [← hfirst]
        dsimp only
        rw [← hserved]
      . simpa using hclosed
      . rw [houtgoing, hput.outgoing, hall hrc, htook.outgoing, transmitted_append]
        apply List.append_assoc
    | closed hserver hevents hrc hnone =>
      have hscan := scan_of_not_take (hnone hcalm')
      have hbytes : (srv.pass pause).line.bytes = srv.line.bytes := rfl
      rw [hbytes] at hscan
      dsimp only
      rw [if_pos (by omega), hscan]
      refine ⟨?_, by simp, ?_⟩
      . rw [hevents, hserver.1]
        rfl
      . rw [hevents, hserver.2]
        simp [transmitted, Server.pass, hpass.outgoing]

theorem mbapVerdict_mbapAdu {tid : List UInt8} (htid : tid.length = 2) (unitId : UInt8)
    {pdu : List UInt8} (hpos : 1 ≤ pdu.length) (hmax : pdu.length ≤ 253)
    : mbapVerdict 2 (mbapAdu tid unitId pdu) = .take (mbapAdu tid unitId pdu).length := by
  have hlen : (mbapAdu tid unitId pdu).length = 7 + pdu.length := by
    simp [mbapAdu, htid]
    omega
  have hmbap : mbapLen (mbapAdu tid unitId pdu) = 1 + pdu.length := by
    obtain ⟨a, b, rfl⟩ := List.length_eq_two.mp htid
    have hu16 := Pdu.u16Of_u16Bytes (UInt16.ofNat (1 + pdu.length))
    have hlow : (UInt16.ofNat (1 + pdu.length)).toNat = 1 + pdu.length := by
      simp
      omega
    unfold mbapLen mbapAdu Pdu.u16Bytes
    simp only [List.cons_append, List.nil_append, List.getD_cons_succ, List.getD_cons_zero]
    rw [hu16, hlow]
  unfold mbapVerdict
  rw [hmbap, hlen]
  have hheader : tcpMbapHeaderLen + (1 + pdu.length) = 7 + pdu.length := by
    change 6 + _ = _
    omega
  have hlong : ¬7 + pdu.length < tcpMbapHeaderLen := by
    change ¬_ < 6
    omega
  have hrange : ¬(1 + pdu.length < 2 ∨ 1 + pdu.length > tcpMaxAduLength - tcpMbapHeaderLen) := by
    change ¬(_ ∨ _ > 254)
    omega
  rw [if_neg hlong, if_neg hrange, hheader, if_neg (Nat.lt_irrefl _)]

theorem serveFrame_mbapAdu {cfg : ServerConfig σ} {tid : List UInt8} {unitId : UInt8}
    (htid : tid.length = 2) (haccepts : cfg.accepts unitId) (locals : σ → Pdu.Locals) (pdu : List UInt8)
    (s : σ)
    : let reply := Pdu.respond cfg.handlers (locals s) pdu s
      serveFrame cfg locals (mbapAdu tid unitId pdu) s
        =
      (reply.state, .frame (mbapAdu tid unitId pdu) :: reply.calls.map .call ++
        [.send (mbapAdu tid unitId reply.bytes)]) := by
  obtain ⟨a, b, rfl⟩ := List.length_eq_two.mp htid
  unfold serveFrame
  dsimp only
  rw [if_pos ⟨rfl, haccepts⟩]
  rfl

theorem send_mem_serveFrame {cfg : ServerConfig σ} {locals : σ → Pdu.Locals} {frame adu : List UInt8}
    {s : σ} (hlen : 2 ≤ frame.length) (h : .send adu ∈ (serveFrame cfg locals frame s).2)
    : mbapVerdict 2 adu = .take adu.length := by
  unfold serveFrame at h
  dsimp only at h
  split at h
  . have hbytes := Pdu.length_respond cfg.handlers (locals s) (frame.drop 7) s
    simp at h
    rw [h]
    apply mbapVerdict_mbapAdu _ _ hbytes.1 hbytes.2
    simp [hlen]
  . simp at h

-- The server as a transducer of the bytes on one connection.
theorem connection_transduces (cfg : ServerConfig σ) (stack : Stack σ) (pauses : List Nat)
    (srv : Server σ) (hcalm : srv.line.Calm)
    : let frames := ((mbapFraming 2).scan srv.line.bytes).1
      let run := runServer cfg stack pauses srv
      (run.server.state, run.events)
        = transduce (serveFrame cfg stack.locals) (frames.take pauses.length) srv.state ∧
      (run.closed ↔ frames.length < pauses.length) ∧
      run.server.line.outgoing = srv.line.outgoing ++ transmitted run.events ∧
      (∀ adu, .send adu ∈ run.events → mbapVerdict 2 adu = .take adu.length) ∧
      (∀ srv' : Server σ, let p := serverOnProcess cfg stack srv'
        p.rc = 0 → ∃ n, mbapVerdict 2 srv'.line.bytes = .take n ∧
          framesOf p.events = [srv'.line.bytes.take n] ∧
          p.server.line.bytes = srv'.line.bytes.drop n) := by
  obtain ⟨hserved, hclosed, houtgoing⟩ := runServer_serves cfg stack pauses srv hcalm
  refine ⟨hserved, hclosed, houtgoing, ?_, ?_⟩
  . intro adu hsend
    have hevents := congrArg Prod.snd hserved
    dsimp only at hevents
    rw [hevents] at hsend
    obtain ⟨frame, hmem, s, hsend⟩ := exists_of_mem_transduce _ hsend
    obtain ⟨l, n, htake, rfl⟩ := Framing.exists_of_mem_scan (List.mem_of_mem_take hmem)
    have hlen := mbapVerdict_take htake
    apply send_mem_serveFrame _ hsend
    rw [List.length_take]
    omega
  . intro srv'
    dsimp only
    intro hrc
    cases serverOnProcess_step cfg stack srv' with
    | served n line hverdict htook hserves =>
      refine ⟨n, hverdict, ?_, ?_⟩
      . exact hserves.frames
      . exact hserves.bytes htook (mbapVerdict_take hverdict).2.1
    | closed hserver hevents hrc' hnone =>
      rw [hrc'] at hrc
      contradiction

-- An application with one register bank that holds 7 everywhere and accepts every write.
def sampleConfig : ServerConfig Unit where
  unitId := 1
  handlers := {
    readRegisters := some fun _ _ _ _ s => ⟨0, fun _ => 7, s⟩
    writeRegisters := some fun _ _ _ s => ⟨0, s⟩
    readBits := some fun _ _ _ out s => ⟨0, out, s⟩
    writeBits := some fun _ _ _ s => ⟨0, s⟩ }

def sampleStack : Stack σ :=
  ⟨fun _ => ⟨fun _ => 0, fun _ => 0⟩, fun _ _ => 0, fun _ _ => 0⟩

-- A frame with another protocol id, a read of one register and a frame without a function code.
def sampleServer : Server Unit where
  state := ()
  line := {
    now := 0
    incoming := [0, 9, 0, 5, 0, 2, 1, 3, 0, 9, 0, 0, 0, 6, 1, 3, 0, 0, 0, 1, 0, 8, 0, 0, 0, 1, 1].map
      fun byte => ⟨0, byte⟩
    outgoing := []
    turns := [⟨5, 3, .done⟩, ⟨0, 0, .intr⟩, ⟨0, 1, .done⟩, ⟨7, 9, .done⟩, ⟨0, 9, .done⟩]
    recvTimeout := none }

theorem connection_transduces_segments
    : (runServer sampleConfig sampleStack [0, 3, 0, 0] sampleServer).server.line.outgoing
        = [0, 9, 0, 0, 0, 5, 1, 3, 2, 0, 7] ∧
      (runServer sampleConfig sampleStack [0, 3, 0, 0] sampleServer).closed = true := by
  have hcalm : sampleServer.line.Calm := ⟨by decide, rfl⟩
  obtain ⟨hserved, hclosed, houtgoing, -⟩ :=
    connection_transduces sampleConfig sampleStack [0, 3, 0, 0] sampleServer hcalm
  have hscan : ((mbapFraming 2).scan sampleServer.line.bytes).1
      = [[0, 9, 0, 5, 0, 2, 1, 3], [0, 9, 0, 0, 0, 6, 1, 3, 0, 0, 0, 1]] := by
    rw [Framing.scan_take (n := 8) (by decide), Framing.scan_take (n := 12) (by decide)]
    rw [Framing.scan_halt (by decide)]
    rfl
  rw [hscan] at hserved hclosed
  have hevents := congrArg Prod.snd hserved
  dsimp only at hevents
  constructor
  . rw [houtgoing, hevents]
    decide +kernel
  . rw [hclosed]
    decide

end Tcp
