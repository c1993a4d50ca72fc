import ModbusProtocol.Rtu.Lemmas.Frame
import ModbusProtocol.Tcp.Lemmas.Frame

/-!
This module contains the comparison of the public frame builders with the clients and the servers: which
ADU they store, and that they stay inside the buffer they are handed.
-/

open Modbus

variable {σ : Type}

-- The builder stores `adu` as a whole where it fits, and otherwise leaves the buffer as it is.
def Stores (build : Option (Mem UInt8) → Nat → Built) (rc : Int) (adu : List UInt8) : Prop :=
  ∀ m cap, build (some m) cap
    = if adu.length ≤ cap then ⟨rc, some (m.write 0 adu)⟩ else ⟨-1, some m⟩

-- Whatever the builder is handed, the cells from the capacity on are left alone.
def Bounded (build : Option (Mem UInt8) → Nat → Built) : Prop :=
  ∀ req cap i, cap ≤ i → (build req cap).buf.map (· i) = req.map (· i)

theorem bounded_of_cases {build : Option (Mem UInt8) → Nat → Built}
    (hnone : ∀ cap, (build none cap).buf = none)
    (hsome : ∀ m cap, (build (some m) cap).buf = some m ∨
      ∃ adu, adu.length ≤ cap ∧ (build (some m) cap).buf = some (m.write 0 adu))
    : Bounded build := by
  intro req cap i hi
  cases req with
  | none =>
    rw [hnone]
  | some m =>
    obtain hkept | ⟨adu, hcap, hstored⟩ := hsome m cap
    . rw [hkept]
    . rw [hstored, Option.map_some, Option.map_some, Mem.write_of_ge _ _ (by omega)]

namespace Rtu.Frame

theorem build_stores {call : RequestCall} (h : call.encoder.isSome) (unitId : UInt8)
    : Stores (build unitId call) (withCrc (unitId :: call.bytes)).length
        (withCrc (unitId :: call.bytes)) := by
  intro m cap
  rw [build_eq, length_withCrc, List.length_cons]
  simp only [h, true_and]

theorem build_bounded (unitId : UInt8) (call : RequestCall)
    : Bounded (build unitId call) := by
  apply bounded_of_cases
  . intro cap
    cases call with
    | basis function addr nb => rfl
    | fc06 addr value => rfl
    | fc16 addr n values => rfl
  . intro m cap
    rw [build_eq]
    split
    . next hroom =>
      right
      refine ⟨_, ?_, rfl⟩
      rw [length_withCrc, List.length_cons]
      omega
    . exact .inl rfl

theorem buildReadRegistersResponse_bounded (functionCode unitId : UInt8) (data : Option (Mem UInt16))
    (quantity : UInt16)
    : Bounded (buildReadRegistersResponse functionCode unitId data quantity) := by
  apply bounded_of_cases
  . intro cap
    rfl
  . intro m cap
    cases data with
    | none => exact .inl rfl
    | some data =>
      rw [buildReadRegistersResponse_eq]
      split
      . next hroom =>
        right
        refine ⟨_, ?_, rfl⟩
        rw [length_withCrc]
        simp
        omega
      . exact .inl rfl

theorem buildReadRegistersResponse_stores (functionCode unitId : UInt8) (data : Mem UInt16)
    {quantity : UInt16} (h : quantity.toNat ≤ maxReadRegisters)
    : let adu := withCrc (unitId :: functionCode :: UInt8.ofNat (quantity.toNat * 2) ::
        (data.slice 0 quantity.toNat).flatMap Pdu.u16Bytes)
      Stores (buildReadRegistersResponse functionCode unitId (some data) quantity) adu.length adu := by
  intro adu m cap
  have hlen : adu.length = 5 + quantity.toNat * 2 := by
    rw [length_withCrc]
    simp
    omega
  rw [buildReadRegistersResponse_eq, hlen]
  simp only [h, true_and]
  rfl

end Rtu.Frame

namespace Tcp.Frame

open Client (nextTid)

theorem build_stores {call : RequestCall} (h : call.encoder.isSome) (ctx : Ctx) (modbusUid : UInt8)
    : Stores (fun req cap => (build (some ctx) modbusUid call req cap).toBuilt) (returnCode call)
        (mbapAdu (Pdu.u16Bytes (nextTid ctx.tid)) modbusUid call.bytes) := by
  intro m cap
  dsimp only
  rw [build_eq, length_mbapAdu (Pdu.length_u16Bytes _)]
  simp only [h, true_and]
  split
  . rfl
  . rfl

theorem build_bounded (ctx : Option Ctx) (modbusUid : UInt8) (call : RequestCall)
    : Bounded fun req cap => (build ctx modbusUid call req cap).toBuilt := by
  apply bounded_of_cases
  . intro cap
    cases ctx with
    | none => cases call <;> rfl
    | some ctx => cases call <;> rfl
  . intro m cap
    cases ctx with
    | none =>
      left
      cases call <;> rfl
    | some ctx =>
      rw [build_eq]
      split
      . next hroom =>
        right
        refine ⟨_, ?_, rfl⟩
        rw [length_mbapAdu (Pdu.length_u16Bytes _)]
        exact hroom.2
      . exact .inl rfl

theorem buildReadRegistersResponse_bounded (tid : UInt16) (functionCode unitId : UInt8)
    (data : Option (Mem UInt16)) (quantity : UInt16)
    : Bounded (buildReadRegistersResponse tid functionCode unitId data quantity) := by
  apply bounded_of_cases
  . intro cap
    rfl
  . intro m cap
    cases data with
    | none => exact .inl rfl
    | some data =>
      rw [buildReadRegistersResponse_eq]
      split
      . next hroom =>
        right
        refine ⟨_, ?_, rfl⟩
        rw [length_mbapAdu (Pdu.length_u16Bytes _)]
        simp
        omega
      . exact .inl rfl

theorem buildReadRegistersResponse_stores (tid : UInt16) (functionCode unitId : UInt8)
    (data : Mem UInt16) {quantity : UInt16} (h : quantity.toNat ≤ maxReadRegisters)
    : let adu := mbapAdu (Pdu.u16Bytes tid) unitId (functionCode :: UInt8.ofNat (quantity.toNat * 2) ::
        (data.slice 0 quantity.toNat).flatMap Pdu.u16Bytes)
      Stores (buildReadRegistersResponse tid functionCode unitId (some data) quantity) adu.length adu := by
  intro adu m cap
  have hlen : adu.length = 9 + quantity.toNat * 2 := by
    rw [length_mbapAdu (Pdu.length_u16Bytes _)]
    simp
    omega
  change quantity.toNat ≤ 125 at h
  rw [buildReadRegistersResponse_eq, hlen]
  simp only [h, true_and]
  rfl

theorem Call.run_rejected {call : Call} {ctx : Ctx} (h : (call.run ctx).rc < 0)
    : call.run ctx = ⟨⟨-1, call.req⟩, some ctx⟩ := by
  have hstep := call.run_step ctx
  generalize call.run ctx = built at h hstep
  cases hstep with
  | rejected => rfl
  | built rc m rest hrc hreq hcap => exact absurd h (by dsimp only; omega)

end Tcp.Frame

theorem frame_builders_agree
    : (∀ unitId call encode, call.encoder = some encode →
        ∃ adu, Rtu.Client.Frames unitId encode adu ∧
          Stores (Rtu.Frame.build unitId call) adu.length adu) ∧
      (∀ ctx unitId call encode, call.encoder = some encode →
        ∃ adu rc, 0 ≤ rc ∧ Tcp.Client.Frames (Tcp.Client.nextTid ctx.tid) unitId encode adu ∧
          Stores (fun req cap => (Tcp.Frame.build (some ctx) unitId call req cap).toBuilt) rc adu) ∧
      (∀ (cfg : Rtu.ServerConfig σ) stack srv fc unitId addr qty data pdu,
        let p := Rtu.serverOnProcess cfg stack srv
        srv.ctx.rxLen ≤ rtuMaxAduLength → framesOf p.events = [unitId :: pdu] →
        callsOf p.events = [.readRegisters fc addr qty] →
        cfg.handlers.Reads (stack.locals srv.state) srv.state fc addr qty data →
        ∃ adu, adusOf p.events = [adu] ∧
          Stores (Rtu.Frame.buildReadRegistersResponse fc unitId (some data) qty) adu.length adu) ∧
      (∀ (cfg : Tcp.ServerConfig σ) stack srv fc unitId tid addr qty data frame,
        let p := Tcp.serverOnProcess cfg stack srv
        framesOf p.events = [frame] → frame.take 2 = Pdu.u16Bytes tid → frame.getD 6 0 = unitId →
        callsOf p.events = [.readRegisters fc addr qty] →
        cfg.handlers.Reads (stack.locals srv.state) srv.state fc addr qty data →
        ∃ adu, adusOf p.events = [adu] ∧
          Stores (Tcp.Frame.buildReadRegistersResponse tid fc unitId (some data) qty) adu.length adu) ∧
      (∀ calls,
        let results := Tcp.Frame.runCalls calls Tcp.Frame.Ctx.started
        Tcp.Frame.tidsOf results
          = (List.range (Tcp.Frame.successes results)).map fun k => UInt16.ofNat (k % 65535 + 1)) ∧
      (∀ (call : Tcp.Frame.Call) ctx, (call.run ctx).rc < 0 →
        call.run ctx = ⟨⟨-1, call.req⟩, some ctx⟩) ∧
      (∀ unitId call, Bounded (Rtu.Frame.build unitId call)) ∧
      (∀ ctx unitId call, Bounded fun req cap => (Tcp.Frame.build ctx unitId call req cap).toBuilt) ∧
      (∀ fc unitId data qty, Bounded (Rtu.Frame.buildReadRegistersResponse fc unitId data qty)) ∧
      (∀ tid fc unitId data qty,
        Bounded (Tcp.Frame.buildReadRegistersResponse tid fc unitId data qty)) := by
  refine ⟨?_, ?_, ?_, ?_, Tcp.Frame.tidsOf_started, fun _ _ => Tcp.Frame.Call.run_rejected,
    Rtu.Frame.build_bounded, Tcp.Frame.build_bounded, Rtu.Frame.buildReadRegistersResponse_bounded,
    Tcp.Frame.buildReadRegistersResponse_bounded⟩
  . intro unitId call encode h
    exact ⟨_, Rtu.Client.frames_encoder h unitId, Rtu.Frame.build_stores (by rw [h]; rfl) unitId⟩
  . intro ctx unitId call encode h
    exact ⟨_, _, Tcp.Frame.returnCode_nonneg call, Tcp.Client.frames_encoder h _ unitId,
      Tcp.Frame.build_stores (by rw [h]; rfl) ctx unitId⟩
  . intro cfg stack srv fc unitId addr qty data pdu p hroom hframes hcalls hreads
    obtain ⟨hmax, hadu⟩ := Rtu.serverOnProcess_reads hroom hframes hcalls hreads
    exact ⟨_, hadu, Rtu.Frame.buildReadRegistersResponse_stores fc unitId data hmax⟩
  . intro cfg stack srv fc unitId tid addr qty data frame p hframes htid hunit hcalls hreads
    obtain ⟨hmax, hadu⟩ := Tcp.serverOnProcess_reads hframes htid hunit hcalls hreads
    exact ⟨_, hadu, Tcp.Frame.buildReadRegistersResponse_stores tid fc unitId data hmax⟩

-- A server that is asked for one register, which holds 7.
theorem read_frame_agrees
    : let p := Rtu.serverOnProcess (Rtu.sampleConfig 1) Rtu.sampleStack
        (Rtu.sampleServer ([1, 3, 0, 0, 0, 1, 0x84, 0x0A].map (⟨0, ·⟩)))
      ∃ adu, adusOf p.events = [adu] ∧
        Stores (Rtu.Frame.buildReadRegistersResponse 3 1 (some fun _ => 7) 1) adu.length adu := by
  have hagree := (@frame_builders_agree Unit).2.2.1
  exact hagree (Rtu.sampleConfig 1) Rtu.sampleStack
    (Rtu.sampleServer ([1, 3, 0, 0, 0, 1, 0x84, 0x0A].map (⟨0, ·⟩))) 3 1 0 1 (fun _ => 7)
    [3, 0, 0, 0, 1, 0x84, 0x0A] (by decide) (by decide +kernel) (by decide +kernel)
    ⟨fun _ _ _ _ s => ⟨0, fun _ => 7, s⟩, rfl, rfl, rfl⟩
