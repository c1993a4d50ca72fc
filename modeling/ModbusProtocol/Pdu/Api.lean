import Mathlib.Data.List.Forall2
import ModbusProtocol.Data.Scan
import ModbusProtocol.Pdu.Lemmas.Direct
import ModbusProtocol.Pdu.Read

/-!
This module contains the functions that the two clients offer to a program, which may call them with any
arguments: what they refuse and what they send. A pointer is an option, `none` for NULL.
-/

namespace Modbus

variable {S : Type}

structure WriteResult (S : Type) where
  rc : Int
  ses : Option S
  events : List Event

-- The functions of a client, those apart that connect it.
structure ClientApi (S : Type) where
  readHoldingRegisters : ReadFunction S UInt16
  readInputRegisters : ReadFunction S UInt16
  readCoils : ReadFunction S UInt8
  readDiscreteInputs : ReadFunction S UInt8
  writeSingleRegister : Option S → UInt16 → UInt16 → ReadBuffers → WriteResult S
  writeSingleCoil : Option S → UInt16 → UInt8 → ReadBuffers → WriteResult S
  writeMultipleRegisters : Option S → UInt16 → UInt16 → Option (Mem UInt16) → ReadBuffers → WriteResult S
  writeMultipleCoils : Option S → UInt16 → UInt16 → Option (Mem UInt8) → ReadBuffers → WriteResult S
  setUnitId : Option S → UInt8 → Int × Option S

-- A call of one of them that talks to a server.
inductive ApiCall where
  | readHoldingRegisters (addr qty : UInt16) (out : Option (Mem UInt16))
  | readInputRegisters (addr qty : UInt16) (out : Option (Mem UInt16))
  | readCoils (addr qty : UInt16) (out : Option (Mem UInt8))
  | readDiscreteInputs (addr qty : UInt16) (out : Option (Mem UInt8))
  | writeSingleRegister (addr value : UInt16)
  | writeSingleCoil (addr : UInt16) (value : UInt8)
  | writeMultipleRegisters (addr qty : UInt16) (data : Option (Mem UInt16))
  | writeMultipleCoils (addr qty : UInt16) (values : Option (Mem UInt8))

structure ApiResult (S : Type) where
  rc : Int
  registers : Option (Mem UInt16)
  bits : Option (Mem UInt8)
  ses : Option S
  events : List Event

namespace ApiCall

def make (api : ClientApi S) (ses : Option S) (buffers : ReadBuffers) (call : ApiCall) : ApiResult S :=
  match call with
  | .readHoldingRegisters addr qty out =>
    let result := api.readHoldingRegisters ses addr qty out buffers
    ⟨result.rc, result.out, none, result.ses, result.events⟩
  | .readInputRegisters addr qty out =>
    let result := api.readInputRegisters ses addr qty out buffers
    ⟨result.rc, result.out, none, result.ses, result.events⟩
  | .readCoils addr qty out =>
    let result := api.readCoils ses addr qty out buffers
    ⟨result.rc, none, result.out, result.ses, result.events⟩
  | .readDiscreteInputs addr qty out =>
    let result := api.readDiscreteInputs ses addr qty out buffers
    ⟨result.rc, none, result.out, result.ses, result.events⟩
  | .writeSingleRegister addr value =>
    let result := api.writeSingleRegister ses addr value buffers
    ⟨result.rc, none, none, result.ses, result.events⟩
  | .writeSingleCoil addr value =>
    let result := api.writeSingleCoil ses addr value buffers
    ⟨result.rc, none, none, result.ses, result.events⟩
  | .writeMultipleRegisters addr qty data =>
    let result := api.writeMultipleRegisters ses addr qty data buffers
    ⟨result.rc, none, none, result.ses, result.events⟩
  | .writeMultipleCoils addr qty values =>
    let result := api.writeMultipleCoils ses addr qty values buffers
    ⟨result.rc, none, none, result.ses, result.events⟩

-- Where the caller wants the answer.
def registers : ApiCall → Option (Mem UInt16)
  | .readHoldingRegisters _ _ out | .readInputRegisters _ _ out => out
  | _ => none

def bits : ApiCall → Option (Mem UInt8)
  | .readCoils _ _ out | .readDiscreteInputs _ _ out => out
  | _ => none

def out (call : ApiCall) : Pdu.Out :=
  ⟨call.registers.getD fun _ => 0, call.bits.getD fun _ => 0⟩

-- What the caller has asked for, if its arguments are good for anything.
def operation : ApiCall → Option Pdu.Operation
  | .readHoldingRegisters addr qty out =>
    if h : out.isSome ∧ 1 ≤ qty.toNat ∧ qty.toNat ≤ maxReadRegisters then
      some (.readRegisters funcReadHoldingRegisters addr qty Pdu.holding_registers h.2.1 h.2.2)
    else
      none
  | .readInputRegisters addr qty out =>
    if h : out.isSome ∧ 1 ≤ qty.toNat ∧ qty.toNat ≤ maxReadRegisters then
      some (.readRegisters funcReadInputRegisters addr qty Pdu.input_registers h.2.1 h.2.2)
    else
      none
  | .readCoils addr qty out =>
    if h : out.isSome ∧ 1 ≤ qty.toNat ∧ qty.toNat ≤ maxReadBits then
      some (.readBits funcReadCoils addr qty Pdu.coils_bits h.2.1 h.2.2)
    else
      none
  | .readDiscreteInputs addr qty out =>
    if h : out.isSome ∧ 1 ≤ qty.toNat ∧ qty.toNat ≤ maxReadBits then
      some (.readBits funcReadDiscreteInputs addr qty Pdu.discreteInputs_bits h.2.1 h.2.2)
    else
      none
  | .writeSingleRegister addr value => some (.writeSingleRegister addr value)
  | .writeSingleCoil addr value => some (.writeSingleCoil addr value)
  | .writeMultipleRegisters addr qty data =>
    data.bind fun data =>
      if h : 1 ≤ qty.toNat ∧ qty.toNat ≤ maxWriteRegisters then
        some (.writeMultipleRegisters addr qty data h.1 h.2)
      else
        none
  | .writeMultipleCoils addr qty values =>
    values.bind fun values =>
      if h : 1 ≤ qty.toNat ∧ qty.toNat ≤ maxWriteBits then
        some (.writeMultipleCoils addr qty values h.1 h.2)
      else
        none

end ApiCall

-- What comes of an operation.
structure Done (S : Type) where
  rc : Int
  out : Pdu.Out
  ses : S
  events : List Event

-- A call either asks for an operation, which is performed, or nothing comes of it.
structure ClientApi.Lawful (api : ClientApi S)
    (perform : S → Pdu.Operation → ReadBuffers → Pdu.Out → Done S) (errArg : Int) : Prop where
  refused : ∀ (call : ApiCall) ses buffers, ses = none ∨ call.operation = none →
    call.make api ses buffers = ⟨errArg, call.registers, call.bits, ses, []⟩
  performed : ∀ (call : ApiCall) ses buffers op, call.operation = some op →
    let done := perform ses op buffers call.out
    call.make api (some ses) buffers
      = ⟨done.rc, call.registers.map fun _ => done.out.registers, call.bits.map fun _ => done.out.bits,
          some done.ses, done.events⟩

-- What both clients are, over the transaction of a request PDU.
def Transaction.written (t : Transaction S) : WriteResult S :=
  ⟨t.rc, some t.ses, t.events⟩

def writeSingleWith (errArg : Int) (transact : S → Transaction S) (ses : Option S) : WriteResult S :=
  match ses with
  | none => ⟨errArg, none, []⟩
  | some ses => (transact ses).written

def writeMultipleWith {α : Type} (errArg : Int) (limit : Nat) (transact : S → α → Transaction S)
    (ses : Option S) (qty : UInt16) (data : Option α) : WriteResult S :=
  match ses, data with
  | some ses, some data =>
    if qty = 0 ∨ qty.toNat > limit then
      ⟨errArg, some ses, []⟩
    else
      (transact ses data).written
  | ses, _ => ⟨errArg, ses, []⟩

section

variable (errArg : Int) (transact : S → Mem UInt8 × Nat → ReadBuffers → Transaction S)
variable (setUnitId : Option S → UInt8 → Int × Option S)

def readRegistersWith (fc : UInt8) : ReadFunction S UInt16 :=
  readWith errArg maxReadRegisters (fun qty resp out => Pdu.getRegisters resp qty out)
    fun ses addr qty buffers => transact ses (Pdu.buildRead buffers.pdu fc addr qty) buffers

def readBitsWith (fc : UInt8) : ReadFunction S UInt8 :=
  readWith errArg maxReadBits (fun qty resp out => Pdu.getBits resp qty out)
    fun ses addr qty buffers => transact ses (Pdu.buildRead buffers.pdu fc addr qty) buffers

def ClientApi.over : ClientApi S where
  readHoldingRegisters := readRegistersWith errArg transact funcReadHoldingRegisters
  readInputRegisters := readRegistersWith errArg transact funcReadInputRegisters
  readCoils := readBitsWith errArg transact funcReadCoils
  readDiscreteInputs := readBitsWith errArg transact funcReadDiscreteInputs
  writeSingleRegister := fun ses addr value buffers => writeSingleWith errArg (fun ses =>
    transact ses (Pdu.buildWriteSingle buffers.pdu funcWriteSingleRegister addr value) buffers) ses
  writeSingleCoil := fun ses addr value buffers => writeSingleWith errArg (fun ses =>
    transact ses (Pdu.buildWriteSingle buffers.pdu funcWriteSingleCoil addr
      (if value ≠ 0 then coilOn else coilOff)) buffers) ses
  writeMultipleRegisters := fun ses addr qty data buffers =>
    writeMultipleWith errArg maxWriteRegisters (fun ses data =>
      transact ses (Pdu.buildWriteRegisters buffers.pdu addr qty data) buffers) ses qty data
  writeMultipleCoils := fun ses addr qty values buffers =>
    writeMultipleWith errArg maxWriteBits (fun ses values =>
      transact ses (Pdu.buildWriteCoils buffers.pdu addr qty values) buffers) ses qty values
  setUnitId := setUnitId

def performOver (ses : S) (op : Pdu.Operation) (buffers : ReadBuffers) (out : Pdu.Out) : Done S :=
  let t := transact ses (op.build buffers.pdu) buffers
  ⟨t.rc, if t.rc = 0 then op.decode t.resp out else out, t.ses, t.events⟩

variable {α : Type} {limit : Nat} {get : UInt16 → Mem UInt8 → Mem α → Mem α} {errArg}
variable {t : S → UInt16 → UInt16 → ReadBuffers → Transaction S}

theorem qty_refused {qty : UInt16} {limit : Nat} (h : ¬(1 ≤ qty.toNat ∧ qty.toNat ≤ limit))
    : qty = 0 ∨ qty.toNat > limit := by
  by_cases hzero : qty.toNat = 0
  . exact .inl (UInt16.toNat_inj.mp hzero)
  . exact .inr (by omega)

theorem qty_admitted {qty : UInt16} {limit : Nat} (h : 1 ≤ qty.toNat ∧ qty.toNat ≤ limit)
    : ¬(qty = 0 ∨ qty.toNat > limit) := by
  rintro (hzero | hmore)
  . rw [hzero] at h
    exact absurd h.1 (by decide)
  . omega

theorem readWith_refused {ses : Option S} {addr qty : UInt16} {out : Option (Mem α)}
    {buffers : ReadBuffers}
    (h : ses = none ∨ ¬(out.isSome ∧ 1 ≤ qty.toNat ∧ qty.toNat ≤ limit))
    : readWith errArg limit get t ses addr qty out buffers = ⟨errArg, out, ses, []⟩ := by
  unfold readWith
  cases ses with
  | none => rfl
  | some ses =>
    cases out with
    | none => rfl
    | some out =>
      have hqty : ¬(1 ≤ qty.toNat ∧ qty.toNat ≤ limit) := by
        intro hqty
        obtain h | h := h
        . contradiction
        . exact h ⟨rfl, hqty⟩
      dsimp only
      rw [if_pos (qty_refused hqty)]

theorem readWith_performed {ses : S} {addr qty : UInt16} {out : Option (Mem α)} {buffers : ReadBuffers}
    (h : out.isSome ∧ 1 ≤ qty.toNat ∧ qty.toNat ≤ limit) (fallback : Mem α)
    : let result := t ses addr qty buffers
      readWith errArg limit get t (some ses) addr qty out buffers
        = ⟨result.rc, out.map fun _ => if result.rc = 0 then get qty result.resp (out.getD fallback)
            else out.getD fallback, some result.ses, result.events⟩ := by
  unfold readWith
  cases out with
  | none => exact absurd h.1 (by simp)
  | some out =>
    dsimp only
    rw [if_neg (qty_admitted h.2)]
    rfl

theorem readRegistersWith_performed {fc : UInt8}
    (hfc : fc = funcReadHoldingRegisters ∨ fc = funcReadInputRegisters) {ses : S} {addr qty : UInt16}
    {out : Option (Mem UInt16)} {buffers : ReadBuffers}
    (h : out.isSome ∧ 1 ≤ qty.toNat ∧ qty.toNat ≤ maxReadRegisters) (bits : Mem UInt8)
    : let done := performOver transact ses (.readRegisters fc addr qty hfc h.2.1 h.2.2) buffers
        ⟨out.getD fun _ => 0, bits⟩
      readRegistersWith errArg transact fc (some ses) addr qty out buffers
        = ⟨done.rc, out.map fun _ => done.out.registers, some done.ses, done.events⟩ := by
  unfold readRegistersWith
  rw [readWith_performed h fun _ => 0]
  dsimp only [performOver, Pdu.Operation.build, Pdu.Operation.decode]
  by_cases hok : (transact ses (Pdu.buildRead buffers.pdu fc addr qty) buffers).rc = 0
  . simp only [hok, ↓reduceIte]
  . simp only [hok, ↓reduceIte]

theorem readBitsWith_performed {fc : UInt8} (hfc : fc = funcReadCoils ∨ fc = funcReadDiscreteInputs)
    {ses : S} {addr qty : UInt16} {out : Option (Mem UInt8)} {buffers : ReadBuffers}
    (h : out.isSome ∧ 1 ≤ qty.toNat ∧ qty.toNat ≤ maxReadBits) (registers : Mem UInt16)
    : let done := performOver transact ses (.readBits fc addr qty hfc h.2.1 h.2.2) buffers
        ⟨registers, out.getD fun _ => 0⟩
      readBitsWith errArg transact fc (some ses) addr qty out buffers
        = ⟨done.rc, out.map fun _ => done.out.bits, some done.ses, done.events⟩ := by
  unfold readBitsWith
  rw [readWith_performed h fun _ => 0]
  dsimp only [performOver, Pdu.Operation.build, Pdu.Operation.decode]
  by_cases hok : (transact ses (Pdu.buildRead buffers.pdu fc addr qty) buffers).rc = 0
  . simp only [hok, ↓reduceIte]
  . simp only [hok, ↓reduceIte]

theorem writeMultipleWith_refused {transact : S → α → Transaction S} {ses : Option S} {qty : UInt16}
    {data : Option α} (h : ses = none ∨ ¬(data.isSome ∧ 1 ≤ qty.toNat ∧ qty.toNat ≤ limit))
    : writeMultipleWith errArg limit transact ses qty data = ⟨errArg, ses, []⟩ := by
  unfold writeMultipleWith
  cases ses with
  | none => rfl
  | some ses =>
    cases data with
    | none => rfl
    | some data =>
      have hqty : ¬(1 ≤ qty.toNat ∧ qty.toNat ≤ limit) := by
        intro hqty
        obtain h | h := h
        . contradiction
        . exact h ⟨rfl, hqty⟩
      dsimp only
      rw [if_pos (qty_refused hqty)]

theorem writeMultipleWith_performed {transact : S → α → Transaction S} {ses : S} {qty : UInt16} {data : α}
    (h : 1 ≤ qty.toNat ∧ qty.toNat ≤ limit)
    : writeMultipleWith errArg limit transact (some ses) qty (some data)
        = (transact ses data).written := by
  unfold writeMultipleWith
  dsimp only
  rw [if_neg (qty_admitted h)]

variable (errArg)

theorem ClientApi.over_refused (call : ApiCall) (ses : Option S) (buffers : ReadBuffers)
    (h : ses = none ∨ call.operation = none)
    : call.make (ClientApi.over errArg transact setUnitId) ses buffers
        = ⟨errArg, call.registers, call.bits, ses, []⟩ := by
  have hfailed : ∀ {p : Prop} [Decidable p] {op : p → Pdu.Operation},
      (if h : p then some (op h) else none) = none → ¬p := by
    intro p _ op hnone hp
    rw [dif_pos hp] at hnone
    contradiction
  unfold ApiCall.make
  cases call with
  | readHoldingRegisters addr qty out =>
    dsimp only [ClientApi.over, readRegistersWith]
    rw [readWith_refused (h.imp_right hfailed)]
    rfl
  | readInputRegisters addr qty out =>
    dsimp only [ClientApi.over, readRegistersWith]
    rw [readWith_refused (h.imp_right hfailed)]
    rfl
  | readCoils addr qty out =>
    dsimp only [ClientApi.over, readBitsWith]
    rw [readWith_refused (h.imp_right hfailed)]
    rfl
  | readDiscreteInputs addr qty out =>
    dsimp only [ClientApi.over, readBitsWith]
    rw [readWith_refused (h.imp_right hfailed)]
    rfl
  | writeSingleRegister addr value =>
    obtain h | h := h
    . rw [h]
      rfl
    . contradiction
  | writeSingleCoil addr value =>
    obtain h | h := h
    . rw [h]
      rfl
    . contradiction
  | writeMultipleRegisters addr qty data =>
    dsimp only [ClientApi.over]
    rw [writeMultipleWith_refused]
    . rfl
    . refine h.imp_right ?_
      intro hnone hdata
      obtain ⟨data, rfl⟩ := Option.isSome_iff_exists.mp hdata.1
      exact hfailed hnone hdata.2
  | writeMultipleCoils addr qty values =>
    dsimp only [ClientApi.over]
    rw [writeMultipleWith_refused]
    . rfl
    . refine h.imp_right ?_
      intro hnone hvalues
      obtain ⟨values, rfl⟩ := Option.isSome_iff_exists.mp hvalues.1
      exact hfailed hnone hvalues.2

theorem ClientApi.over_performed (call : ApiCall) (ses : S) (buffers : ReadBuffers) (op : Pdu.Operation)
    (h : call.operation = some op)
    : let done := performOver transact ses op buffers call.out
      call.make (ClientApi.over errArg transact setUnitId) (some ses) buffers
        = ⟨done.rc, call.registers.map fun _ => done.out.registers, call.bits.map fun _ => done.out.bits,
            some done.ses, done.events⟩ := by
  have hpassed : ∀ {p : Prop} [Decidable p] {op : p → Pdu.Operation} {op' : Pdu.Operation},
      (if h : p then some (op h) else none) = some op' → ∃ hp : p, op hp = op' := by
    intro p _ op op' hsome
    by_cases hp : p
    . rw [dif_pos hp] at hsome
      exact ⟨hp, Option.some.inj hsome⟩
    . rw [dif_neg hp] at hsome
      contradiction
  unfold ApiCall.make
  cases call with
  | readHoldingRegisters addr qty out =>
    obtain ⟨hargs, rfl⟩ := hpassed h
    dsimp only [ClientApi.over]
    rw [readRegistersWith_performed transact (.inl rfl) hargs fun _ => 0]
    rfl
  | readInputRegisters addr qty out =>
    obtain ⟨hargs, rfl⟩ := hpassed h
    dsimp only [ClientApi.over]
    rw [readRegistersWith_performed transact (.inr rfl) hargs fun _ => 0]
    rfl
  | readCoils addr qty out =>
    obtain ⟨hargs, rfl⟩ := hpassed h
    dsimp only [ClientApi.over]
    rw [readBitsWith_performed transact (.inl rfl) hargs fun _ => 0]
    rfl
  | readDiscreteInputs addr qty out =>
    obtain ⟨hargs, rfl⟩ := hpassed h
    dsimp only [ClientApi.over]
    rw [readBitsWith_performed transact (.inr rfl) hargs fun _ => 0]
    rfl
  | writeSingleRegister addr value =>
    injection h with h
    subst h
    rfl
  | writeSingleCoil addr value =>
    injection h with h
    subst h
    rfl
  | writeMultipleRegisters addr qty data =>
    cases data with
    | none => contradiction
    | some data =>
      obtain ⟨hqty, rfl⟩ := hpassed h
      dsimp only [ClientApi.over]
      rw [writeMultipleWith_performed hqty]
      rfl
  | writeMultipleCoils addr qty values =>
    cases values with
    | none => contradiction
    | some values =>
      obtain ⟨hqty, rfl⟩ := hpassed h
      dsimp only [ClientApi.over]
      rw [writeMultipleWith_performed hqty]
      rfl

theorem ClientApi.over_lawful
    : (ClientApi.over errArg transact setUnitId).Lawful (performOver transact) errArg := by
  constructor
  . apply ClientApi.over_refused
  . apply ClientApi.over_performed

end

-- What a program does with a client.
inductive ApiAct where
  | request (call : ApiCall) (buffers : ReadBuffers)
  | setUnitId (unitId : UInt8)
  | pause (us : Nat)

def ApiAct.operation : ApiAct → Option Pdu.Operation
  | .request call _ => call.operation
  | _ => none

def ClientApi.act (api : ClientApi S) (pass : Nat → S → S) (act : ApiAct) (ses : S) : S × List Event :=
  match act with
  | .request call buffers =>
    let result := call.make api (some ses) buffers
    (result.ses.getD ses, result.events)
  | .setUnitId unitId => ((api.setUnitId (some ses) unitId).2.getD ses, [])
  | .pause us => (pass us ses, [])

section

variable {api : ClientApi S} {perform : S → Pdu.Operation → ReadBuffers → Pdu.Out → Done S} {errArg : Int}
variable (pass : Nat → S → S)

theorem ClientApi.Lawful.act_performed (h : api.Lawful perform errArg) {call : ApiCall}
    {op : Pdu.Operation} (hop : call.operation = some op) (buffers : ReadBuffers) (ses : S)
    : api.act pass (.request call buffers) ses
        = ((perform ses op buffers call.out).ses, (perform ses op buffers call.out).events) := by
  unfold ClientApi.act
  dsimp only
  rw [h.performed call ses buffers op hop]
  rfl

theorem ClientApi.Lawful.act_refused (h : api.Lawful perform errArg) {call : ApiCall}
    (hop : call.operation = none) (buffers : ReadBuffers) (ses : S)
    : api.act pass (.request call buffers) ses = (ses, []) := by
  unfold ClientApi.act
  dsimp only
  rw [h.refused call (some ses) buffers (.inr hop)]
  rfl

-- Each request that is sent asks for what one of the calls has asked for, in the order of the calls.
theorem ClientApi.Lawful.run_sends (h : api.Lawful perform errArg)
    {Request : List UInt8 → Pdu.Operation → Prop}
    (hsends : ∀ ses op buffers out, adusOf (perform ses op buffers out).events = [] ∨
      ∃ adu, adusOf (perform ses op buffers out).events = [adu] ∧ Request adu op)
    (acts : List ApiAct) (ses : S)
    : List.SublistForall₂ Request (adusOf (transduce (api.act pass) acts ses).2)
        (acts.filterMap ApiAct.operation) := by
  induction acts generalizing ses with
  | nil => exact .nil
  | cons act acts ih =>
    unfold transduce
    dsimp only
    rw [adusOf_append]
    have hrest := ih (api.act pass act ses).1
    have hquiet : act.operation = none → adusOf (api.act pass act ses).2 = [] →
        List.SublistForall₂ Request (adusOf (api.act pass act ses).2 ++
            adusOf (transduce (api.act pass) acts (api.act pass act ses).1).2)
          ((act :: acts).filterMap ApiAct.operation) := by
      intro hop hnone
      rw [hnone, List.filterMap_cons_none hop]
      exact hrest
    cases act with
    | setUnitId unitId => exact hquiet rfl rfl
    | pause us => exact hquiet rfl rfl
    | request call buffers =>
      cases hop : call.operation with
      | none =>
        apply hquiet hop
        rw [h.act_refused pass hop]
        rfl
      | some op =>
        have hact : (ApiAct.request call buffers).operation = some op := hop
        rw [List.filterMap_cons_some hact]
        rw [h.act_performed pass hop] at hrest ⊢
        obtain hnone | ⟨adu, hadu, hrequest⟩ := hsends ses op buffers call.out
        . rw [hnone]
          exact .cons_right hrest
        . rw [hadu]
          exact .cons hrequest hrest

end

end Modbus
