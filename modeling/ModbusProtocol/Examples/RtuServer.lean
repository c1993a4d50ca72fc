import ModbusProtocol.Examples.Bank
import ModbusProtocol.Rtu.Lemmas.System

/-!
This module contains the callbacks of `rtu_server_example.c`, and what the example is on a serial line: a
bank of registers. Its output and its mutex are left out.
-/

open Modbus Posix

namespace RtuServerExample

@[simp] abbrev regTemperature : Nat := 0x00
@[simp] abbrev regStatus : Nat := 0x01
@[simp] abbrev regBankSize : Nat := 32

-- `server_app_ctx_t`. Nothing bounds the index, the callbacks do.
structure ServerAppCtx where
  regBank : Mem UInt16

def onRead (_functionCode : UInt8) (addr qty : UInt16) (out : Mem UInt16) (app : ServerAppCtx)
    : Pdu.ReadReturn UInt16 ServerAppCtx :=
  if addr.toNat + qty.toNat > regBankSize then
    ⟨exIllegalDataAddress.toNat, out, app⟩
  else
    let regBank := app.regBank.set regTemperature 253
    let regBank := regBank.set regStatus 0x0001
    let out := (List.range qty.toNat).foldl (fun out i => out.set i (regBank (addr.toNat + i))) out
    ⟨0, out, ⟨regBank⟩⟩

def onWrite (addr qty : UInt16) (data : List UInt16) (app : ServerAppCtx)
    : Pdu.WriteReturn ServerAppCtx :=
  if addr.toNat + qty.toNat > regBankSize then
    ⟨exIllegalDataAddress.toNat, app⟩
  else
    let regBank := (List.range qty.toNat).foldl
      (fun regBank i => regBank.set (addr.toNat + i) (data.getD i 0)) app.regBank
    ⟨0, ⟨regBank⟩⟩

-- The callbacks that `main` configures the server with.
def handlers : Pdu.Handlers ServerAppCtx where
  readRegisters := some onRead
  writeRegisters := some onWrite
  readBits := none
  writeBits := none

-- memset(&app_ctx, 0, sizeof(app_ctx))
def zeroed : ServerAppCtx :=
  ⟨fun _ => 0⟩

-- The registers that are refreshed by every read.
def measured (r : Nat) : Option UInt16 :=
  if r = regTemperature then some 253 else if r = regStatus then some 1 else none

-- What an operation leaves in a register.
def stored (op : Pdu.Operation) (r : Nat) : Option UInt16 :=
  match op with
  | .readRegisters _ addr qty .. => if addr.toNat + qty.toNat ≤ regBankSize then measured r else none
  | .writeSingleRegister addr value =>
    if addr.toNat + 1 ≤ regBankSize ∧ r = addr.toNat then some value else none
  | .writeMultipleRegisters addr qty data .. =>
    if addr.toNat + qty.toNat ≤ regBankSize ∧ addr.toNat ≤ r ∧ r < addr.toNat + qty.toNat then
      some (data (r - addr.toNat))
    else
      none
  | _ => none

theorem set_measured (m : Mem UInt16) (r : Nat)
    : ((m.set regTemperature 253).set regStatus 1) r = (measured r).getD (m r) := by
  unfold measured Mem.set
  by_cases htemperature : r = regTemperature
  . rw [if_pos htemperature, htemperature]
    rfl
  . rw [if_neg htemperature]
    by_cases hstatus : r = regStatus
    . rw [if_pos hstatus, hstatus]
      rfl
    . rw [if_neg hstatus, Function.update_of_ne hstatus, Function.update_of_ne htemperature]
      rfl

-- What the callbacks make of the registers.
def bank : RegisterBank ServerAppCtx where
  size := regBankSize
  cells := ServerAppCtx.regBank
  refresh := fun app => ⟨(app.regBank.set regTemperature 253).set regStatus 1⟩
  store := fun regBank _ => ⟨regBank⟩
  cells_store := fun _ _ => rfl
  size_le := by decide

theorem handlers_eq
    : handlers = bank.handlers := by
  rfl

-- A direct call of the example.
section

variable (locals : Pdu.Locals) (out : Pdu.Out) (app : ServerAppCtx)

theorem onWrite_stored (addr qty : UInt16) (data : List UInt16) (r : Nat)
    : (onWrite addr qty data app).state.regBank r
        = if addr.toNat + qty.toNat ≤ regBankSize ∧ addr.toNat ≤ r ∧ r < addr.toNat + qty.toNat then
            data.getD (r - addr.toNat) 0
          else
            app.regBank r := by
  apply bank.onWrite_cells addr qty data app r

theorem onRead_stored (fc : UInt8) (addr qty : UInt16) (buf : Mem UInt16) (r : Nat)
    : (onRead fc addr qty buf app).state.regBank r
        = if addr.toNat + qty.toNat ≤ regBankSize then (measured r).getD (app.regBank r)
          else app.regBank r := by
  have hread := bank.onRead_state fc addr qty buf app
  change (onRead fc addr qty buf app).state
    = if addr.toNat + qty.toNat ≤ regBankSize then bank.refresh app else app at hread
  rw [hread]
  split
  . apply set_measured
  . rfl

-- A callback that has been called has seen an address range that does not overflow.
theorem directCall_state {op : Pdu.Operation} {ret : Pdu.Direct ServerAppCtx}
    (h : handlers.callDirectly locals op out app = some ret)
    : (Pdu.directCall handlers locals op out app).state = if op.overflows then app else ret.state := by
  unfold Pdu.directCall
  rw [h]
  dsimp only
  split
  . rfl
  . split
    . rfl
    . rfl

theorem directCall_stored (op : Pdu.Operation) (r : Nat)
    : (Pdu.directCall handlers locals op out app).state.regBank r
        = (stored op r).getD (app.regBank r) := by
  cases op with
  | readBits fc addr qty hfc hpos hmax => rfl
  | readRegisters fc addr qty hfc hpos hmax =>
    rw [directCall_state locals out app rfl]
    unfold stored
    dsimp only
    by_cases hover : (Pdu.Operation.readRegisters fc addr qty hfc hpos hmax).overflows
    . have hroom : ¬addr.toNat + qty.toNat ≤ regBankSize := by
        change addr.toNat + qty.toNat > 65536 at hover
        change ¬_ ≤ 32
        omega
      rw [if_pos hover, if_neg hroom]
      rfl
    . rw [if_neg hover, onRead_stored]
      split
      . rfl
      . rfl
  | writeSingleCoil addr value => rfl
  | writeSingleRegister addr value =>
    have hover : ¬(Pdu.Operation.writeSingleRegister addr value).overflows := fun h => h
    rw [directCall_state locals out app rfl, if_neg hover]
    unfold stored
    dsimp only
    rw [onWrite_stored]
    by_cases hin : addr.toNat + 1 ≤ regBankSize ∧ r = addr.toNat
    . rw [if_pos hin, if_pos ⟨hin.1, by omega, by change r < addr.toNat + 1; omega⟩, hin.2, Nat.sub_self]
      rfl
    . rw [if_neg hin, if_neg]
      . rfl
      . intro h
        apply hin
        have hr : r < addr.toNat + 1 := h.2.2
        exact ⟨h.1, by omega⟩
  | writeMultipleCoils addr qty values hpos hmax => rfl
  | writeMultipleRegisters addr qty data hpos hmax =>
    rw [directCall_state locals out app rfl]
    unfold stored
    dsimp only
    by_cases hover : (Pdu.Operation.writeMultipleRegisters addr qty data hpos hmax).overflows
    . have hroom : ¬addr.toNat + qty.toNat ≤ regBankSize := by
        change addr.toNat + qty.toNat > 65536 at hover
        change ¬_ ≤ 32
        omega
      rw [if_pos hover, if_neg (fun h => hroom h.1)]
      rfl
    . rw [if_neg hover, onWrite_stored]
      by_cases hin : addr.toNat + qty.toNat ≤ regBankSize ∧ addr.toNat ≤ r ∧ r < addr.toNat + qty.toNat
      . rw [if_pos hin, if_pos hin, List.getD_eq_getElem?_getD]
        rw [Mem.getElem?_slice _ _ _ _ (by omega), Nat.zero_add]
        rfl
      . rw [if_neg hin, if_neg hin]
        rfl

end

-- The example as one of the servers on a line.
section

variable {n : Nat} {κ : Type} {wiring : Rtu.Wiring n ServerAppCtx} {i : Fin n}

-- What a call leaves in a register of server `i`.
def reached (wiring : Rtu.Wiring n ServerAppCtx) (i : Fin n) (call : Pdu.RemoteCall) (r : Nat)
    : Option UInt16 :=
  if call.unitId = rtuBroadcastAddress then
    if Pdu.isWrite call.op.fc then stored call.op r else none
  else if (wiring.cfgs i).unitId = call.unitId then
    stored call.op r
  else
    none

theorem directly_stores (haddressed : Rtu.Addressed wiring.cfgs)
    (hexample : (wiring.cfgs i).handlers = handlers)
    : Stores wiring.directly (fun s r => (s i).1.regBank r) (reached wiring i) := by
  constructor
  intro call s r
  unfold reached
  by_cases hbroadcast : call.unitId = rtuBroadcastAddress
  . rw [if_pos hbroadcast]
    cases hwrite : Pdu.isWrite call.op.fc with
    | false =>
      rw [Rtu.Wiring.directly_refused hbroadcast hwrite]
      rfl
    | true =>
      rw [Rtu.Wiring.directly_broadcast hbroadcast hwrite]
      dsimp only
      rw [hexample, directCall_stored]
      rfl
  . rw [if_neg hbroadcast]
    by_cases hnobody : ∃ j, (wiring.cfgs j).unitId = call.unitId
    . obtain ⟨j, hj⟩ := hnobody
      rw [Rtu.Wiring.directly_unicast hbroadcast haddressed hj]
      dsimp only
      by_cases hi : i = j
      . subst hi
        rw [if_pos hj, Function.update_self, hexample, directCall_stored]
      . have hother : (wiring.cfgs i).unitId ≠ call.unitId := by
          intro hsame
          exact hi (haddressed.distinct i j (hsame.trans hj.symm))
        rw [if_neg hother, Function.update_of_ne hi]
        rfl
    . rw [not_exists] at hnobody
      rw [Rtu.Wiring.directly_nobody hbroadcast hnobody, if_neg (hnobody i)]
      rfl

theorem length_directly (call : Pdu.RemoteCall) (s : Fin n → ServerAppCtx × List Pdu.Call)
    : (wiring.directly call s).2.length = 1 := by
  unfold Rtu.Wiring.directly
  dsimp only
  split
  . split
    . rfl
    . rfl
  . split
    . rfl
    . rfl

theorem made_answered {made : Rtu.Made} {rc : Int} {out : Pdu.Out} (h : made.answer = some (rc, out))
    : made.result.rc = rc ∧ made.result.out = out := by
  unfold Rtu.Made.answer at h
  split at h
  . injection h with h
    injection h with hrc hout
    exact ⟨hrc, hout⟩
  . contradiction

-- On a line on which everything comes in time the example is a bank of registers: each holds what has been
-- written to it last, the measured ones what the last read has found, and that is what a read returns.
theorem example_is_bank [DecidableEq κ] (haddressed : Rtu.Addressed wiring.cfgs)
    (hexample : (wiring.cfgs i).handlers = handlers) {attempts : List (Rtu.Attempt n κ)}
    {sys : Rtu.System n κ ServerAppCtx} (hroom : sys.Roomy)
    (h : Throughout wiring.step wiring.Timely attempts sys)
    : let run := transduce wiring.step attempts sys
      let holds := fun (calls : List Pdu.RemoteCall) r =>
        (lastWritten (reached wiring i) calls r).getD ((sys.servers i).state.regBank r)
      (∀ r, (run.1.servers i).state.regBank r = holds (run.2.map Rtu.Made.call) r) ∧
      ∀ before made after, run.2 = before ++ made :: after →
        made.unitId ≠ rtuBroadcastAddress → made.unitId = (wiring.cfgs i).unitId →
        ∀ fc addr qty hfc hpos hmax, made.query.op = .readRegisters fc addr qty hfc hpos hmax →
          if addr.toNat + qty.toNat ≤ regBankSize then
            made.result.rc = 0 ∧ ∀ j < qty.toNat, made.result.out.registers j
              = holds ((before ++ [made]).map Rtu.Made.call) (addr.toNat + j)
          else
            made.result.rc = 2 ∧ made.result.out = made.query.out := by
  have hrun := (Rtu.Wiring.refines haddressed).run hroom h
  have hstores := directly_stores haddressed hexample
  constructor
  . intro r
    have hcell := hstores.run ((transduce wiring.step attempts sys).2.map Rtu.Made.call) sys.view r
    rw [hrun] at hcell
    exact hcell
  . intro before made after hsplit hunicast hunit fc addr qty hfc hpos hmax hop
    rw [hsplit, List.map_append, List.map_cons, List.map_append, List.map_cons] at hrun
    have hanswer := transduce_split length_directly hrun (by simp)
    have hcalled : made.call.unitId ≠ rtuBroadcastAddress := hunicast
    have hdirect := Rtu.Wiring.directly_unicast hcalled haddressed hunit.symm
      (transduce wiring.directly (before.map Rtu.Made.call) sys.view).1
    dsimp only at hdirect
    have hread := bank.directCall_read
      ((wiring.buffers i).locals ((transduce wiring.directly (before.map Rtu.Made.call) sys.view).1 i).1)
      addr hfc hpos hmax made.query.out
      ((transduce wiring.directly (before.map Rtu.Made.call) sys.view).1 i).1
    rw [← hop, ← handlers_eq, ← hexample] at hread
    have hcell := fun r => hstores.run (before.map Rtu.Made.call ++ [made.call]) sys.view r
    simp only [transduce_append, transduce_singleton] at hcell
    rw [List.map_append, List.map_singleton]
    change (wiring.directly made.call _).2 = _ at hanswer
    change wiring.directly made.call _ = _ at hdirect
    rw [hdirect] at hanswer hcell
    injection hanswer with hanswer
    obtain ⟨hrc, hout⟩ := made_answered hanswer.symm
    simp only [Function.update_self] at hcell
    rw [hrc, hout]
    dsimp only at hread ⊢
    split
    . next hin =>
      have hin' : addr.toNat + qty.toNat ≤ bank.size := hin
      rw [if_pos hin'] at hread
      refine ⟨hread.1, ?_⟩
      intro j hj
      have hregister := hread.2.2 j hj
      rw [← hread.2.1] at hregister
      exact hregister.trans (hcell _)
    . next hin =>
      have hout' : ¬addr.toNat + qty.toNat ≤ bank.size := hin
      rw [if_neg hout'] at hread
      exact ⟨hread.1, hread.2.2⟩

end

def exampleServer (unitId : UInt8) : Rtu.ServerConfig ServerAppCtx where
  unitId := unitId
  recvTimeoutMs := 0
  interFrameDelayUs := 0
  localEcho := false
  onTxEnable := false
  handlers := handlers

def exampleWiring : Rtu.Wiring 2 ServerAppCtx where
  cfgs := fun i => exampleServer (if i.val = 0 then 1 else 2)
  buffers := fun _ => Rtu.sampleStack
  twoWires := true

def exampleSystem : Rtu.System 2 Bool ServerAppCtx where
  ctxs := Rtu.pairSystem.ctxs
  bus := Rtu.pairSystem.bus
  line := Rtu.pairSystem.line
  servers := fun _ => ⟨⟨fun _ => 0, 0, 0, 3646⟩, zeroed, ⟨1, [], [], [], none⟩⟩
  calls := fun _ => []

-- A broadcast write and a read.
def exampleAttempts : List (Rtu.Attempt 2 Bool) :=
  [Rtu.pairAttempt false (.writeSingleRegister 10 7) 3000000, Rtu.pairAttempt true RegisterBank.readEleven 6000000]

theorem example_is_bank_broadcast
    : let run := transduce exampleWiring.step exampleAttempts exampleSystem
      run.2.map (fun made => (made.result.rc, made.result.out.registers 0, made.result.out.registers 10))
        = [(0, 0, 0), (0, 253, 7)] ∧
      ∀ r, (run.1.servers 1).state.regBank r
        = (lastWritten (reached exampleWiring 1) (run.2.map Rtu.Made.call) r).getD 0 := by
  refine ⟨?_, ?_⟩
  . decide +kernel
  . apply (example_is_bank ?_ rfl ?_ ?_).1
    . constructor
      . decide
      . decide
    . intro i
      apply Nat.zero_le
    . decide +kernel

end RtuServerExample
