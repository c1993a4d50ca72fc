import ModbusProtocol.Examples.Bank
import ModbusProtocol.Tcp.Lemmas.Joined
import ModbusProtocol.Tcp.Lemmas.Links

/-!
This module contains the callbacks of `tcp_server_example.c`, and what the example is for the clients that are
connected to it: a bank of registers that they share, and a count of them. Its output and its mutex are left
out.
-/

open Modbus Posix

namespace TcpServerExample

@[simp] abbrev regTemperature : Nat := 0x00
@[simp] abbrev regHumidity : Nat := 0x01
@[simp] abbrev regStatus : Nat := 0x02
@[simp] abbrev regUptimeLow : Nat := 0x03
@[simp] abbrev regUptimeHigh : Nat := 0x04
@[simp] abbrev regDeviceId : Nat := 0x14
@[simp] abbrev regBankSize : Nat := 32

-- `server_app_ctx_t`, and what time() is going to return, one call after the other.
structure ServerAppCtx where
  regBank : Mem UInt16
  time : Nat → Nat

def onRead (_functionCode : UInt8) (addr qty : UInt16) (out : Mem UInt16) (app : ServerAppCtx)
    : Pdu.ReadReturn UInt16 ServerAppCtx :=
  if addr.toNat + qty.toNat > regBankSize then
    ⟨exIllegalDataAddress.toNat, out, app⟩
  else
    let regBank := app.regBank.set regTemperature 253
    let regBank := regBank.set regHumidity 60
    let regBank := regBank.set regStatus 0x0001
    let uptimeSec := UInt32.ofNat (app.time 0)
    let regBank := regBank.set regUptimeLow (uptimeSec &&& 0xFFFF).toUInt16
    let regBank := regBank.set regUptimeHigh (uptimeSec >>> 16).toUInt16
    let regBank := regBank.set regDeviceId 0x0100
    let out := (List.range qty.toNat).foldl (fun out i => out.set i (regBank (addr.toNat + i))) out
    ⟨0, out, ⟨regBank, fun n => app.time (n + 1)⟩⟩

def onWrite (addr qty : UInt16) (data : List UInt16) (app : ServerAppCtx)
    : Pdu.WriteReturn ServerAppCtx :=
  if addr.toNat + qty.toNat > regBankSize then
    ⟨exIllegalDataAddress.toNat, app⟩
  else
    let regBank := (List.range qty.toNat).foldl
      (fun regBank i => regBank.set (addr.toNat + i) (data.getD i 0)) app.regBank
    ⟨0, { app with regBank := regBank }⟩

-- The callbacks that `main` configures the server with.
def handlers : Pdu.Handlers ServerAppCtx where
  readRegisters := some onRead
  writeRegisters := some onWrite
  readBits := none
  writeBits := none

-- memset(&app_ctx, 0, sizeof(app_ctx))
def zeroed (time : Nat → Nat) : ServerAppCtx :=
  ⟨fun _ => 0, time⟩

-- What the callbacks make of the registers.
def bank : RegisterBank ServerAppCtx where
  size := regBankSize
  cells := ServerAppCtx.regBank
  refresh := fun app =>
    let uptimeSec := UInt32.ofNat (app.time 0)
    ⟨(((((app.regBank.set regTemperature 253).set regHumidity 60).set regStatus 1).set
      regUptimeLow (uptimeSec &&& 0xFFFF).toUInt16).set
      regUptimeHigh (uptimeSec >>> 16).toUInt16).set regDeviceId 0x0100, fun n => app.time (n + 1)⟩
  store := fun regBank app => { app with regBank := regBank }
  cells_store := fun _ _ => rfl
  size_le := by decide

theorem handlers_eq
    : handlers = bank.handlers := by
  rfl

-- The registers that every read refreshes with the time, and those that it sets to a constant.
def clocked (uptimeSec : UInt32) (r : Nat) : Option UInt16 :=
  if r = regUptimeLow then
    some (uptimeSec &&& 0xFFFF).toUInt16
  else if r = regUptimeHigh then
    some (uptimeSec >>> 16).toUInt16
  else
    none

def measured (r : Nat) : Option UInt16 :=
  if r = regTemperature then
    some 253
  else if r = regHumidity then
    some 60
  else if r = regStatus then
    some 1
  else if r = regDeviceId then
    some 0x0100
  else
    none

-- What a call leaves in a register, where that is not refreshed with the time.
def stored (call : Pdu.Call) (r : Nat) : Option UInt16 :=
  match call with
  | .readRegisters _ addr qty => if addr.toNat + qty.toNat ≤ regBankSize then measured r else none
  | .writeRegisters addr qty data =>
    if addr.toNat + qty.toNat ≤ regBankSize ∧ addr.toNat ≤ r ∧ r < addr.toNat + qty.toNat then
      some (data.getD (r - addr.toNat) 0)
    else
      none
  | _ => none

-- Whether a call asks for the time.
def asksTime : Pdu.Call → Bool
  | .readRegisters _ addr qty => addr.toNat + qty.toNat ≤ regBankSize
  | _ => false

-- What a read behind `calls` finds in a register.
def found (time : Nat → Nat) (calls : List Pdu.Call) (r : Nat) : UInt16 :=
  ((clocked (UInt32.ofNat (time (calls.countP asksTime))) r).or (measured r)).getD
    ((lastWritten stored calls r).getD 0)

-- `uptime` in `poll_once` of tcp_client_example.c
def uptime (block : Mem UInt16) : UInt32 :=
  ((block regUptimeHigh).toUInt32 <<< 16) ||| (block regUptimeLow).toUInt32

theorem set_apply (m : Mem UInt16) (i : Nat) (value : UInt16) (r : Nat)
    : m.set i value r = if r = i then value else m r := by
  unfold Mem.set
  by_cases h : r = i
  . rw [if_pos h, h, Function.update_self]
  . rw [if_neg h, Function.update_of_ne h]

theorem refresh_cells (app : ServerAppCtx) (r : Nat)
    : (bank.refresh app).regBank r
        = ((clocked (UInt32.ofNat (app.time 0)) r).or (measured r)).getD (app.regBank r) := by
  unfold bank clocked measured
  dsimp only
  rw [set_apply, set_apply, set_apply, set_apply, set_apply, set_apply]
  grind

theorem join_halves (uptimeSec : UInt32)
    : ((uptimeSec >>> 16).toUInt16.toUInt32 <<< 16) ||| (uptimeSec &&& 0xFFFF).toUInt16.toUInt32
        = uptimeSec := by
  have hlt := uptimeSec.toNat_lt
  have hhigh : (uptimeSec.toNat >>> 16 % 65536) <<< 16 % 4294967296
      = 2 ^ 16 * (uptimeSec.toNat / 65536) := by
    rw [Nat.shiftRight_eq_div_pow, Nat.shiftLeft_eq]
    omega
  have hlow : (uptimeSec.toNat &&& 65535) % 65536 = uptimeSec.toNat % 65536 := by
    rw [Nat.and_two_pow_sub_one_eq_mod uptimeSec.toNat 16, Nat.mod_mod]
  apply UInt32.toNat_inj.mp
  simp only [UInt32.toNat_or, UInt32.toNat_shiftLeft, UInt32.toNat_shiftRight, UInt32.toNat_and,
    UInt16.toNat_toUInt32, UInt32.toNat_toUInt16]
  change (uptimeSec.toNat >>> 16 % 65536) <<< 16 % 4294967296 ||| (uptimeSec.toNat &&& 65535) % 65536 = _
  rw [hhigh, hlow, ← Nat.two_pow_add_eq_or_of_lt (by omega)]
  omega

-- The registers that are not refreshed with the time.
abbrev Kept := { r : Nat // r ≠ regUptimeLow ∧ r ≠ regUptimeHigh }

theorem clocked_kept (uptimeSec : UInt32) (r : Kept)
    : clocked uptimeSec r.1 = none := by
  unfold clocked
  rw [if_neg r.2.1, if_neg r.2.2]

theorem execute_stores (locals : ServerAppCtx → Pdu.Locals)
    : Stores (handlers.execute locals) (fun app (r : Kept) => app.regBank r.1)
        (fun call (r : Kept) => stored call r.1) := by
  constructor
  intro call app r
  cases call with
  | readRegisters fc addr qty =>
    have hread := bank.onRead_state fc addr qty (locals app).data app
    change (onRead fc addr qty (locals app).data app).state
      = if addr.toNat + qty.toNat ≤ regBankSize then bank.refresh app else app at hread
    change (onRead fc addr qty (locals app).data app).state.regBank r.1 = _
    rw [hread]
    unfold stored
    dsimp only
    split
    . rw [refresh_cells, clocked_kept]
      rfl
    . rfl
  | writeRegisters addr qty data =>
    have hwrite := bank.onWrite_cells addr qty data app r.1
    change (onWrite addr qty data app).state.regBank r.1
      = if addr.toNat + qty.toNat ≤ regBankSize ∧ addr.toNat ≤ r.1 ∧ r.1 < addr.toNat + qty.toNat then
          data.getD (r.1 - addr.toNat) 0
        else
          app.regBank r.1 at hwrite
    change (onWrite addr qty data app).state.regBank r.1 = _
    rw [hwrite]
    unfold stored
    dsimp only
    split
    . rfl
    . rfl
  | readBits fc addr qty => rfl
  | writeBits addr qty bits => rfl

theorem execute_time (locals : ServerAppCtx → Pdu.Locals) (call : Pdu.Call) (app : ServerAppCtx) (n : Nat)
    : (handlers.execute locals call app).1.time n
        = app.time (n + if asksTime call = true then 1 else 0) := by
  cases call with
  | readRegisters fc addr qty =>
    change (onRead fc addr qty (locals app).data app).state.time n = _
    unfold onRead asksTime
    by_cases hroom : addr.toNat + qty.toNat > regBankSize
    . rw [if_pos hroom, if_neg (by simpa using hroom)]
      rfl
    . rw [if_neg hroom, if_pos (by simpa using hroom)]
  | writeRegisters addr qty data =>
    change (onWrite addr qty data app).state.time n = _
    unfold onWrite
    split
    . rfl
    . rfl
  | readBits fc addr qty => rfl
  | writeBits addr qty bits => rfl

theorem run_time (locals : ServerAppCtx → Pdu.Locals) (calls : List Pdu.Call) (app : ServerAppCtx) (n : Nat)
    : (transduce (handlers.execute locals) calls app).1.time n
        = app.time (n + calls.countP asksTime) := by
  induction calls generalizing app with
  | nil => rfl
  | cons call calls ih =>
    rw [← List.singleton_append, transduce_append, transduce_singleton]
    dsimp only
    rw [ih, execute_time, List.singleton_append, List.countP_cons, Nat.add_assoc]

-- What a read finds, where the calls before it are known.
theorem refresh_found (locals : ServerAppCtx → Pdu.Locals) (time : Nat → Nat) (calls : List Pdu.Call)
    (r : Nat)
    : (bank.refresh (transduce (handlers.execute locals) calls (zeroed time)).1).regBank r
        = found time calls r := by
  rw [refresh_cells, run_time, Nat.zero_add]
  unfold found zeroed
  dsimp only
  by_cases hkept : r ≠ regUptimeLow ∧ r ≠ regUptimeHigh
  . have hcell := (execute_stores locals).run calls (zeroed time) ⟨r, hkept⟩
    dsimp only [zeroed] at hcell
    rw [hcell]
    rfl
  . have hclocked : ∀ uptimeSec, (clocked uptimeSec r).isSome := by
      intro uptimeSec
      unfold clocked
      split
      . rfl
      . next hlow =>
        rw [if_pos (by tauto)]
        rfl
    obtain ⟨value, hvalue⟩ :=
      Option.isSome_iff_exists.mp (hclocked (UInt32.ofNat (time (calls.countP asksTime))))
    rw [hvalue]
    rfl

-- A client that puts the two halves of the uptime together gets the time of its read.
theorem uptime_found {registers : Mem UInt16} {time : Nat → Nat} {calls : List Pdu.Call}
    (h : ∀ j < 5, registers j = found time calls j)
    : uptime registers = UInt32.ofNat (time (calls.countP asksTime)) := by
  unfold uptime
  rw [h regUptimeHigh (by decide), h regUptimeLow (by decide)]
  apply join_halves

-- The masters that are connected to the example share its registers: each register holds what has been
-- written to it last, by whichever of them, and that is what a read returns. The requests of all of them have
-- one order, in which those of each master come as it has sent them.
theorem masters_share_bank {env : Tcp.StartEnv} {owner : Owner} {ctx : Tcp.Ctx}
    {settings : Tcp.ServerSettings} (hstart : (Tcp.serverStart env owner ctx settings).1 = 0)
    (cfg : Tcp.ServerConfig ServerAppCtx) (hexample : cfg.handlers = handlers) (stack : Stack ServerAppCtx)
    (time : Nat → Nat) {wakes : List Tcp.Wake}
    (hfresh : Throughout (Tcp.Host.step cfg stack) Tcp.Fresh wakes
      (Tcp.Host.start (Tcp.serverStart env owner ctx settings).2.1 (zeroed time)))
    : let run := transduce (Tcp.Host.step cfg stack) wakes
        (Tcp.Host.start (Tcp.serverStart env owner ctx settings).2.1 (zeroed time))
      (∀ r : Kept, run.1.state.regBank r.1 = (lastWritten stored (Tcp.callsIn run.2) r.1).getD 0) ∧
      ∀ clientEnv clientOwner clientCtx clientCfg fresh clientActs,
        Tcp.Client.connect clientEnv clientOwner clientCtx clientCfg = (0, fresh, clientActs) →
        ∀ (line peer : Line) (calls : List Tcp.Client.Call) (k : Nat), calls.length ≤ 65535 →
        run.1.accepted[k]? = some peer →
        Tcp.Joined line (Tcp.Client.lastSession ⟨fresh, line⟩ calls).line peer (run.1.lines k) →
        ∀ n e, (Tcp.Client.runCalls ⟨fresh, line⟩ calls)[n]? = some e → 0 ≤ e.result.rc →
          ∃ earlier later, run.2 = earlier ++ (k, .frame e.request) :: later ∧
            entriesOf k (Tcp.framesIn earlier)
              = ((Tcp.Client.runCalls ⟨fresh, line⟩ calls).take n).map Tcp.Client.Exchange.request ∧
            e.result.rc = bank.outcome e.call.op ∧
            ∀ fc addr qty hfc hpos hmax, e.call.op = .readRegisters fc addr qty hfc hpos hmax →
              addr.toNat + qty.toNat ≤ regBankSize →
              (∀ j < qty.toNat, e.result.out.registers j
                = found time (Tcp.callsIn earlier) (addr.toNat + j)) ∧
              (addr = 0 → 5 ≤ qty.toNat → uptime e.result.out.registers
                = UInt32.ofNat (time ((Tcp.callsIn earlier).countP asksTime))) := by
  intro run
  have hkeeps := Tcp.started_keeps hstart cfg stack (zeroed time) hfresh
  constructor
  . intro r
    have heffect := Tcp.served_effect cfg stack.locals (Tcp.framesIn run.2) (zeroed time)
    dsimp only at heffect
    rw [hkeeps.serial, hexample] at heffect
    have hcell := (execute_stores stack.locals).run (Tcp.callsIn run.2) (zeroed time) r
    dsimp only at heffect hcell
    rw [heffect]
    exact hcell
  . intro clientEnv clientOwner clientCtx clientCfg fresh clientActs hconnect line peer calls k hfew
      haccepted hjoined n e he hrc
    obtain ⟨hinit, htid⟩ := Tcp.Client.connect_ok hconnect
    obtain ⟨before, after, hsplit, hown, -, hdirect, hout, -⟩ :=
      Tcp.answered_in_turn hinit htid hfew hkeeps.serial (hkeeps.tracks k peer haccepted) hjoined he hrc
    obtain ⟨later, hlog⟩ := Tcp.log_split hkeeps.serial hsplit
    refine ⟨(transduce (Tcp.serveOn cfg stack.locals) before (zeroed time)).2, later, hlog, ?_, ?_, ?_⟩
    . rw [Tcp.framesIn_served]
      exact hown
    . rw [hdirect, hexample, handlers_eq]
      apply bank.directCall_outcome
    . intro fc addr qty hfc hpos hmax hop hin
      have heffect := Tcp.served_effect cfg stack.locals before (zeroed time)
      dsimp only at heffect
      rw [hexample] at heffect
      have hin' : addr.toNat + qty.toNat ≤ bank.size := hin
      have hread := bank.directCall_read
        (stack.locals (transduce (Tcp.serveOn cfg stack.locals) before (zeroed time)).1) addr hfc hpos hmax
        e.call.out (transduce (Tcp.serveOn cfg stack.locals) before (zeroed time)).1
      dsimp only at hread
      rw [if_pos hin', ← hop, ← handlers_eq, ← hexample, ← hout] at hread
      have hregisters : ∀ j < qty.toNat, e.result.out.registers j
          = found time (Tcp.callsIn (transduce (Tcp.serveOn cfg stack.locals) before (zeroed time)).2)
              (addr.toNat + j) := by
        intro j hj
        rw [hread.2.2 j hj, heffect]
        apply refresh_found
      refine ⟨hregisters, ?_⟩
      intro haddr hqty
      apply uptime_found
      intro j hj
      rw [hregisters j (Nat.lt_of_lt_of_le hj hqty), haddr, UInt16.toNat_zero, Nat.zero_add]

-- A client sets the setpoint to 300 and reads 7, which another one has set it to meanwhile.
def exampleServer : Tcp.ServerConfig ServerAppCtx :=
  ⟨1, handlers⟩

def exampleCalls : List Tcp.Client.Call :=
  [{ Tcp.Client.callSample with op := .writeSingleRegister 10 300 },
    { Tcp.Client.callSample with op := RegisterBank.readEleven }]

def exampleReplies : Line where
  now := 0
  incoming := (Tcp.mbapAdu [0, 1] 1 [6, 0, 10, 1, 44] ++ Tcp.mbapAdu [0, 2] 1
    [3, 22, 0, 253, 0, 60, 0, 1, 0x23, 0x45, 0, 1, 0, 0, 0, 0, 0, 0, 0, 0, 0, 0, 0, 7]).map (⟨30000000, ·⟩)
  outgoing := []
  turns := []
  recvTimeout := some 1000000000

def exampleRequests : Line :=
  Tcp.requestsSample (Tcp.mbapAdu [0, 1] 1 [6, 0, 10, 1, 44] ++ Tcp.mbapAdu [0, 2] 1 [3, 0, 0, 0, 11])

def exampleWakes : List Tcp.Wake :=
  let other := Tcp.requestsSample (Tcp.mbapAdu [0, 1] 1 [6, 0, 10, 0, 7])
  [⟨2, ⟨.ready [3], 5, fun _ => 0, fun _ => 0⟩, exampleRequests⟩,
    ⟨2, ⟨.ready [3, 5], 6, fun _ => 0, fun _ => 0⟩, other⟩,
    ⟨2, ⟨.ready [6], 0, fun _ => 0, fun _ => 0⟩, other⟩,
    ⟨2, ⟨.ready [5], 0, fun _ => 0, fun _ => 0⟩, other⟩]

theorem masters_share_bank_meanwhile
    : let run := transduce (Tcp.Host.step exampleServer Tcp.sampleStack) exampleWakes
        (Tcp.Host.start (Tcp.serverStart Tcp.startSample (.context 1) .zeroed ⟨502, 2, true⟩).2.1
          (zeroed fun _ => 0x12345))
      let made := Tcp.Client.runCalls ⟨⟨3, 0, true, Tcp.Client.clientSample⟩, exampleReplies⟩ exampleCalls
      made.map (fun e => (e.result.rc, e.result.out.registers 10, uptime e.result.out.registers))
        = [(0, 0, 0), (0, 7, 0x12345)] ∧
      (∀ r : Kept, run.1.state.regBank r.1 = (lastWritten stored (Tcp.callsIn run.2) r.1).getD 0) ∧
      ∀ (n : Nat) (e : Tcp.Client.Exchange), made[n]? = some e → 0 ≤ e.result.rc →
        e.result.rc = bank.outcome e.call.op := by
  have hfresh : Throughout (Tcp.Host.step exampleServer Tcp.sampleStack) Tcp.Fresh exampleWakes
      (Tcp.Host.start (Tcp.serverStart Tcp.startSample (.context 1) .zeroed ⟨502, 2, true⟩).2.1
        (zeroed fun _ => 0x12345)) := by
    decide +kernel
  obtain ⟨hbank, hshared⟩ := @masters_share_bank Tcp.startSample (.context 1) .zeroed ⟨502, 2, true⟩ rfl
    exampleServer rfl Tcp.sampleStack (fun _ => 0x12345) exampleWakes hfresh
  refine ⟨by decide +kernel, hbank, ?_⟩
  intro n e he hrc
  obtain ⟨_, _, -, -, houtcome, -⟩ := hshared ⟨true, ⟨3, true, true, true, true, false⟩⟩ (.context 0)
    ⟨0, 0, false, Tcp.Client.clientSample⟩ Tcp.Client.clientSample _ _ rfl exampleReplies exampleRequests
    exampleCalls 0 (by decide) (by decide +kernel) ⟨by decide +kernel, by decide +kernel⟩ n e he hrc
  exact houtcome

-- `on_link_change`, on the `active_connections` of `link_ctx_t`
def onLinkChange (activeConnections : Int) (_fd : Int) (connected : Bool) : Int :=
  if connected then
    activeConnections + 1
  else if activeConnections > 0 then
    activeConnections - 1
  else
    activeConnections

-- The number of active masters that the example shows behind these events.
def activeConnections (events : List Tcp.ThreadEvent) : Int :=
  events.foldl
    (fun active event =>
      match event with
      | .link fd connected => onLinkChange active fd connected
      | _ => active)
    0

theorem activeConnections_eq (events : List Tcp.ThreadEvent)
    : activeConnections events = (Tcp.linksOf events).foldl Ledger.Act.counted 0 := by
  unfold activeConnections Tcp.linksOf
  rw [List.foldl_flatMap]
  congr 1
  funext active event
  cases event with
  | link fd connected =>
    cases connected with
    | true => rfl
    | false => rfl
  | accept => rfl
  | peek fd => rfl
  | process fd => rfl
  | close fd => rfl
  | error connectionState => rfl

-- What the example shows is how many masters are connected: the number is never kept from getting below zero,
-- and the masters that are disconnected when the server is stopped stay in it.
theorem active_masters {env : Tcp.StartEnv} {owner : Owner} {ctx : Tcp.Ctx} {cfg : Tcp.Config}
    {envs : List Tcp.Environment} (hmode : cfg.mode = .listenServer)
    (hstart : (Tcp.start env owner ctx cfg).1 = 0) (hlink : cfg.callbacks.onLink = true)
    (hfresh : Ledger.Fresh Resource.Chosen ∅ (Tcp.runActs env owner ctx cfg envs))
    : (∀ n, activeConnections (Tcp.runEvents env owner ctx cfg (envs.take n))
        = (Tcp.clients env owner ctx cfg (envs.take n)).length) ∧
      (∀ n, activeConnections (Tcp.runEvents env owner ctx cfg (envs.take n)) ≤ 65535) ∧
      activeConnections (Tcp.runEvents env owner ctx cfg envs ++
          (Tcp.stop owner (Tcp.served env owner ctx cfg envs)).events)
        = (Tcp.clients env owner ctx cfg envs).length := by
  have hcount : ∀ n, activeConnections (Tcp.runEvents env owner ctx cfg (envs.take n))
      = (Tcp.clients env owner ctx cfg (envs.take n)).length := by
    intro n
    obtain ⟨howned, htable⟩ := Tcp.runEvents_links hmode hstart hlink (Tcp.fresh_take hfresh n)
    have hcard := Ledger.foldl_counted
      (@Ledger.fresh_of_not_chosen _ _ (fun _ => False) (fun _ => id) ∅ _) howned
    rw [htable.eq_toFinset, List.toFinset_card_of_nodup htable.nodup] at hcard
    rw [activeConnections_eq]
    exact hcard
  refine ⟨hcount, ?_, ?_⟩
  . intro n
    obtain ⟨slots, cap, fds, hserved, -, hlen, -⟩ :=
      Tcp.served_table hmode hstart (Tcp.fresh_take hfresh n)
    have hclients : (Tcp.clients env owner ctx cfg (envs.take n)).length ≤ fds.length := by
      unfold Tcp.clients
      rw [hserved]
      apply List.length_filter_le
    have hcap := cap.toNat_lt
    rw [hcount]
    omega
  . have hlast := hcount envs.length
    rw [List.take_length, activeConnections_eq] at hlast
    rw [activeConnections_eq, Tcp.linksOf_append, Tcp.linksOf_stop, List.append_nil]
    exact hlast

theorem active_masters_sample
    : let shown := fun n => activeConnections
        (Tcp.runEvents Tcp.sampleEnv (.context 0) Tcp.sampleCtx Tcp.sampleListen (Tcp.sampleRun.take n))
      [1, 2, 3, 4, 5].map shown = [1, 1, 2, 2, 1] ∧
      activeConnections
        (Tcp.runEvents Tcp.sampleEnv (.context 0) Tcp.sampleCtx Tcp.sampleListen Tcp.sampleRun ++
          (Tcp.stop (.context 0)
            (Tcp.served Tcp.sampleEnv (.context 0) Tcp.sampleCtx Tcp.sampleListen Tcp.sampleRun)).events)
        = 1 := by
  have hactive := @active_masters Tcp.sampleEnv (.context 0) Tcp.sampleCtx Tcp.sampleListen Tcp.sampleRun
    rfl (by decide) rfl (by decide +kernel)
  constructor
  . rw [List.map_congr_left fun n _ => hactive.1 n]
    decide +kernel
  . rw [hactive.2.2]
    decide +kernel

end TcpServerExample
