import ModbusProtocol.Rtu.Impl.Traffic
import ModbusProtocol.Rtu.Lemmas.Registry

/-!
This module contains the silence between the transactions on a path over whole runs. The record of a bus
bears the stamp of the last transaction, so that the silence is kept for as long as the record is.
-/

open Posix

namespace Rtu.Client

-- The silence that has to be kept after the previous transaction, in microseconds.
def Session.silenceUs (ses : Session) (previous : Ended) : Nat :=
  max (effectiveInterFrameUs ses.ctx.cfg ses.bus).toNat
    (if previous.unitId ≠ ses.unitId then 1000 * (effectiveHandoffSilenceMs ses.ctx.cfg).toNat else 0)

-- When the request is about to be written, the silence has been kept, up to the rounding of a clock.
def Session.Silent (ses : Session) (previous : Option Ended) : Prop :=
  ∀ ended, previous = some ended → ended.time + 1000 * ses.silenceUs ended ≤ ses.flushed.now + 1000

-- The stamp of a record.
def SharedBus.Bears (bus : SharedBus) : Option Ended → Prop
  | none => bus.hasLastTransaction = false
  | some ended => bus.hasLastTransaction = true ∧ bus.lastUnitId = ended.unitId ∧
    bus.lastReleaseTime = .ofNs ended.time

theorem turn_now_le (line : Line)
    : line.now ≤ line.turn.2.now := by
  unfold Line.turn
  split
  . exact Nat.le_refl _
  . apply Nat.le_add_right

theorem clockGettime_eq (line : Line)
    : clockGettime line = (.ofNs line.turn.2.now, line.turn.2) := by
  rfl

theorem tdiv_mul_bounds (a : Int)
    : 1000 * a.tdiv 1000 ≤ a + 999 ∧ a ≤ 1000 * a.tdiv 1000 + 999 := by
  by_cases h : 0 ≤ a
  . rw [Int.tdiv_eq_ediv_of_nonneg h]
    omega
  . have hneg : a.tdiv 1000 = -((-a) / 1000) := by
      rw [← Int.tdiv_eq_ediv_of_nonneg (by omega), Int.neg_tdiv, Int.neg_neg]
    rw [hneg]
    omega

def Timespec.ns (time : Timespec) : Int :=
  time.sec * 1000000000 + time.nsec

theorem ofNs_ns (ns : Nat)
    : (Timespec.ofNs ns).ns = ns := by
  unfold Timespec.ofNs Timespec.ns
  dsimp only
  omega

-- The elapsed time is right to the microsecond.
theorem elapsedUs_bounds (now last : Timespec)
    : 1000 * elapsedUs now last ≤ now.ns - last.ns + 999 ∧
      now.ns - last.ns ≤ 1000 * elapsedUs now last + 999 := by
  have hbounds := tdiv_mul_bounds (now.nsec - last.nsec)
  unfold elapsedUs Timespec.ns
  omega

theorem sleepUs_ge {now last : Timespec} (h : last.ns ≤ now.ns) (requiredUs : Nat)
    : last.ns + 1000 * requiredUs ≤ now.ns + 1000 * sleepUs now last requiredUs + 999 := by
  have hbounds := elapsedUs_bounds now last
  unfold sleepUs
  split
  . omega
  . omega

theorem sleepUs_le (now last : Timespec) (requiredUs : Nat)
    : now.ns - last.ns + 1000 * sleepUs now last requiredUs
        ≤ max (now.ns - last.ns) (1000 * requiredUs + 999) := by
  have hbounds := elapsedUs_bounds now last
  unfold sleepUs
  split
  . omega
  . omega

theorem requiredUs_eq (bus : SharedBus) (unitId : UInt8) (interFrameUs handoffMs : UInt32)
    : requiredUs bus unitId interFrameUs handoffMs
        =
      max interFrameUs.toNat (if bus.lastUnitId ≠ unitId then 1000 * handoffMs.toNat else 0) := by
  unfold requiredUs
  by_cases hunit : bus.lastUnitId ≠ unitId
  . rw [if_pos hunit]
    split
    . omega
    next h =>
      have hle : ¬handoffMs.toNat * 1000 > interFrameUs.toNat := fun hgt => h ⟨hunit, hgt⟩
      omega
  . rw [if_neg hunit, if_neg (fun h => hunit h.1)]
    omega

theorem waitBusSilence_kept {bus : SharedBus} {line : Line} {previous : Ended} (unitId : UInt8)
    (interFrameUs handoffMs : UInt32) (hbears : bus.Bears (some previous))
    (hpast : previous.time ≤ line.now)
    : previous.time + 1000 * requiredUs bus unitId interFrameUs handoffMs
        ≤ (waitBusSilence bus line unitId interFrameUs handoffMs).now + 999 := by
  obtain ⟨hlast, _, hstamp⟩ := hbears
  have hclock := turn_now_le line
  have hsleep := turn_now_le line.turn.2
  have hreading : (Timespec.ofNs previous.time).ns ≤ (Timespec.ofNs line.turn.2.now).ns := by
    rw [ofNs_ns, ofNs_ns]
    omega
  have hslept := sleepUs_ge hreading (requiredUs bus unitId interFrameUs handoffMs)
  rw [ofNs_ns, ofNs_ns] at hslept
  unfold waitBusSilence
  dsimp only
  rw [clockGettime_eq, hstamp, hlast]
  dsimp only
  split
  . contradiction
  split
  . omega
  split
  . omega
  . unfold Line.sleep Line.pass
    dsimp only
    omega

theorem flushed_le (ses : Session)
    : (busTransactionBegin ses).now ≤ ses.flushed.now := by
  apply turn_now_le

theorem Session.silent {ses : Session} {previous : Option Ended} (hbears : ses.bus.Bears previous)
    (hpast : ∀ ended, previous = some ended → ended.time ≤ ses.line.now)
    : ses.Silent previous := by
  intro ended heq
  rw [heq] at hbears
  have hkept := waitBusSilence_kept ses.unitId (effectiveInterFrameUs ses.ctx.cfg ses.bus)
    (effectiveHandoffSilenceMs ses.ctx.cfg) hbears (hpast ended heq)
  rw [requiredUs_eq, hbears.2.1] at hkept
  have hflushed := flushed_le ses
  unfold busTransactionBegin at hflushed
  unfold silenceUs
  omega

theorem busTransactionEnd_bears (ses : Session) (line : Line)
    : (busTransactionEnd ses line).bus.Bears
        (some ⟨(busTransactionEnd ses line).unitId, (busTransactionEnd ses line).line.now⟩) := by
  exact ⟨rfl, rfl, rfl⟩

-- A transaction ends by `bus_transaction_end`, or has not begun.
theorem transact_ended (ses : Session) (req pdu : Mem UInt8) (pduLen : Nat) (resp : Mem UInt8)
    : (transact ses req pdu pduLen resp).events = [] ∧ (transact ses req pdu pduLen resp).ses = ses ∨
      ∃ line, (transact ses req pdu pduLen resp).ses = busTransactionEnd ses line := by
  unfold transact
  split
  . exact .inl ⟨rfl, rfl⟩
  dsimp only
  split
  . exact .inl ⟨rfl, rfl⟩
  right
  generalize sendFrame ses.ctx.cfg ses.flushed _ = sent
  obtain ⟨ok, line, events⟩ := sent
  cases ok with
  | false => exact ⟨line, rfl⟩
  | true =>
    dsimp only
    unfold awaitResponse
    dsimp only
    generalize recvEcho ses _ line = echoed
    obtain ⟨ok, line'⟩ := echoed
    cases ok with
    | false => exact ⟨line', rfl⟩
    | true =>
      dsimp only
      split
      . exact ⟨line', rfl⟩
      split
      . exact ⟨_, rfl⟩
      split
      . exact ⟨_, rfl⟩
      . exact ⟨_, rfl⟩

-- The records bear the stamps of the last transactions, and a path that has seen one has a record.
structure Traffic.Stamped (traffic : Traffic) : Prop where
  addresses : (Records.keys traffic.clients.reg).Nodup
  paths : (traffic.clients.reg.map fun entry => entry.2.path).Nodup
  stamped : ∀ entry ∈ traffic.clients.reg, entry.2.Bears (traffic.last entry.2.path)
  kept : ∀ path ended, traffic.last path = some ended
    → path ∈ traffic.clients.reg.map fun entry => entry.2.path

-- What is relied on for an operation: that memory is not allocated twice.
def Op.honest (op : Op) (traffic : Traffic) : Bool :=
  match op with
  | .lifecycle (.connect _ _ env) => env.calloc.all fun bus => bus ∉ Records.keys traffic.clients.reg
  | _ => true

-- Whether the operation does not disconnect the last context of a record that bears a stamp.
def Op.keeps (op : Op) (traffic : Traffic) : Bool :=
  match op with
  | .lifecycle (.disconnect index) =>
    (traffic.clients.record index).all fun (_, _, record) =>
      !record.hasLastTransaction || record.refcnt > 1
  | _ => true

theorem SharedBus.Bears.recount {bus : SharedBus} {previous : Option Ended} (h : bus.Bears previous)
    (g : UInt32 → UInt32)
    : (bus.recount g).Bears previous := by
  cases previous with
  | none => exact h
  | some ended => exact h

theorem record_eq_some {clients : Clients} {index : Nat} {ctx : ClientCtx} {bus : Address}
    {record : SharedBus} (hindex : clients.ctxs[index]? = some ctx)
    (hctx : ctx.attachedTo bus = true) (hget : getBus clients.reg bus = some record)
    : clients.record index = some (ctx, bus, record) := by
  obtain ⟨hinit, hbus⟩ := (attachedTo_iff ctx bus).mp hctx
  unfold Clients.record
  rw [hindex]
  dsimp only
  rw [hinit, hbus]
  dsimp only
  rw [hget]
  rfl

theorem mem_of_record {clients : Clients} {index : Nat} {ctx : ClientCtx} {bus : Address}
    {record : SharedBus} (h : clients.record index = some (ctx, bus, record))
    : (bus, record) ∈ clients.reg := by
  unfold Clients.record at h
  split at h
  . contradiction
  split at h
  . obtain ⟨record', hget, heq⟩ := Option.map_eq_some_iff.mp h
    cases heq
    exact Records.mem_of_get hget
  . contradiction

-- A record is taken out only by the last reference to it.
theorem sharedBusDetach_cases {reg : Registry} (hkeys : (Records.keys reg).Nodup) (bus : Address)
    : (sharedBusDetach reg bus).1 = Records.update reg bus (SharedBus.recount uncounted) ∨
      ∃ record, getBus reg bus = some record ∧ record.refcnt ≤ 1 ∧
        (sharedBusDetach reg bus).1 = Records.unlink reg bus := by
  unfold sharedBusDetach
  dsimp only
  rw [← funext recount_uncounted, updateBus_eq]
  cases hget : getBus (Records.update reg bus (SharedBus.recount uncounted)) bus with
  | none => exact .inl rfl
  | some record =>
    dsimp only
    split
    next hzero =>
      right
      obtain ⟨hne, _⟩ | ⟨_, old, hmem, heq⟩ := Records.mem_update.mp (Records.mem_of_get hget)
      . contradiction
      . refine ⟨old, Records.get_eq_some hkeys hmem, ?_, ?_⟩
        . dsimp only at heq
          rw [heq] at hzero
          change uncounted old.refcnt = 0 at hzero
          unfold uncounted at hzero
          grind
        . dsimp only
          rw [unlinkBus_eq, Records.unlink_update hkeys]
    . exact .inl rfl

namespace Traffic.Stamped

variable {traffic : Traffic}

-- The count of a record does not matter.
theorem recount (h : traffic.Stamped) (ctxs : List ClientCtx) (bus : Address) (g : UInt32 → UInt32)
    : Stamped { traffic with
        clients := ⟨Records.update traffic.clients.reg bus (SharedBus.recount g), ctxs⟩ } := by
  have hpaths : (Records.update traffic.clients.reg bus (SharedBus.recount g)).map
        (fun entry => entry.2.path)
      = traffic.clients.reg.map fun entry => entry.2.path := Records.map_update fun _ _ => rfl
  constructor
  . dsimp only
    rw [Records.keys_update]
    exact h.addresses
  . dsimp only
    rw [hpaths]
    exact h.paths
  . intro entry hmem
    obtain ⟨_, hmem⟩ | ⟨_, record, hmem, heq⟩ := Records.mem_update.mp hmem
    . exact h.stamped entry hmem
    . rw [heq]
      exact (h.stamped _ hmem).recount g
  . intro path ended hlast
    dsimp only
    rw [hpaths]
    exact h.kept path ended hlast

-- A new record is for a path without a transaction.
theorem cons (h : traffic.Stamped) (ctxs : List ClientCtx) {bus : Address} {record : SharedBus}
    (hbus : bus ∉ Records.keys traffic.clients.reg)
    (hpath : record.path ∉ traffic.clients.reg.map fun entry => entry.2.path)
    (hfree : record.hasLastTransaction = false)
    : Stamped { traffic with clients := ⟨(bus, record) :: traffic.clients.reg, ctxs⟩ } := by
  constructor
  . exact List.nodup_cons.mpr ⟨hbus, h.addresses⟩
  . exact List.nodup_cons.mpr ⟨hpath, h.paths⟩
  . intro entry hmem
    cases List.mem_cons.mp hmem with
    | inl heq =>
      rw [heq]
      dsimp only
      cases hlast : traffic.last record.path with
      | none => exact hfree
      | some ended => exact absurd (h.kept record.path ended hlast) hpath
    | inr hmem => exact h.stamped entry hmem
  . intro path ended hlast
    exact List.mem_cons_of_mem _ (h.kept path ended hlast)

-- A record without a stamp may be taken out.
theorem unlink (h : traffic.Stamped) (ctxs : List ClientCtx) {bus : Address} {record : SharedBus}
    (hmem : (bus, record) ∈ traffic.clients.reg) (hfree : record.hasLastTransaction = false)
    : Stamped { traffic with clients := ⟨Records.unlink traffic.clients.reg bus, ctxs⟩ } := by
  have hsublist : (Records.unlink traffic.clients.reg bus).Sublist traffic.clients.reg :=
    List.eraseP_sublist
  have hnone : traffic.last record.path = none := by
    have hbears := h.stamped _ hmem
    dsimp only at hbears
    cases hlast : traffic.last record.path with
    | none => rfl
    | some ended =>
      rw [hlast] at hbears
      have hlast' := hbears.1
      rw [hfree] at hlast'
      contradiction
  constructor
  . exact Records.keys_unlink h.addresses
  . exact (hsublist.map _).nodup h.paths
  . intro entry hmem'
    exact h.stamped entry (hsublist.mem hmem')
  . intro path ended hlast
    apply (Records.mem_map_unlink h.addresses h.paths hmem).mpr
    refine ⟨h.kept path ended hlast, ?_⟩
    intro heq
    rw [heq, hnone] at hlast
    contradiction

-- A transaction leaves its stamp.
theorem mark (h : traffic.Stamped) {bus : Address} {record record' : SharedBus} {ended : Ended}
    (hmem : (bus, record) ∈ traffic.clients.reg) (hpath : record'.path = record.path)
    (hbears : record'.Bears (some ended))
    : Stamped ⟨⟨Records.update traffic.clients.reg bus fun _ => record', traffic.clients.ctxs⟩,
        Function.update traffic.last record.path (some ended)⟩ := by
  have hpaths : (Records.update traffic.clients.reg bus fun _ => record').map
        (fun entry => entry.2.path)
      = traffic.clients.reg.map fun entry => entry.2.path := by
    apply Records.map_update
    intro old hold
    cases Records.eq_of_key_eq h.addresses hold hmem rfl
    exact hpath
  constructor
  . dsimp only
    rw [Records.keys_update]
    exact h.addresses
  . dsimp only
    rw [hpaths]
    exact h.paths
  . intro entry hentry
    have hentry' : entry ∈ Records.update traffic.clients.reg bus fun _ => record' := hentry
    dsimp only
    obtain ⟨hne, hold⟩ | ⟨_, _, _, heq⟩ := Records.mem_update.mp hentry'
    . have hpath' : entry.2.path ≠ record.path := by
        intro heq
        have hsame := List.inj_on_of_nodup_map h.paths hold hmem heq
        rw [hsame] at hne
        contradiction
      rw [Function.update_of_ne hpath']
      exact h.stamped entry hold
    . rw [heq, hpath, Function.update_self]
      exact hbears
  . intro path ended' hlast
    dsimp only at hlast ⊢
    rw [hpaths]
    by_cases heq : path = record.path
    . rw [heq]
      exact List.mem_map_of_mem hmem
    . rw [Function.update_of_ne heq] at hlast
      exact h.kept path ended' hlast

theorem connect (h : traffic.Stamped) (index : Nat) (cfg : ClientConfig) (env : ConnectEnv)
    (hhonest : Op.honest (.lifecycle (.connect index cfg env)) traffic = true)
    : (Op.perform (.lifecycle (.connect index cfg env)) traffic).Stamped := by
  unfold Op.perform Call.perform
  dsimp only
  split
  . exact h
  next ctx hindex =>
    have hconnecting := connect_connecting env traffic.clients.reg index ctx cfg
    generalize Client.connect env traffic.clients.reg index ctx cfg = connected at hconnecting ⊢
    cases hconnecting with
    | refused hctx hacts => exact ⟨h.addresses, h.paths, h.stamped, h.kept⟩
    | joined hfree hmem hmatch => exact h.recount _ _ _
    | @opened key hfree hkey bus fd hcalloc hfd =>
      have hbus : bus ∉ Records.keys traffic.clients.reg := by
        unfold Op.honest at hhonest
        dsimp only at hhonest
        rw [hcalloc] at hhonest
        exact of_decide_eq_true hhonest
      exact (h.cons [] hbus hkey rfl).recount _ bus Client.counted

theorem disconnect (h : traffic.Stamped) (index : Nat)
    (hkeeps : Op.keeps (.lifecycle (.disconnect index)) traffic = true)
    : (Op.perform (.lifecycle (.disconnect index)) traffic).Stamped := by
  unfold Op.perform Call.perform
  dsimp only
  split
  . exact h
  next ctx hindex =>
    unfold Client.disconnect
    split
    next bus hinit hbus =>
      have hctx := (attachedTo_iff ctx bus).mpr ⟨hinit, hbus⟩
      obtain hupdate | ⟨record, hget, hone, hunlink⟩ := sharedBusDetach_cases h.addresses bus
      . dsimp only
        rw [hupdate]
        exact h.recount _ _ _
      . have hfree : record.hasLastTransaction = false := by
          unfold Op.keeps at hkeeps
          dsimp only at hkeeps
          rw [record_eq_some hindex hctx hget] at hkeeps
          simp [UInt32.not_lt.mpr hone] at hkeeps
          exact hkeeps
        dsimp only
        rw [hunlink]
        exact h.unlink _ (Records.mem_of_get hget) hfree
    . exact ⟨h.addresses, h.paths, h.stamped, h.kept⟩

theorem transact (h : traffic.Stamped) (index : Nat) (line : Line) (req pdu : Mem UInt8)
    (pduLen : Nat) (resp : Mem UInt8)
    : (Op.perform (.transact index line req pdu pduLen resp) traffic).Stamped := by
  unfold Op.perform
  dsimp only
  split
  . exact h
  next ctx bus record hrecord =>
    split
    . exact h
    next hevents =>
      have hended := transact_ended ⟨ctx, record, traffic.port record.path line⟩ req pdu pduLen resp
      obtain ⟨hnone, _⟩ | ⟨line', heq⟩ := hended
      . exact absurd hnone hevents
      . have hpath : (busTransactionEnd ⟨ctx, record, traffic.port record.path line⟩ line').bus.path
            = record.path := rfl
        rw [heq]
        exact h.mark (mem_of_record hrecord) hpath (busTransactionEnd_bears _ line')

theorem perform (h : traffic.Stamped) (op : Op) (hhonest : op.honest traffic = true)
    (hkeeps : op.keeps traffic = true)
    : (op.perform traffic).Stamped := by
  cases op with
  | lifecycle call =>
    cases call with
    | connect index cfg env => exact h.connect index cfg env hhonest
    | disconnect index => exact h.disconnect index hkeeps
  | setUnitId index unitId => exact ⟨h.addresses, h.paths, h.stamped, h.kept⟩
  | transact index line req pdu pduLen resp => exact h.transact index line req pdu pduLen resp

theorem run (h : traffic.Stamped) {ops : List Op} (hhonest : traffic.along Op.honest ops = true)
    (hkeeps : traffic.along Op.keeps ops = true)
    : (traffic.run ops).Stamped := by
  induction ops generalizing traffic with
  | nil => exact h
  | cons op ops ih =>
    unfold Traffic.along at hhonest hkeeps
    rw [Bool.and_eq_true] at hhonest hkeeps
    exact ih (h.perform op hhonest.1 hkeeps.1) hhonest.2 hkeeps.2

end Traffic.Stamped

-- No client has been connected yet.
def Traffic.start (ctxs : List ClientCtx) : Traffic :=
  ⟨⟨[], ctxs⟩, fun _ => none⟩

theorem start_stamped (ctxs : List ClientCtx)
    : (Traffic.start ctxs).Stamped := by
  refine ⟨List.nodup_nil, List.nodup_nil, ?_, ?_⟩
  . intro _ hmem
    contradiction
  . intro _ _ hlast
    contradiction

theorem silence_kept {ctxs : List ClientCtx} {ops : List Op}
    (hhonest : (Traffic.start ctxs).along Op.honest ops = true)
    (hkeeps : (Traffic.start ctxs).along Op.keeps ops = true)
    : ∀ index ctx bus record line,
      ((Traffic.start ctxs).run ops).clients.record index = some (ctx, bus, record)
      → Session.Silent ⟨ctx, record, ((Traffic.start ctxs).run ops).port record.path line⟩
          (((Traffic.start ctxs).run ops).last record.path) := by
  have hstamped := (start_stamped ctxs).run hhonest hkeeps
  generalize (Traffic.start ctxs).run ops = traffic at hstamped ⊢
  intro index ctx bus record line hrecord
  apply Session.silent
  . exact hstamped.stamped (bus, record) (mem_of_record hrecord)
  . intro ended hlast
    unfold Traffic.port
    rw [hlast]
    exact Nat.le_max_right _ _

instance (ses : Session) (previous : Option Ended) : Decidable (ses.Silent previous) :=
  match previous with
  | none => .isTrue (by intro _ hnone; contradiction)
  | some ended =>
    decidable_of_iff (ended.time + 1000 * ses.silenceUs ended ≤ ses.flushed.now + 1000) (by
      unfold Session.Silent
      simp)

-- The only client of a path broadcasts, disconnects and connects again.
def idlePort : Line :=
  ⟨0, [], [], [], none⟩

def connecting : Op :=
  .lifecycle (.connect 0 sharedConfig sharedEnv)

def broadcasting : Op :=
  .transact 0 idlePort (fun _ => 0) (fun i => [6, 0, 1, 0, 2].getD i 0) 5 (fun _ => 0)

def connectedCtx : ClientCtx :=
  ⟨3, some 1, true, sharedConfig⟩

def stampedRecord : SharedBus :=
  { sharedRecord 1 with hasLastTransaction := true, lastReleaseTime := .ofNs 0 }

theorem silence_kept_broadcast
    : Session.Silent
        ⟨connectedCtx, stampedRecord,
          ((Traffic.start [.zeroed]).run [connecting, broadcasting]).port stampedRecord.path idlePort⟩
        (((Traffic.start [.zeroed]).run [connecting, broadcasting]).last stampedRecord.path) := by
  have hkept := @silence_kept [.zeroed] [connecting, broadcasting] (by decide +kernel) (by decide +kernel)
  apply hkept 0 connectedCtx 1 stampedRecord idlePort
  decide +kernel

theorem silence_lost
    : (Traffic.start [.zeroed]).along Op.honest
          [connecting, broadcasting, .lifecycle (.disconnect 0), connecting] = true ∧
      ((Traffic.start [.zeroed]).run
        [connecting, broadcasting, .lifecycle (.disconnect 0), connecting]).clients.record 0
          = some (connectedCtx, 1, sharedRecord 1) ∧
      ¬Session.Silent
        ⟨connectedCtx, sharedRecord 1, ((Traffic.start [.zeroed]).run
          [connecting, broadcasting, .lifecycle (.disconnect 0), connecting]).port "/dev/ttyUSB0" idlePort⟩
        (((Traffic.start [.zeroed]).run
          [connecting, broadcasting, .lifecycle (.disconnect 0), connecting]).last "/dev/ttyUSB0") := by
  refine ⟨?_, ?_, ?_⟩
  . decide +kernel
  . decide +kernel
  . decide +kernel

end Rtu.Client
