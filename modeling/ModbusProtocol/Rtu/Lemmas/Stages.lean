import ModbusProtocol.Data.Records
import ModbusProtocol.Rtu.Impl.Threads

/-!
This module contains what the threads of a process have of the shared buses at each stage of a function: the locks
that they hold and the record that they use. It also contains the rules for those who call the functions.
-/

open Modbus Posix

namespace Rtu.Client

variable {m n : Nat}

namespace Stage

def isConnect : Stage → Bool
  | .connectResolves _ | .connectAttaches _ | .connectUnlocks _ | .connectEnds _ => true
  | _ => false

def isTransact : Stage → Bool
  | .transactLocks _ | .transactChecks _ | .transactBegins _ | .transactSends _ _ | .transactEchoes _ _
  | .transactReceives _ | .transactEnds _ | .transactUnlocks => true
  | _ => false

def isSet : Stage → Bool
  | .setLocks _ | .setWrites _ | .setUnlocks => true
  | _ => false

def isDisconnect : Stage → Bool
  | .disconnectLocks | .disconnectDetaches | .disconnectDrops | .disconnectUnlocks | .disconnectClears
  | .disconnectReleases | .disconnectDestroys => true
  | _ => false

def isLifecycle (stage : Stage) : Bool :=
  stage.isConnect || stage.isDisconnect

-- a request, or a change of the unit id, that does not have the lock of its context yet
def isWaiting : Stage → Bool
  | .transactLocks _ | .setLocks _ => true
  | _ => false

-- How far a thread is from the locks that come last.
def rank : Stage → Nat
  | .transactLocks _ | .setLocks _ | .disconnectLocks => 2
  | .connectResolves _ | .transactBegins _ | .disconnectDetaches => 1
  | _ => 0

-- between `bus_transaction_begin` and `bus_transaction_end` on this record
def isOn (bus : Address) : Stage → Bool
  | .transactSends _ bus' | .transactEchoes _ bus' | .transactReceives bus' | .transactEnds bus' => bus' = bus
  | _ => false

-- `shared_bus_attach` has returned this record
def hasJoined (bus : Address) : Stage → Bool
  | .connectUnlocks (some bus') | .connectEnds (some bus') => bus' = bus
  | _ => false

-- a disconnect that has the lock of its context, which is still marked as connected
def isDetaching : Stage → Bool
  | .disconnectDetaches | .disconnectDrops | .disconnectUnlocks | .disconnectClears => true
  | _ => false

-- behind the change of the record in `shared_bus_detach`
def hasLeft : Stage → Bool
  | .disconnectUnlocks | .disconnectClears => true
  | _ => false

def locks (index : Fin m) : Stage → List Lock
  | .connectAttaches _ | .connectUnlocks _ => [.registry]
  | .transactChecks _ | .transactBegins _ | .transactUnlocks | .setWrites _ | .setUnlocks
  | .disconnectDetaches | .disconnectClears | .disconnectReleases => [contextLock index]
  | .transactSends _ bus | .transactEchoes _ bus | .transactReceives bus | .transactEnds bus =>
    [busLock bus, contextLock index]
  | .disconnectDrops | .disconnectUnlocks => [.registry, contextLock index]
  | _ => []

end Stage

-- The lock of a context comes before those of the registry and of the records.
def Lock.rank : Lock → Nat
  | .owned (.context _) => 2
  | _ => 1

-- The locks of a thread.
def heldBy : Option (Frame m) → List Lock
  | none => []
  | some frame => frame.stage.locks frame.index

namespace Process

variable (p : Process m n)

def Busy (index : Fin m) (stage : Stage → Bool) : Prop :=
  ∃ thread, (p.frames thread).any (fun frame => frame.index = index && stage frame.stage) = true

instance (index : Fin m) (stage : Stage → Bool) : Decidable (p.Busy index stage) := by
  unfold Busy
  infer_instance

-- The thread is within a transaction on the record, or is about to lock the mutex for one.
def Uses (thread : Fin n) (bus : Address) : Prop :=
  ∃ index stage, p.frames thread = some ⟨index, stage⟩ ∧
    (stage.isOn bus = true ∨ ∃ unitId, stage = .transactBegins unitId ∧ (p.ctxs index).sharedBus = some bus)

-- From the end of its `shared_bus_attach` to its `shared_bus_detach`.
def Attached (index : Fin m) (bus : Address) : Prop :=
  (p.ctxs index).attachedTo bus = true ∧ ¬p.Busy index Stage.hasLeft ∨ p.Busy index (Stage.hasJoined bus)

structure Sound : Prop where
  exclusive : ∀ bus thread thread' frame frame', p.frames thread = some frame
    → p.frames thread' = some frame' → frame.stage.isOn bus = true → frame'.stage.isOn bus = true
    → thread = thread'
  used : ∀ thread bus, p.Uses thread bus → bus ∈ Records.keys p.reg
  attached : ∀ index bus, p.Attached index bus → bus ∈ Records.keys p.reg
  kept : ∀ thread l, l ∈ heldBy (p.frames thread) → p.locks l = .held thread
  unlocked : ∀ thread l, p.frames thread = none → p.locks l ≠ .held thread
  live : ∀ thread, (p.frames thread).isSome → ∃ thread' outcome, (p.step thread' outcome).isSome

-- A record that is closed and freed is not used, and no context is attached to it.
def Outlasts (p' : Process m n) : Prop :=
  ∀ bus ∈ Records.keys p.reg, bus ∉ Records.keys p'.reg
    → (∀ thread, ¬p.Uses thread bus) ∧ ∀ index, ¬p'.Attached index bus

end Process

-- No request starts on a context during its disconnect, and one call at a time connects or disconnects it. After
-- the disconnect, a request does nothing.
def Move.Legal (move : Move m n) (p : Process m n) : Prop :=
  match move with
  | .call _ (.connect index _ _) | .call _ (.disconnect index) => ¬p.Busy index Stage.isLifecycle
  | .call _ (.transact index _) => ¬p.Busy index Stage.isDisconnect
  | _ => True

instance (move : Move m n) (p : Process m n) : Decidable (move.Legal p) := by
  unfold Move.Legal
  split
  all_goals infer_instance

-- Memory is not allocated twice.
def Frame.Honest (frame : Frame m) (p : Process m n) : Prop :=
  match frame.stage with
  | .connectAttaches env => ∀ bus ∈ env.calloc, bus ∉ Records.keys p.reg
  | _ => True

instance (frame : Frame m) (p : Process m n) : Decidable (frame.Honest p) := by
  unfold Frame.Honest
  split
  all_goals infer_instance

def Move.Honest (move : Move m n) (p : Process m n) : Prop :=
  match move with
  | .call _ _ => True
  | .step thread _ => ∀ frame ∈ p.frames thread, frame.Honest p

instance (move : Move m n) (p : Process m n) : Decidable (move.Honest p) := by
  unfold Move.Honest
  split
  all_goals infer_instance

-- When a disconnect gets the lock of its context, nothing else waits for it. When a context is attached to a
-- record, the reference count does not wrap around.
def Frame.Orderly (frame : Frame m) (p : Process m n) : Prop :=
  match frame.stage with
  | .disconnectLocks => ¬p.Busy frame.index Stage.isWaiting
  | .connectAttaches env =>
    ∀ key ∈ resolveBusKey (p.ctxs frame.index).cfg.device env, ∀ entry ∈ findBus p.reg key,
      entry.2.refcnt.toNat + 1 < 2 ^ 32
  | _ => True

instance (frame : Frame m) (p : Process m n) : Decidable (frame.Orderly p) := by
  unfold Frame.Orderly
  split
  all_goals infer_instance

-- No change of the unit id starts on a context that a disconnect is about to mark.
def Move.Orderly (move : Move m n) (p : Process m n) : Prop :=
  match move with
  | .call _ (.setUnitId index _) => ¬p.Busy index Stage.isDetaching
  | .call _ _ => True
  | .step thread _ => ∀ frame ∈ p.frames thread, frame.Orderly p

instance (move : Move m n) (p : Process m n) : Decidable (move.Orderly p) := by
  unfold Move.Orderly
  split
  all_goals infer_instance

-- A thread on a context waits for its lock, has it, or connects or disconnects it.
theorem Stage.waits_or (stage : Stage) (index : Fin m)
    : stage.isWaiting = true ∨ contextLock index ∈ stage.locks index ∨ stage.isLifecycle = true := by
  cases stage
  all_goals first
    | exact .inl rfl
    | exact .inr (.inl List.mem_cons_self)
    | exact .inr (.inl (List.mem_cons_of_mem _ List.mem_cons_self))
    | exact .inr (.inr rfl)

theorem Stage.function (stage : Stage)
    : stage.isConnect = true ∨ stage.isTransact = true ∨ stage.isSet = true ∨ stage.isDisconnect = true := by
  cases stage
  all_goals first
    | exact .inl rfl
    | exact .inr (.inl rfl)
    | exact .inr (.inr (.inl rfl))
    | exact .inr (.inr (.inr rfl))

theorem Stage.isDisconnect_of_isDetaching (stage : Stage) (h : stage.isDetaching = true)
    : stage.isDisconnect = true := by
  cases stage
  all_goals first
    | rfl
    | contradiction

theorem Stage.locks_of_isDetaching (stage : Stage) (h : stage.isDetaching = true) (index : Fin m)
    : contextLock index ∈ stage.locks index := by
  cases stage
  all_goals first
    | contradiction
    | exact List.mem_cons_self
    | exact List.mem_cons_of_mem _ List.mem_cons_self

theorem contextLock_ne {i : Fin m} (hi : i ≠ index)
    : contextLock i ≠ contextLock index := by
  intro heq
  apply hi
  injection heq with heq
  injection heq with heq
  exact Fin.ext heq

theorem index_of_contextLock {index index' : Fin m} {stage : Stage}
    (h : contextLock index ∈ stage.locks index')
    : index' = index := by
  cases stage
  all_goals
    unfold Stage.locks at h
    simp [contextLock, busLock] at h
  all_goals exact Fin.ext h.symm

theorem rank_of_held {index : Fin m} {stage : Stage} {l : Lock} (h : l ∈ stage.locks index)
    : stage.rank < l.rank := by
  cases stage
  all_goals
    unfold Stage.locks at h
    simp only [List.not_mem_nil, List.mem_cons, or_false] at h
  all_goals first
    | rw [h]
      exact Nat.zero_lt_succ _
    | rw [h]
      exact Nat.one_lt_two
    | obtain h | h := h
      all_goals
        rw [h]
        exact Nat.zero_lt_succ _

theorem busLock_of_isOn {index : Fin m} {bus : Address} {stage : Stage} (h : stage.isOn bus = true)
    : busLock bus ∈ stage.locks index := by
  cases stage
  all_goals
    unfold Stage.isOn at h
    first
    | contradiction
    | rw [of_decide_eq_true h]
      exact List.mem_cons_self

theorem isOn_of_busLock {index : Fin m} {bus : Address} {stage : Stage}
    (h : busLock bus ∈ stage.locks index)
    : stage.isOn bus = true := by
  cases stage
  all_goals
    unfold Stage.locks at h
    simp [contextLock, busLock] at h
  all_goals
    unfold Stage.isOn
    simp [h]

namespace Process

variable {p q : Process m n} {thread : Fin n} {l : Lock}

theorem lock_eq_some (h : p.lock thread l = some q)
    : p.locks l = .free ∧ q = { p with locks := Function.update p.locks l (.held thread) } := by
  unfold lock at h
  split at h
  next hfree =>
    injection h with h
    exact ⟨hfree, h.symm⟩
  . contradiction

theorem unlock_eq_some (h : p.unlock thread l = some q)
    : p.locks l = .held thread ∧ q = { p with locks := Function.update p.locks l .free } := by
  unfold unlock at h
  split at h
  next hheld =>
    injection h with h
    exact ⟨hheld, h.symm⟩
  . contradiction

theorem lock_reg (h : p.lock thread l = some q)
    : q.reg = p.reg := by
  rw [(lock_eq_some h).2]

theorem unlock_reg (h : p.unlock thread l = some q)
    : q.reg = p.reg := by
  rw [(unlock_eq_some h).2]

theorem lock_of_free {l : Lock} (h : p.locks l = .free)
    : p.lock thread l = some { p with locks := Function.update p.locks l (.held thread) } := by
  unfold lock
  rw [if_pos h]

theorem unlock_of_held {l : Lock} (h : p.locks l = .held thread)
    : p.unlock thread l = some { p with locks := Function.update p.locks l .free } := by
  unfold unlock
  rw [if_pos h]

theorem step_of_frame {index : Fin m} {stage : Stage} (hframe : p.frames thread = some ⟨index, stage⟩)
    (outcome : Bool)
    : p.step thread outcome = p.advance thread index stage outcome := by
  unfold step
  rw [hframe]

theorem busy_iff {index : Fin m} {check : Stage → Bool}
    : p.Busy index check ↔ ∃ thread stage, p.frames thread = some ⟨index, stage⟩ ∧ check stage = true := by
  unfold Busy
  constructor
  . rintro ⟨thread, hbusy⟩
    obtain ⟨⟨index', stage⟩, hframe, hboth⟩ := (Option.any_eq_true _ _).mp hbusy
    obtain ⟨hindex, hstage⟩ := Bool.and_eq_true_iff.mp hboth
    have hsame : index' = index := of_decide_eq_true hindex
    rw [hsame] at hframe
    exact ⟨thread, stage, hframe, hstage⟩
  . rintro ⟨thread, stage, hframe, hstage⟩
    refine ⟨thread, ?_⟩
    rw [hframe]
    simp [hstage]

theorem not_busy {index : Fin m} {stage : Stage} {check : Stage → Bool} (hbusy : ¬p.Busy index check)
    (hframe : p.frames thread = some ⟨index, stage⟩)
    : check stage = false := by
  apply Bool.eq_false_of_not_eq_true
  intro hstage
  exact hbusy (busy_iff.mpr ⟨thread, stage, hframe, hstage⟩)

theorem not_busy_of_imp {index : Fin m} {check check' : Stage → Bool} (hbusy : ¬p.Busy index check)
    (himp : ∀ stage, check' stage = true → check stage = true)
    : ¬p.Busy index check' := by
  intro hbusy'
  obtain ⟨thread, stage, hframe, hstage⟩ := busy_iff.mp hbusy'
  exact hbusy (busy_iff.mpr ⟨thread, stage, hframe, himp stage hstage⟩)

end Process

end Rtu.Client
