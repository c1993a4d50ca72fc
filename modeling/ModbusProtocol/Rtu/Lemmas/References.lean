import Mathlib.Data.Fintype.Basic
import Mathlib.Data.Finset.Card
import ModbusProtocol.Rtu.Impl.Threads
import ModbusProtocol.Rtu.Lemmas.Registry

/-!
This module contains the reference counts of the shared buses. A record counts the contexts that refer to it,
wherever they are between two connects, and has its mutex as long as one does.
-/

open Modbus Posix

namespace Rtu.Client

variable {m n : Nat}

-- Where a context is between two connects, and which thread has it.
inductive Phase (n : Nat) where
  | off
  | connecting (thread : Fin n) (bus : Option Address)
  | on (bus : Address)
  | leaving (thread : Fin n) (bus : Address)
  | detached (thread : Fin n)
  | cleared (thread : Fin n)

namespace Phase

-- the record that counts a reference of the context
def bus : Phase n → Option Address
  | .connecting _ bus => bus
  | .on bus | .leaving _ bus => some bus
  | _ => none

def thread : Phase n → Option (Fin n)
  | .connecting thread _ | .leaving thread _ | .detached thread | .cleared thread => some thread
  | _ => none

end Phase

def references (phase : Fin m → Phase n) (bus : Address) : Finset (Fin m) :=
  Finset.univ.filter fun index => (phase index).bus = some bus

structure Counted (reg : Registry) (locks : Lock → Mutex (Fin n)) (phase : Fin m → Phase n) : Prop where
  addresses : (Records.keys reg).Nodup
  descriptors : ∀ entry ∈ reg, 0 ≤ entry.2.fd
  mutexes : ∀ bus, locks (busLock bus) ≠ .absent ↔ bus ∈ Records.keys reg
  counted : ∀ entry ∈ reg, entry.2.refcnt.toNat = (references phase entry.1).card
  positive : ∀ entry ∈ reg, 0 < entry.2.refcnt
  led : ∀ index bus, (phase index).bus = some bus → bus ∈ Records.keys reg

theorem Counted.congr {reg : Registry} {locks locks' : Lock → Mutex (Fin n)} {phase : Fin m → Phase n}
    (h : Counted reg locks phase) (hlocks : ∀ l, locks' l = .absent ↔ locks l = .absent)
    : Counted reg locks' phase := by
  refine ⟨h.addresses, h.descriptors, ?_, h.counted, h.positive, h.led⟩
  intro bus
  rw [← h.mutexes bus]
  exact not_congr (hlocks _)

theorem absent_update {locks : Lock → Mutex (Fin n)} {l : Lock} {lock : Mutex (Fin n)}
    (hold : locks l ≠ .absent) (hnew : lock ≠ .absent) (l' : Lock)
    : Function.update locks l lock l' = .absent ↔ locks l' = .absent := by
  by_cases hl : l' = l
  . rw [hl, Function.update_self]
    exact iff_of_false hnew hold
  . rw [Function.update_of_ne hl]

section References

variable {phase : Fin m → Phase n} {index : Fin m} {next : Phase n}

theorem mem_references {bus : Address}
    : index ∈ references phase bus ↔ (phase index).bus = some bus := by
  simp [references]

theorem bus_update (hbus : next.bus = (phase index).bus) (i : Fin m)
    : (Function.update phase index next i).bus = (phase i).bus := by
  by_cases hi : i = index
  . rw [hi, Function.update_self, hbus]
  . rw [Function.update_of_ne hi]

theorem references_same (hbus : next.bus = (phase index).bus) (bus : Address)
    : references (Function.update phase index next) bus = references phase bus := by
  unfold references
  simp only [bus_update hbus]

theorem references_other {bus : Address} (hold : (phase index).bus ≠ some bus)
    (hnew : next.bus ≠ some bus)
    : references (Function.update phase index next) bus = references phase bus := by
  ext i
  rw [mem_references, mem_references]
  by_cases hi : i = index
  . rw [hi, Function.update_self]
    exact iff_of_false hnew hold
  . rw [Function.update_of_ne hi]

theorem card_references_join {bus : Address} (hold : (phase index).bus ≠ some bus)
    (hnew : next.bus = some bus)
    : (references (Function.update phase index next) bus).card = (references phase bus).card + 1 := by
  have hinsert : references (Function.update phase index next) bus
      = insert index (references phase bus) := by
    ext i
    rw [Finset.mem_insert, mem_references, mem_references]
    by_cases hi : i = index
    . rw [hi, Function.update_self]
      exact iff_of_true hnew (.inl rfl)
    . rw [Function.update_of_ne hi]
      simp [hi]
  rw [hinsert]
  apply Finset.card_insert_of_notMem
  rw [mem_references]
  exact hold

theorem card_references_leave {bus : Address} (hold : (phase index).bus = some bus)
    (hnew : next.bus ≠ some bus)
    : (references (Function.update phase index next) bus).card + 1 = (references phase bus).card := by
  have herase : references (Function.update phase index next) bus
      = (references phase bus).erase index := by
    ext i
    rw [Finset.mem_erase, mem_references, mem_references]
    by_cases hi : i = index
    . rw [hi, Function.update_self]
      exact iff_of_false hnew (fun h => h.1 rfl)
    . rw [Function.update_of_ne hi]
      simp [hi]
  rw [herase]
  apply Finset.card_erase_add_one
  rw [mem_references]
  exact hold

end References

namespace Counted

variable {reg : Registry} {locks : Lock → Mutex (Fin n)} {phase : Fin m → Phase n} {index : Fin m}
  {next : Phase n}

theorem same (h : Counted reg locks phase) (hbus : next.bus = (phase index).bus)
    : Counted reg locks (Function.update phase index next) := by
  refine ⟨h.addresses, h.descriptors, h.mutexes, ?_, h.positive, ?_⟩
  . intro entry hmem
    rw [references_same hbus]
    exact h.counted entry hmem
  . intro i bus
    rw [bus_update hbus]
    exact h.led i bus

theorem join (h : Counted reg locks phase) {entry : Address × SharedBus} (hmem : entry ∈ reg)
    (hlimit : entry.2.refcnt.toNat + 1 < 2 ^ 32) (hold : (phase index).bus = none)
    (hnew : next.bus = some entry.1)
    : Counted (Records.update reg entry.1 (SharedBus.recount Client.counted)) locks
        (Function.update phase index next) := by
  have hkeys : Records.keys (Records.update reg entry.1 (SharedBus.recount Client.counted))
      = Records.keys reg := Records.keys_update _
  have hcount := Clients.Registered.counted_toNat hlimit
  constructor
  . rw [hkeys]
    exact h.addresses
  . intro entry' hmem'
    obtain ⟨_, hmem'⟩ | ⟨_, record, hmem', heq⟩ := Records.mem_update.mp hmem'
    . exact h.descriptors _ hmem'
    . rw [heq]
      exact h.descriptors _ hmem'
  . rw [hkeys]
    exact h.mutexes
  . intro entry' hmem'
    obtain ⟨hne, hmem'⟩ | ⟨heq, record, hmem', hrecord⟩ := Records.mem_update.mp hmem'
    . rw [references_other (by simp [hold]) (by rw [hnew]; simp [Ne.symm hne])]
      exact h.counted _ hmem'
    . have hsame := Records.eq_of_key_eq h.addresses hmem' hmem rfl
      rw [hrecord, heq, card_references_join (by simp [hold]) hnew, ← h.counted entry hmem, ← hsame]
      rw [← hsame] at hcount
      exact hcount
  . intro entry' hmem'
    obtain ⟨_, hmem'⟩ | ⟨_, record, hmem', hrecord⟩ := Records.mem_update.mp hmem'
    . exact h.positive _ hmem'
    . have hsame := Records.eq_of_key_eq h.addresses hmem' hmem rfl
      rw [hrecord, UInt32.lt_iff_toNat_lt]
      rw [← hsame] at hcount
      change 0 < (Client.counted record.refcnt).toNat
      rw [hcount]
      omega
  . rw [hkeys]
    intro i bus
    by_cases hi : i = index
    . rw [hi, Function.update_self, hnew]
      intro heq
      injection heq with heq
      rw [← heq]
      exact Records.mem_keys hmem
    . rw [Function.update_of_ne hi]
      exact h.led i bus

-- A new record, with its first reference and its mutex.
theorem cons (h : Counted reg locks phase) {bus : Address} {record : SharedBus}
    (hbus : bus ∉ Records.keys reg) (hfd : 0 ≤ record.fd) (hone : record.refcnt = 1)
    (hold : (phase index).bus = none) (hnew : next.bus = some bus)
    : Counted ((bus, record) :: reg) (Function.update locks (busLock bus) .free)
        (Function.update phase index next) := by
  have hunreferenced : references phase bus = ∅ := by
    apply Finset.eq_empty_of_forall_notMem
    intro i hi
    exact hbus (h.led i bus (mem_references.mp hi))
  constructor
  . exact List.nodup_cons.mpr ⟨hbus, h.addresses⟩
  . intro entry hmem
    cases List.mem_cons.mp hmem with
    | inl heq =>
      rw [heq]
      exact hfd
    | inr hmem => exact h.descriptors entry hmem
  . intro bus'
    change _ ↔ bus' ∈ bus :: Records.keys reg
    rw [List.mem_cons]
    by_cases heq : bus' = bus
    . rw [heq, Function.update_self]
      simp
    . rw [Function.update_of_ne (by simpa [busLock] using heq), h.mutexes]
      simp [heq]
  . intro entry hmem
    cases List.mem_cons.mp hmem with
    | inl heq =>
      rw [heq]
      dsimp only
      rw [card_references_join (by simp [hold]) hnew, hunreferenced, hone]
      rfl
    | inr hmem =>
      have hne : entry.1 ≠ bus := fun heq => hbus (heq ▸ Records.mem_keys hmem)
      rw [references_other (by simp [hold]) (by rw [hnew]; simp [Ne.symm hne])]
      exact h.counted entry hmem
  . intro entry hmem
    cases List.mem_cons.mp hmem with
    | inl heq =>
      rw [heq]
      dsimp only
      rw [hone]
      decide
    | inr hmem => exact h.positive entry hmem
  . intro i bus' hled
    change bus' ∈ bus :: Records.keys reg
    by_cases hi : i = index
    . rw [hi, Function.update_self, hnew] at hled
      injection hled with heq
      rw [heq]
      exact List.mem_cons_self
    . rw [Function.update_of_ne hi] at hled
      exact List.mem_cons_of_mem _ (h.led i bus' hled)

-- One reference less, of several.
theorem leave (h : Counted reg locks phase) {entry : Address × SharedBus} (hmem : entry ∈ reg)
    (hmore : entry.2.refcnt ≠ 1) (hold : (phase index).bus = some entry.1) (hnew : next.bus = none)
    : Counted (Records.update reg entry.1 (SharedBus.recount uncounted)) locks
        (Function.update phase index next) := by
  have hkeys : Records.keys (Records.update reg entry.1 (SharedBus.recount uncounted))
      = Records.keys reg := Records.keys_update _
  have hpos := h.positive entry hmem
  have hcount : (uncounted entry.2.refcnt).toNat = entry.2.refcnt.toNat - 1 ∧
      1 < entry.2.refcnt.toNat := by
    have hmore' : entry.2.refcnt.toNat ≠ 1 := fun heq => hmore (UInt32.toNat_inj.mp heq)
    rw [uncounted_of_pos hpos]
    rw [UInt32.lt_iff_toNat_lt] at hpos
    change 0 < entry.2.refcnt.toNat at hpos
    rw [UInt32.toNat_sub_of_le]
    . exact ⟨rfl, by omega⟩
    . rw [UInt32.le_iff_toNat_le]
      exact hpos
  constructor
  . rw [hkeys]
    exact h.addresses
  . intro entry' hmem'
    obtain ⟨_, hmem'⟩ | ⟨_, record, hmem', heq⟩ := Records.mem_update.mp hmem'
    . exact h.descriptors _ hmem'
    . rw [heq]
      exact h.descriptors _ hmem'
  . rw [hkeys]
    exact h.mutexes
  . intro entry' hmem'
    obtain ⟨hne, hmem'⟩ | ⟨heq, record, hmem', hrecord⟩ := Records.mem_update.mp hmem'
    . rw [references_other (by rw [hold]; simp [Ne.symm hne]) (by simp [hnew])]
      exact h.counted _ hmem'
    . have hsame := Records.eq_of_key_eq h.addresses hmem' hmem rfl
      have hcard := card_references_leave hold (by rw [hnew]; simp)
      rw [← h.counted entry hmem] at hcard
      rw [hrecord, heq]
      change (uncounted record.refcnt).toNat = _
      rw [← hsame] at hcount hcard
      dsimp only at hcount hcard
      rw [hcount.1, ← hsame]
      dsimp only
      omega
  . intro entry' hmem'
    obtain ⟨_, hmem'⟩ | ⟨_, record, hmem', hrecord⟩ := Records.mem_update.mp hmem'
    . exact h.positive _ hmem'
    . have hsame := Records.eq_of_key_eq h.addresses hmem' hmem rfl
      rw [← hsame] at hcount
      dsimp only at hcount
      rw [hrecord, UInt32.lt_iff_toNat_lt]
      change 0 < (uncounted record.refcnt).toNat
      rw [hcount.1]
      omega
  . rw [hkeys]
    intro i bus hled
    by_cases hi : i = index
    . rw [hi, Function.update_self, hnew] at hled
      contradiction
    . rw [Function.update_of_ne hi] at hled
      exact h.led i bus hled

-- The last reference to a record is that of this context.
theorem unlink (h : Counted reg locks phase) {entry : Address × SharedBus} (hmem : entry ∈ reg)
    (hone : entry.2.refcnt = 1) (hold : (phase index).bus = some entry.1) (hnew : next.bus = none)
    : Counted (Records.unlink reg entry.1) (Function.update locks (busLock entry.1) .absent)
        (Function.update phase index next) ∧
      ∀ i, (phase i).bus = some entry.1 → i = index := by
  have hcard : (references phase entry.1).card = 1 := by
    rw [← h.counted entry hmem, hone]
    rfl
  have honly : ∀ i, (phase i).bus = some entry.1 → i = index := by
    intro i hi
    obtain ⟨only, heq⟩ := Finset.card_eq_one.mp hcard
    have hi' : i ∈ references phase entry.1 := mem_references.mpr hi
    have hindex : index ∈ references phase entry.1 := mem_references.mpr hold
    rw [heq, Finset.mem_singleton] at hi' hindex
    rw [hi', hindex]
  refine ⟨?_, honly⟩
  constructor
  . exact Records.keys_unlink h.addresses
  . intro entry' hmem'
    exact h.descriptors _ ((Records.mem_unlink h.addresses).mp hmem').1
  . intro bus
    by_cases heq : bus = entry.1
    . rw [heq, Function.update_self]
      apply iff_of_false (fun hne => hne rfl)
      intro hkey
      obtain ⟨entry', hmem', hkey'⟩ := List.mem_map.mp hkey
      exact ((Records.mem_unlink h.addresses).mp hmem').2 hkey'
    . rw [Function.update_of_ne (by simpa [busLock] using heq), h.mutexes]
      have hrest := @Records.mem_map_unlink _ _ _ reg _ Prod.fst h.addresses h.addresses entry hmem bus
      constructor
      . intro hkey
        exact hrest.mpr ⟨hkey, heq⟩
      . intro hkey
        exact (hrest.mp hkey).1
  . intro entry' hmem'
    obtain ⟨hmem', hne⟩ := (Records.mem_unlink h.addresses).mp hmem'
    rw [references_other (by rw [hold]; simp [Ne.symm hne]) (by simp [hnew])]
    exact h.counted _ hmem'
  . intro entry' hmem'
    exact h.positive _ ((Records.mem_unlink h.addresses).mp hmem').1
  . intro i bus hled
    by_cases hi : i = index
    . rw [hi, Function.update_self, hnew] at hled
      contradiction
    . rw [Function.update_of_ne hi] at hled
      have hne : bus ≠ entry.1 := by
        intro heq
        rw [heq] at hled
        exact hi (honly i hled)
      obtain ⟨entry', hmem', heq⟩ := List.mem_map.mp (h.led i bus hled)
      rw [← heq]
      apply Records.mem_keys
      apply (Records.mem_unlink h.addresses).mpr
      rw [heq]
      exact ⟨hmem', hne⟩

end Counted

-- A record is found, or it is a new one.
theorem sharedBusAttach_found {reg : Registry} {serial : SerialConfig} {env : ConnectEnv}
    {entry : Address × SharedBus} (h : (sharedBusAttach reg serial env).1 = some entry)
    : (∃ key ∈ resolveBusKey serial.device env, entry ∈ findBus reg key) ∨ env.calloc = some entry.1 := by
  unfold sharedBusAttach at h
  cases hkey : resolveBusKey serial.device env with
  | none =>
    rw [hkey] at h
    contradiction
  | some key =>
    rw [hkey] at h
    dsimp only at h
    cases hfind : findBus reg key with
    | some found =>
      rw [hfind] at h
      dsimp only at h
      by_cases hmatch : busSettingsMatch found.2 serial = true
      . rw [if_pos hmatch] at h
        injection h with h
        rw [← h]
        exact .inl ⟨key, rfl, hfind⟩
      . rw [if_neg hmatch] at h
        contradiction
    | none =>
      right
      rw [hfind] at h
      dsimp only at h
      have hopening := openBus_opening reg key serial env
      generalize openBus reg key serial env = opened at h hopening
      cases hopening with
      | failed => contradiction
      | opened hcalloc _ =>
        injection h with h
        rw [← h]
        exact hcalloc

namespace Process

variable {p : Process m n} {phase : Fin m → Phase n} {index : Fin m} {next : Phase n}

-- At most one mutex comes into being.
theorem attach_counted (h : Counted p.reg p.locks phase) (hold : (phase index).bus = none)
    {serial : SerialConfig} {env : ConnectEnv}
    (hhonest : ∀ bus ∈ env.calloc, bus ∉ Records.keys p.reg)
    (hlimit : ∀ key ∈ resolveBusKey serial.device env, ∀ entry ∈ findBus p.reg key,
      entry.2.refcnt.toNat + 1 < 2 ^ 32)
    (hnew : next.bus = (p.attach serial env).1)
    : ∃ reg locks, (p.attach serial env).2 = { p with reg := reg, locks := locks } ∧
        Counted reg locks (Function.update phase index next) ∧
        (∀ bus ∈ Records.keys p.reg, bus ∈ Records.keys reg) ∧
        (locks = p.locks ∨
          ∃ bus, p.locks (busLock bus) = .absent ∧ locks = Function.update p.locks (busLock bus) .free) := by
  have hattaching := sharedBusAttach_attaching p.reg serial env
  have hfound := fun entry => @sharedBusAttach_found p.reg serial env entry
  unfold attach at hnew ⊢
  generalize sharedBusAttach p.reg serial env = attached at hattaching hfound hnew ⊢
  cases hattaching with
  | refused hacts =>
    dsimp only at hnew ⊢
    exact ⟨p.reg, p.locks, rfl, h.same (hnew.trans hold.symm), fun _ => id, .inl rfl⟩
  | @joined entry hmem hmatch =>
    have hget : getBus p.reg entry.1 = some entry.2 := Records.get_eq_some h.addresses hmem
    have hbelow : entry.2.refcnt.toNat + 1 < 2 ^ 32 := by
      obtain ⟨key, hkey, hfind⟩ | hcalloc := hfound entry rfl
      . exact hlimit key hkey entry hfind
      . exact absurd (Records.mem_keys hmem) (hhonest _ hcalloc)
    dsimp only at hnew ⊢
    rw [hget] at hnew ⊢
    refine ⟨_, p.locks, rfl, h.join hmem hbelow hold hnew, ?_, .inl rfl⟩
    intro bus hbus
    rw [Records.keys_update]
    exact hbus
  | @opened key hkey bus fd hcalloc hfd =>
    have hbus := hhonest bus hcalloc
    have hget : getBus p.reg bus = none := by
      cases hget : getBus p.reg bus with
      | none => rfl
      | some record => exact absurd (Records.mem_keys (Records.mem_of_get hget)) hbus
    have habsent : p.locks (busLock bus) = .absent := by
      apply Decidable.of_not_not
      intro hne
      exact hbus ((h.mutexes bus).mp hne)
    dsimp only at hnew ⊢
    rw [hget] at hnew ⊢
    rw [Records.update_cons_of_notMem hbus]
    refine ⟨_, _, rfl, h.cons hbus hfd rfl hold hnew, ?_, .inr ⟨bus, habsent, rfl⟩⟩
    intro bus' hbus'
    exact List.mem_cons_of_mem _ hbus'

-- At most one mutex is destroyed, and it is that of a record without other references.
theorem detach_counted (h : Counted p.reg p.locks phase) {bus : Address}
    (hold : (phase index).bus = some bus) (hnew : next.bus = none)
    : ∃ reg locks, p.detach bus = some { p with reg := reg, locks := locks } ∧
        Counted reg locks (Function.update phase index next) ∧
        (∀ bus' ∈ Records.keys p.reg, bus' ∉ Records.keys reg → bus' = bus) ∧
        (locks = p.locks ∨
          locks = Function.update p.locks (busLock bus) .absent ∧
            ∀ i, (phase i).bus = some bus → i = index) := by
  obtain ⟨entry, hmem, rfl⟩ := List.mem_map.mp (h.led index bus hold)
  have hget : getBus p.reg entry.1 = some entry.2 := Records.get_eq_some h.addresses hmem
  have heq := sharedBusDetach_eq h.addresses hmem (h.positive entry hmem) (h.descriptors entry hmem)
  unfold detach
  rw [hget, heq]
  dsimp only
  by_cases hone : entry.2.refcnt = 1
  . have hunlinked : getBus (Records.unlink p.reg entry.1) entry.1 = none := by
      cases hget' : getBus (Records.unlink p.reg entry.1) entry.1 with
      | none => rfl
      | some record =>
        exact absurd rfl ((Records.mem_unlink h.addresses).mp (Records.mem_of_get hget')).2
    obtain ⟨hcounted, honly⟩ := h.unlink hmem hone hold hnew
    rw [if_pos hone]
    dsimp only
    rw [hunlinked]
    refine ⟨_, _, rfl, hcounted, ?_, .inr ⟨rfl, honly⟩⟩
    intro bus' hbus' hout
    apply Decidable.of_not_not
    intro hne
    exact hout ((Records.mem_map_unlink h.addresses h.addresses hmem).mpr ⟨hbus', hne⟩)
  . have hcounted := h.leave hmem hone hold hnew
    have hget' : getBus (Records.update p.reg entry.1 (SharedBus.recount uncounted)) entry.1
        = some (entry.2.recount uncounted) := by
      apply Records.get_eq_some hcounted.addresses
      rw [Records.mem_update]
      exact .inr ⟨rfl, entry.2, hmem, rfl⟩
    rw [if_neg hone]
    dsimp only
    rw [hget']
    refine ⟨_, p.locks, rfl, hcounted, ?_, .inl rfl⟩
    intro bus' hbus' hout
    rw [Records.keys_update] at hout
    contradiction

end Process

end Rtu.Client
