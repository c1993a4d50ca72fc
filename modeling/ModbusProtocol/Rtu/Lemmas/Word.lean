import ModbusProtocol.Rtu.Impl.Word
import ModbusProtocol.Rtu.Lemmas.Silence
import Mathlib.Algebra.Order.Floor.Div
import Mathlib.Data.Rat.Cast.Order
import Mathlib.Tactic.Linarith

/-!
This module contains the exactness of the timing: in the integer types of the source it is the timing over
all numbers, the silence between two frames is rounded up to a microsecond, and what is slept between two
transactions is right to a microsecond.
-/

open Posix

namespace Rtu.Word

open Client

theorem int64_eq_some {i : Int} (hle : -2 ^ 63 ≤ i) (hlt : i < 2 ^ 63)
    : int64 i = some i := by
  unfold int64
  rw [if_pos ⟨hle, hlt⟩]

theorem of_int64 {i j : Int} (h : int64 i = some j)
    : j = i ∧ i < 2 ^ 63 := by
  unfold int64 at h
  split at h
  next hrange =>
    injection h with h
    exact ⟨h.symm, hrange.2⟩
  . contradiction

-- The bits of a character.
def characterBits (serial : SerialConfig) : Nat :=
  Rtu.charBits (effectiveDataBits serial.dataBits) (effectiveStopBits serial.stopBits) serial.parity

theorem charBits_toNat (dataBits stopBits : UInt8) (parity : Parity)
    : (charBits dataBits stopBits parity).toNat = Rtu.charBits dataBits stopBits parity := by
  have hdata := dataBits.toNat_lt
  have hstop := stopBits.toNat_lt
  unfold charBits Rtu.charBits
  cases parity with
  | none => simp; omega
  | even => simp; omega
  | odd => simp; omega

theorem characterBits_le (serial : SerialConfig)
    : characterBits serial ≤ 512 := by
  have hdata := (effectiveDataBits serial.dataBits).toNat_lt
  have hstop := (effectiveStopBits serial.stopBits).toNat_lt
  unfold characterBits Rtu.charBits
  split
  . omega
  . omega

theorem effectiveBaudRate_pos (baudRate : UInt32)
    : 0 < (effectiveBaudRate baudRate).toNat := by
  unfold effectiveBaudRate
  split
  . decide
  next h =>
    apply Nat.pos_of_ne_zero
    intro hzero
    exact h (UInt32.toNat_inj.mp hzero)

theorem t35Dividend_toNat {charBits : UInt32} (baudRate : UInt32) (hbits : charBits.toNat ≤ 512)
    (hbaud : 0 < baudRate.toNat)
    : (t35Dividend charBits baudRate).toNat = charBits.toNat * 3500000 + baudRate.toNat - 1 := by
  have hlt := baudRate.toNat_lt
  have hsum : (charBits.toUInt64 * 3500000 + baudRate.toUInt64).toNat
      = charBits.toNat * 3500000 + baudRate.toNat := by
    simp
    omega
  unfold t35Dividend
  rw [UInt64.toNat_sub_of_le]
  . rw [hsum]
    rfl
  . rw [UInt64.le_iff_toNat_le]
    rw [hsum]
    change 1 ≤ _
    omega

-- The quotient fits the type that is returned, so that the word is the number.
theorem t35Us_eq (serial : SerialConfig)
    : t35Us serial = Rtu.t35Us serial := by
  have hpos := effectiveBaudRate_pos serial.baudRate
  have hle := characterBits_le serial
  unfold characterBits at hle
  unfold t35Us Rtu.t35Us
  dsimp only
  split
  . rfl
  . rw [← charBits_toNat] at hle ⊢
    apply UInt32.toNat_inj.mp
    rw [UInt64.toNat_toUInt32]
    rw [UInt64.toNat_div]
    rw [t35Dividend_toNat _ hle hpos]
    rw [UInt32.toNat_ofNat']
    rfl

-- The time of a character in microseconds.
def characterUs (serial : SerialConfig) : ℚ :=
  1000000 * characterBits serial / (effectiveBaudRate serial.baudRate).toNat

theorem characterUs_le_iff (serial : SerialConfig) (n : ℕ)
    : 7 / 2 * characterUs serial ≤ n ↔
      characterBits serial * 3500000 ≤ (effectiveBaudRate serial.baudRate).toNat * n := by
  have hpos : (0 : ℚ) < (effectiveBaudRate serial.baudRate).toNat := by
    exact_mod_cast effectiveBaudRate_pos serial.baudRate
  unfold characterUs
  rw [mul_div_assoc']
  rw [div_le_iff₀ hpos]
  rw [← @Nat.cast_le ℚ]
  push_cast
  constructor
  . intro h
    linarith
  . intro h
    linarith

-- A division that is rounded up is the least number that is large enough.
theorem t35Us_isLeast (serial : SerialConfig)
    (h : effectiveBaudRate serial.baudRate ≤ t35FixedBaudAbove)
    : IsLeast {n : ℕ | 7 / 2 * characterUs serial ≤ n} (Rtu.t35Us serial).toNat := by
  have hpos := effectiveBaudRate_pos serial.baudRate
  have hbits := characterBits_le serial
  have hleast := GaloisConnection.isLeast_l (gc_mul_ceilDiv hpos) (a := characterBits serial * 3500000)
  simp only [characterUs_le_iff]
  unfold Rtu.t35Us
  dsimp only
  rw [if_neg (UInt32.not_lt.mpr h)]
  rw [UInt32.toNat_ofNat_of_lt']
  . exact hleast
  . rw [UInt32.le_iff_toNat_le] at h
    apply Nat.lt_of_le_of_lt (Nat.div_le_self _ _)
    change _ ≤ 19200 at h
    change characterBits serial * 3500000 + _ - 1 < 4294967296
    omega

theorem requiredUs_toNat (bus : SharedBus) (unitId : UInt8) (interFrameUs handoffMs : UInt32)
    : (requiredUs bus unitId interFrameUs handoffMs).toNat
        = Client.requiredUs bus unitId interFrameUs handoffMs := by
  have hlt := handoffMs.toNat_lt
  have hmul : (handoffMs.toUInt64 * 1000).toNat = handoffMs.toNat * 1000 := by
    simp
    omega
  have hgt : handoffMs.toUInt64 * 1000 > interFrameUs.toUInt64 ↔
      handoffMs.toNat * 1000 > interFrameUs.toNat := by
    rw [gt_iff_lt]
    rw [UInt64.lt_iff_toNat_lt]
    rw [hmul]
    rfl
  unfold requiredUs Client.requiredUs
  simp only [hgt]
  split
  . exact hmul
  . rfl

-- Without an overflow, the elapsed time is the one over all numbers.
theorem of_elapsedUs {now last : Timespec} {us : Int} (h : elapsedUs now last = some us)
    : us = Client.elapsedUs now last ∧ us < 2 ^ 63 := by
  unfold elapsedUs at h
  obtain ⟨sec, hsec, h⟩ := Option.bind_eq_some_iff.mp h
  obtain ⟨secUs, hsecUs, h⟩ := Option.bind_eq_some_iff.mp h
  obtain ⟨nsec, hnsec, h⟩ := Option.bind_eq_some_iff.mp h
  have heq := (of_int64 h).1
  have hlt := (of_int64 h).2
  rw [(of_int64 hsecUs).1] at heq hlt
  rw [(of_int64 hsec).1] at heq hlt
  rw [(of_int64 hnsec).1] at heq hlt
  rw [heq]
  exact ⟨rfl, hlt⟩

-- The elapsed time is cast to an unsigned type only if it is not negative.
theorem toNat_of_waitBusSilence {bus : SharedBus} {now : Timespec} {unitId : UInt8}
    {interFrameUs handoffMs : UInt32} {us : UInt64} (hlast : bus.hasLastTransaction = true)
    (h : waitBusSilence bus now unitId interFrameUs handoffMs = some us)
    : us.toNat = sleepUs now bus.lastReleaseTime
        (Client.requiredUs bus unitId interFrameUs handoffMs) := by
  have hrequired := requiredUs_toNat bus unitId interFrameUs handoffMs
  unfold waitBusSilence at h
  rw [hlast] at h
  dsimp only at h
  unfold sleepUs
  rw [← hrequired]
  generalize requiredUs bus unitId interFrameUs handoffMs = required at h ⊢
  split at h
  . contradiction
  split at h
  next hzero =>
    injection h with h
    rw [← h, hzero]
    split
    next hlt =>
      have hlt := hlt.2
      simp at hlt
      omega
    . rfl
  . obtain ⟨elapsed, helapsed, h⟩ := Option.bind_eq_some_iff.mp h
    obtain ⟨heq, hlt⟩ := of_elapsedUs helapsed
    rw [← heq]
    have hcast : 0 ≤ elapsed → (UInt64.ofNat elapsed.toNat).toNat = elapsed.toNat := by
      intro _
      apply UInt64.toNat_ofNat_of_lt'
      change _ < 18446744073709551616
      omega
    have hless : elapsed ≥ 0 ∧ UInt64.ofNat elapsed.toNat < required ↔
        elapsed ≥ 0 ∧ elapsed < required.toNat := by
      apply and_congr_right
      intro hpos
      rw [UInt64.lt_iff_toNat_lt]
      rw [hcast hpos]
      omega
    simp only [hless] at h
    split at h
    next hrange =>
      injection h with h
      rw [← h]
      rw [UInt64.toNat_sub_of_le]
      . rw [hcast hrange.1]
        rw [if_pos hrange]
      . rw [UInt64.le_iff_toNat_le]
        rw [hcast hrange.1]
        omega
    next hrange =>
      injection h with h
      rw [← h]
      rw [if_neg hrange]
      rfl

-- What is slept in the source is what the line is slept.
theorem waitBusSilence_eq {bus : SharedBus} {line : Line} {unitId : UInt8}
    {interFrameUs handoffMs : UInt32} {us : UInt64}
    (h : waitBusSilence bus (clockGettime line).1 unitId interFrameUs handoffMs = some us)
    : Client.waitBusSilence bus line unitId interFrameUs handoffMs
        =
      if bus.hasLastTransaction = false ∨
          Client.requiredUs bus unitId interFrameUs handoffMs = 0 then
        line
      else if us = 0 then
        (clockGettime line).2
      else
        (clockGettime line).2.sleep (us.toNat * 1000) := by
  unfold Client.waitBusSilence
  cases hlast : bus.hasLastTransaction with
  | false => rfl
  | true =>
    have hzero : us.toNat = 0 ↔ us = 0 := @UInt64.toNat_inj us 0
    dsimp only
    rw [← toNat_of_waitBusSilence hlast h]
    simp only [hzero]
    simp

def Reading (time : Timespec) : Prop :=
  0 ≤ time.nsec ∧ time.nsec < 1000000000

-- The silence that has to be kept on a bus, in microseconds.
def silenceUs (cfg : ClientConfig) (bus : SharedBus) (unitId : UInt8) : Nat :=
  max (Client.effectiveInterFrameUs cfg bus).toNat
    (if bus.lastUnitId ≠ unitId then 1000 * (Client.effectiveHandoffSilenceMs cfg).toNat else 0)

structure T35Exact (serial : SerialConfig) : Prop where
  divisor : effectiveBaudRate serial.baudRate ≠ 0
  dividend : (t35Dividend (charBits (effectiveDataBits serial.dataBits)
      (effectiveStopBits serial.stopBits) serial.parity) (effectiveBaudRate serial.baudRate)).toNat
    = characterBits serial * 3500000 + (effectiveBaudRate serial.baudRate).toNat - 1
  least : effectiveBaudRate serial.baudRate ≤ 19200
    → IsLeast {n : ℕ | 7 / 2 * characterUs serial ≤ n} (t35Us serial).toNat
  fixed : effectiveBaudRate serial.baudRate > 19200 → t35Us serial = 1750

-- What is slept in addition to the elapsed time, which is in nanoseconds.
structure SleptExact (elapsed : Int) (silenceUs : Nat) (us : UInt64) : Prop where
  reading : Reading (delay us)
  enough : 1000 * silenceUs - 1000 < elapsed + (delay us).ns
  not_more : elapsed + (delay us).ns ≤ max elapsed (1000 * silenceUs + 1000)
  none : silenceUs = 0 → us = 0

theorem delay_ns (us : UInt64)
    : (delay us).ns = 1000 * us.toNat ∧ Reading (delay us) := by
  have hmod : (us % 1000000).toNat = us.toNat % 1000000 := UInt64.toNat_mod us 1000000
  have hdiv : (us / 1000000).toNat = us.toNat / 1000000 := UInt64.toNat_div us 1000000
  have hmul : (us % 1000000 * 1000).toNat = us.toNat % 1000000 * 1000 := by
    rw [UInt64.toNat_mul]
    rw [hmod]
    change us.toNat % 1000000 * 1000 % 18446744073709551616 = _
    omega
  unfold delay Timespec.ns Reading
  dsimp only
  rw [hdiv, hmul]
  omega

theorem t35_exact (serial : SerialConfig)
    : T35Exact serial := by
  have hpos := effectiveBaudRate_pos serial.baudRate
  have hbits := characterBits_le serial
  constructor
  . intro hzero
    rw [hzero] at hpos
    contradiction
  . unfold characterBits at hbits ⊢
    rw [← charBits_toNat] at hbits ⊢
    apply t35Dividend_toNat _ hbits hpos
  . intro hle
    rw [t35Us_eq]
    apply t35Us_isLeast serial hle
  . intro hgt
    unfold t35Us
    dsimp only
    rw [if_pos hgt]

-- The readings are close enough for the microseconds between them to fit.
theorem elapsedUs_eq {now last : Timespec} (hnow : Reading now) (hlast : Reading last)
    (hpast : last.ns ≤ now.ns) (hapart : now.ns - last.ns < 2 ^ 42 * 1000000000)
    : elapsedUs now last = some (Client.elapsedUs now last) := by
  have hbounds := tdiv_mul_bounds (now.nsec - last.nsec)
  unfold Reading at hnow hlast
  unfold Timespec.ns at hpast hapart
  unfold elapsedUs Client.elapsedUs
  rw [int64_eq_some (by omega) (by omega)]
  rw [Option.bind_eq_bind, Option.bind_some]
  rw [int64_eq_some (by omega) (by omega)]
  rw [Option.bind_some]
  rw [int64_eq_some (by omega) (by omega)]
  rw [Option.bind_some]
  apply int64_eq_some
  . omega
  . omega

theorem waitBusSilence_isSome {bus : SharedBus} {now : Timespec} (unitId : UInt8)
    (interFrameUs handoffMs : UInt32) {us : Int}
    (h : elapsedUs now bus.lastReleaseTime = some us)
    : (waitBusSilence bus now unitId interFrameUs handoffMs).isSome := by
  unfold waitBusSilence
  rw [h]
  dsimp only
  split
  . rfl
  split
  . rfl
  rw [Option.bind_eq_bind, Option.bind_some]
  split
  . rfl
  . rfl

theorem silence_exact (serial : SerialConfig) (cfg : ClientConfig) {bus : SharedBus}
    {now : Timespec} (unitId : UInt8) (hlast : bus.hasLastTransaction = true) (hnow : Reading now)
    (hrelease : Reading bus.lastReleaseTime) (hpast : bus.lastReleaseTime.ns ≤ now.ns)
    (hapart : now.ns - bus.lastReleaseTime.ns < 2 ^ 42 * 1000000000)
    : T35Exact serial ∧
      ∃ us, waitBusSilence bus now unitId (Client.effectiveInterFrameUs cfg bus)
          (Client.effectiveHandoffSilenceMs cfg) = some us ∧
        SleptExact (now.ns - bus.lastReleaseTime.ns) (silenceUs cfg bus unitId) us := by
  constructor
  . apply t35_exact
  . have helapsed := elapsedUs_eq hnow hrelease hpast hapart
    obtain ⟨us, hus⟩ := Option.isSome_iff_exists.mp (waitBusSilence_isSome unitId
      (Client.effectiveInterFrameUs cfg bus) (Client.effectiveHandoffSilenceMs cfg) helapsed)
    have hslept := toNat_of_waitBusSilence hlast hus
    rw [requiredUs_eq] at hslept
    change us.toNat = sleepUs now bus.lastReleaseTime (silenceUs cfg bus unitId) at hslept
    have hge := sleepUs_ge hpast (silenceUs cfg bus unitId)
    have hle := sleepUs_le now bus.lastReleaseTime (silenceUs cfg bus unitId)
    obtain ⟨hdelay, hreading⟩ := delay_ns us
    refine ⟨us, hus, hreading, ?_, ?_, ?_⟩
    . omega
    . omega
    . intro hzero
      apply UInt64.toNat_inj.mp
      rw [hslept, hzero]
      unfold sleepUs
      split
      . omega
      . rfl

-- The nanoseconds have turned over, so that 800 of them count as a whole microsecond.
def releasedRecord : SharedBus :=
  { sharedRecord 1 with hasLastTransaction := true, lastReleaseTime := ⟨4, 999999500⟩ }

theorem silence_slept
    : T35Exact sharedConfig.serial ∧
      ∃ us, waitBusSilence releasedRecord ⟨5, 300⟩ 1
          (Client.effectiveInterFrameUs sharedConfig releasedRecord)
          (Client.effectiveHandoffSilenceMs sharedConfig) = some us ∧
        SleptExact ((5000000300 : Int) - 4999999500)
          (silenceUs sharedConfig releasedRecord 1) us := by
  apply @silence_exact sharedConfig.serial sharedConfig releasedRecord ⟨5, 300⟩ 1 rfl
  . exact ⟨by decide, by decide⟩
  . exact ⟨by decide, by decide⟩
  . decide
  . decide

end Rtu.Word
