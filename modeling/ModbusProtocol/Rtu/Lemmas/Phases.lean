import ModbusProtocol.Rtu.Lemmas.References
import ModbusProtocol.Rtu.Lemmas.Stages

/-!
This module contains the phase of every context of a process: what a thread on the context may be doing in it, and
how the stages of `mb_rtu_client_connect` and `mb_rtu_client_disconnect` take the context from one to the next.
-/

open Modbus Posix

namespace Rtu.Client

variable {m n : Nat}

def Phase.Describes (phase : Phase n) (ctx : ClientCtx) (lock : Mutex (Fin n)) : Prop :=
  match phase with
  | .off => ctx.initialized = false
  | .connecting _ _ | .cleared _ => ctx.initialized = false ∧ lock ≠ .absent
  | .on bus | .leaving _ bus => ctx.initialized = true ∧ ctx.sharedBus = some bus ∧ lock ≠ .absent
  | .detached _ => ctx.initialized = true ∧ lock ≠ .absent

def Stage.Fits (thread : Fin n) (phase : Phase n) : Stage → Prop
  | .connectResolves _ | .connectAttaches _ => phase = .connecting thread none
  | .connectUnlocks bus | .connectEnds bus => phase = .connecting thread bus
  | .transactLocks _ | .transactChecks _ | .transactBegins _ | .transactUnlocks
  | .setLocks _ | .setWrites _ | .setUnlocks | .disconnectLocks => ∃ bus, phase = .on bus
  | .transactSends _ bus | .transactEchoes _ bus | .transactReceives bus | .transactEnds bus =>
    phase = .on bus
  | .disconnectDetaches | .disconnectDrops => ∃ bus, phase = .leaving thread bus
  | .disconnectUnlocks | .disconnectClears => phase = .detached thread
  | .disconnectReleases | .disconnectDestroys => phase = .cleared thread

structure Phased (p : Process m n) (phase : Fin m → Phase n) : Prop where
  agree : Mutex.Agree heldBy p.locks p.frames
  registry : p.locks .registry ≠ .absent
  records : Counted p.reg p.locks phase
  contexts : ∀ index, (phase index).Describes (p.ctxs index) (p.locks (contextLock index))
  frames : ∀ thread frame, p.frames thread = some frame → frame.stage.Fits thread (phase frame.index)
  alone : ∀ thread thread' frame frame', p.frames thread = some frame → p.frames thread' = some frame'
    → frame.index = frame'.index → frame.stage.isLifecycle = true → frame'.stage.isLifecycle = true
    → thread = thread'
  present : ∀ index thread, (phase index).thread = some thread
    → ∃ stage, p.frames thread = some ⟨index, stage⟩ ∧ stage.isLifecycle = true

theorem Phase.Describes.congr {phase : Phase n} {ctx : ClientCtx} {lock lock' : Mutex (Fin n)}
    (h : phase.Describes ctx lock) (hlock : lock' = .absent ↔ lock = .absent)
    : phase.Describes ctx lock' := by
  cases phase with
  | off => exact h
  | connecting => exact ⟨h.1, mt hlock.mp h.2⟩
  | on => exact ⟨h.1, h.2.1, mt hlock.mp h.2.2⟩
  | leaving => exact ⟨h.1, h.2.1, mt hlock.mp h.2.2⟩
  | detached => exact ⟨h.1, mt hlock.mp h.2⟩
  | cleared => exact ⟨h.1, mt hlock.mp h.2⟩

theorem Stage.Fits.owner {thread thread' : Fin n} {phase : Phase n} {stage : Stage}
    (h : stage.Fits thread phase) (hthread : phase.thread = some thread')
    : thread = thread' := by
  cases stage
  all_goals
    unfold Fits at h
    first
    | rw [h] at hthread
      injection hthread
    | obtain ⟨bus, h⟩ := h
      rw [h] at hthread
      injection hthread

theorem Stage.Fits.not_off {thread : Fin n} {stage : Stage}
    : ¬stage.Fits thread .off := by
  cases stage
  all_goals
    unfold Fits
    simp

theorem fits_of_isOn {thread : Fin n} {phase : Phase n} {bus : Address} {stage : Stage}
    (h : stage.isOn bus = true) (hfits : stage.Fits thread phase)
    : phase = .on bus := by
  cases stage
  all_goals
    unfold Stage.isOn at h
    first
    | contradiction
    | unfold Stage.Fits at hfits
      rw [hfits, of_decide_eq_true h]

namespace Phased

variable {p q : Process m n} {phase : Fin m → Phase n} {thread : Fin n} {index : Fin m}
  {stage stage' : Stage} {l : Lock}

-- A thread goes on, and its context stays in its phase.
theorem turn (h : Phased p phase) (hframe : p.frames thread = some ⟨index, stage⟩)
    {locks' : Lock → Mutex (Fin n)} {ctxs' : Fin m → ClientCtx}
    (hagree : Mutex.Agree heldBy locks' (Function.update p.frames thread (some ⟨index, stage'⟩)))
    (hlocks : ∀ l, locks' l = .absent ↔ p.locks l = .absent)
    (hctxs : ∀ i, (phase i).Describes (ctxs' i) (p.locks (contextLock i)))
    (hfits : stage'.Fits thread (phase index)) (hlifecycle : stage'.isLifecycle = stage.isLifecycle)
    : Phased ⟨p.reg, ctxs', locks', Function.update p.frames thread (some ⟨index, stage'⟩)⟩ phase := by
  -- what is known of the frame of a thread, of this one or another
  have hframes : ∀ thread' frame,
      Function.update p.frames thread (some ⟨index, stage'⟩) thread' = some frame
      → ∃ old, p.frames thread' = some old ∧ frame.index = old.index ∧
        frame.stage.isLifecycle = old.stage.isLifecycle ∧
        frame.stage.Fits thread' (phase frame.index) := by
    intro thread' frame hframe'
    by_cases ht : thread' = thread
    . rw [ht, Function.update_self] at hframe'
      injection hframe' with hframe'
      rw [← hframe', ht]
      exact ⟨_, hframe, rfl, hlifecycle, hfits⟩
    . rw [Function.update_of_ne ht] at hframe'
      exact ⟨frame, hframe', rfl, rfl, h.frames _ _ hframe'⟩
  constructor
  . exact hagree
  . exact mt (hlocks .registry).mp h.registry
  . exact h.records.congr hlocks
  . intro i
    exact (hctxs i).congr (hlocks _)
  . intro thread' frame hframe'
    obtain ⟨_, _, _, _, hfits'⟩ := hframes thread' frame hframe'
    exact hfits'
  . intro thread₁ thread₂ frame₁ frame₂ hframe₁ hframe₂ hindex hlifecycle₁ hlifecycle₂
    obtain ⟨old₁, hold₁, hindex₁, hsame₁, _⟩ := hframes _ _ hframe₁
    obtain ⟨old₂, hold₂, hindex₂, hsame₂, _⟩ := hframes _ _ hframe₂
    rw [hsame₁] at hlifecycle₁
    rw [hsame₂] at hlifecycle₂
    apply h.alone _ _ _ _ hold₁ hold₂ _ hlifecycle₁ hlifecycle₂
    rw [← hindex₁, ← hindex₂, hindex]
  . intro index' thread' hthread
    obtain ⟨stage₀, hframe', hlifecycle'⟩ := h.present index' thread' hthread
    dsimp only
    by_cases ht : thread' = thread
    . rw [ht, hframe] at hframe'
      injection hframe' with hframe'
      injection hframe' with hindex hstage
      rw [ht, Function.update_self, ← hindex]
      refine ⟨stage', rfl, ?_⟩
      rw [hlifecycle, hstage]
      exact hlifecycle'
    . rw [Function.update_of_ne ht]
      exact ⟨stage₀, hframe', hlifecycle'⟩

theorem goto_turn (h : Phased p phase) (hframe : p.frames thread = some ⟨index, stage⟩)
    (hheld : stage'.locks index = stage.locks index) (hfits : stage'.Fits thread (phase index))
    (hlifecycle : stage'.isLifecycle = stage.isLifecycle)
    : Phased (p.goto thread index stage') phase := by
  apply h.turn hframe _ (fun _ => Iff.rfl) h.contexts hfits hlifecycle
  apply h.agree.turn
  rw [hframe]
  exact hheld

theorem lock_turn (h : Phased p phase) (hframe : p.frames thread = some ⟨index, stage⟩)
    (hlock : p.lock thread l = some q) (hheld : stage'.locks index = l :: stage.locks index)
    (hfits : stage'.Fits thread (phase index)) (hlifecycle : stage'.isLifecycle = stage.isLifecycle)
    : Phased (q.goto thread index stage') phase := by
  obtain ⟨hfree, heq⟩ := Process.lock_eq_some hlock
  have hold : p.locks l ≠ .absent := by
    rw [hfree]
    simp
  rw [heq]
  apply h.turn hframe _ (absent_update hold (by simp)) h.contexts hfits hlifecycle
  apply h.agree.lock hfree
  intro l'
  rw [hframe]
  change l' ∈ stage'.locks index ↔ l' = l ∨ l' ∈ stage.locks index
  rw [hheld, List.mem_cons]

-- What is left of the locks once the first one has been unlocked.
theorem unlock_agree (h : Phased p phase) (hframe : p.frames thread = some ⟨index, stage⟩)
    (hunlock : p.unlock thread l = some q) (frame : Option (Frame m))
    (hheld : stage.locks index = l :: heldBy frame) (hout : l ∉ heldBy frame)
    : q = { p with locks := Function.update p.locks l .free } ∧
      Mutex.Agree heldBy (Function.update p.locks l .free) (Function.update p.frames thread frame) ∧
      ∀ l', Function.update p.locks l .free l' = .absent ↔ p.locks l' = .absent := by
  obtain ⟨hlocked, heq⟩ := Process.unlock_eq_some hunlock
  have hold : p.locks l ≠ .absent := by
    rw [hlocked]
    simp
  refine ⟨heq, ?_, absent_update hold (by simp)⟩
  apply h.agree.unlock hlocked
  intro l'
  have hmem : l' ∈ heldBy (p.frames thread) ↔ l' = l ∨ l' ∈ heldBy frame := by
    rw [hframe]
    change l' ∈ stage.locks index ↔ _
    rw [hheld, List.mem_cons]
  rw [hmem]
  constructor
  . intro hin
    exact ⟨fun heq => hout (heq ▸ hin), .inr hin⟩
  . rintro ⟨hne, heq | hin⟩
    . exact absurd heq hne
    . exact hin

theorem unlock_turn (h : Phased p phase) (hframe : p.frames thread = some ⟨index, stage⟩)
    (hunlock : p.unlock thread l = some q) (hheld : stage.locks index = l :: stage'.locks index)
    (hout : l ∉ stage'.locks index) (hfits : stage'.Fits thread (phase index))
    (hlifecycle : stage'.isLifecycle = stage.isLifecycle)
    : Phased (q.goto thread index stage') phase := by
  obtain ⟨heq, hagree, hlocks⟩ := h.unlock_agree hframe hunlock (some ⟨index, stage'⟩) hheld hout
  rw [heq]
  exact h.turn hframe hagree hlocks h.contexts hfits hlifecycle

-- A call ends that neither connects nor disconnects.
theorem unlock_leave (h : Phased p phase) (hframe : p.frames thread = some ⟨index, stage⟩)
    (hunlock : p.unlock thread l = some q) (hheld : stage.locks index = [l])
    (hlifecycle : stage.isLifecycle = false)
    : Phased (q.leave thread) phase := by
  obtain ⟨heq, hagree, hlocks⟩ := h.unlock_agree hframe hunlock none hheld List.not_mem_nil
  have hframes : ∀ thread' frame, Function.update p.frames thread none thread' = some frame
      → p.frames thread' = some frame := by
    intro thread' frame hframe'
    by_cases ht : thread' = thread
    . rw [ht, Function.update_self] at hframe'
      contradiction
    . rw [Function.update_of_ne ht] at hframe'
      exact hframe'
  rw [heq]
  constructor
  . exact hagree
  . exact mt (hlocks .registry).mp h.registry
  . exact h.records.congr hlocks
  . intro i
    exact (h.contexts i).congr (hlocks _)
  . intro thread' frame hframe'
    exact h.frames _ _ (hframes _ _ hframe')
  . intro thread₁ thread₂ frame₁ frame₂ hframe₁ hframe₂
    exact h.alone _ _ _ _ (hframes _ _ hframe₁) (hframes _ _ hframe₂)
  . intro index' thread' hthread
    obtain ⟨stage', hframe', hlifecycle'⟩ := h.present index' thread' hthread
    refine ⟨stage', ?_, hlifecycle'⟩
    have ht : thread' ≠ thread := by
      intro ht
      rw [ht, hframe] at hframe'
      injection hframe' with hframe'
      injection hframe' with _ hstage
      rw [hstage, hlifecycle'] at hlifecycle
      contradiction
    exact (Function.update_of_ne ht _ _).trans hframe'

-- A call begins on a context that is connected.
theorem enter (h : Phased p phase) (hfree : p.frames thread = none) (hheld : stage.locks index = [])
    (hfits : stage.Fits thread (phase index))
    (halone : stage.isLifecycle = true → ¬p.Busy index Stage.isLifecycle)
    : Phased (p.goto thread index stage) phase := by
  have hframes : ∀ thread' frame,
      Function.update p.frames thread (some ⟨index, stage⟩) thread' = some frame
      → thread' = thread ∧ frame = ⟨index, stage⟩ ∨ thread' ≠ thread ∧ p.frames thread' = some frame := by
    intro thread' frame hframe'
    by_cases ht : thread' = thread
    . rw [ht, Function.update_self] at hframe'
      injection hframe' with hframe'
      exact .inl ⟨ht, hframe'.symm⟩
    . rw [Function.update_of_ne ht] at hframe'
      exact .inr ⟨ht, hframe'⟩
  have hother : ∀ frame thread', p.frames thread' = some frame → stage.isLifecycle = true
      → frame.index = index → frame.stage.isLifecycle = false := by
    rintro ⟨index', stage'⟩ thread' hframe' hlifecycle hindex
    dsimp only at hindex
    rw [hindex] at hframe'
    exact Process.not_busy (halone hlifecycle) hframe'
  constructor
  . apply h.agree.turn
    rw [hfree]
    exact hheld
  . exact h.registry
  . exact h.records
  . exact h.contexts
  . intro thread' frame hframe'
    obtain ⟨ht, hframe'⟩ | ⟨_, hframe'⟩ := hframes _ _ hframe'
    . rw [ht, hframe']
      exact hfits
    . exact h.frames _ _ hframe'
  . intro thread₁ thread₂ frame₁ frame₂ hframe₁ hframe₂ hindex hlifecycle₁ hlifecycle₂
    obtain ⟨ht₁, heq₁⟩ | ⟨_, hframe₁⟩ := hframes _ _ hframe₁
    . obtain ⟨ht₂, _⟩ | ⟨_, hframe₂⟩ := hframes _ _ hframe₂
      . rw [ht₁, ht₂]
      . rw [heq₁] at hindex hlifecycle₁
        rw [hother _ _ hframe₂ hlifecycle₁ hindex.symm] at hlifecycle₂
        contradiction
    . obtain ⟨_, heq₂⟩ | ⟨_, hframe₂⟩ := hframes _ _ hframe₂
      . rw [heq₂] at hindex hlifecycle₂
        rw [hother _ _ hframe₁ hlifecycle₂ hindex] at hlifecycle₁
        contradiction
      . exact h.alone _ _ _ _ hframe₁ hframe₂ hindex hlifecycle₁ hlifecycle₂
  . intro index' thread' hthread
    obtain ⟨stage', hframe', hlifecycle'⟩ := h.present index' thread' hthread
    refine ⟨stage', ?_, hlifecycle'⟩
    have ht : thread' ≠ thread := by
      intro ht
      rw [ht, hfree] at hframe'
      contradiction
    exact (Function.update_of_ne ht _ _).trans hframe'

-- The only thread on a context takes it to another phase.
theorem change (h : Phased p phase) {frame : Option (Frame m)} {next : Phase n} {reg' : Registry}
    {ctx' : ClientCtx} {locks' : Lock → Mutex (Fin n)}
    (hthread : ∀ old, p.frames thread = some old → old.index = index)
    (hothers : ∀ thread' old, thread' ≠ thread → p.frames thread' = some old → old.index ≠ index)
    (hagree : Mutex.Agree heldBy locks' (Function.update p.frames thread frame))
    (hregistry : locks' .registry ≠ .absent)
    (hrecords : Counted reg' locks' (Function.update phase index next))
    (hctx : next.Describes ctx' (locks' (contextLock index)))
    (hlocks : ∀ i, i ≠ index → (locks' (contextLock i) = .absent ↔ p.locks (contextLock i) = .absent))
    (hframe : ∀ new, frame = some new → new.index = index ∧ new.stage.Fits thread next)
    (hpresent : ∀ thread', next.thread = some thread'
      → thread' = thread ∧ ∃ stage, frame = some ⟨index, stage⟩ ∧ stage.isLifecycle = true)
    : Phased ⟨reg', Function.update p.ctxs index ctx', locks', Function.update p.frames thread frame⟩
        (Function.update phase index next) := by
  have hframes : ∀ thread' new, Function.update p.frames thread frame thread' = some new
      → thread' = thread ∧ new.index = index ∧ new.stage.Fits thread next ∨
        new.index ≠ index ∧ p.frames thread' = some new := by
    intro thread' new hnew
    by_cases ht : thread' = thread
    . rw [ht, Function.update_self] at hnew
      exact .inl ⟨ht, hframe new hnew⟩
    . rw [Function.update_of_ne ht] at hnew
      exact .inr ⟨hothers _ _ ht hnew, hnew⟩
  constructor
  . exact hagree
  . exact hregistry
  . exact hrecords
  . intro i
    dsimp only
    by_cases hi : i = index
    . rw [hi, Function.update_self, Function.update_self]
      exact hctx
    . rw [Function.update_of_ne hi, Function.update_of_ne hi]
      exact (h.contexts i).congr (hlocks i hi)
  . intro thread' new hnew
    obtain ⟨ht, hindex, hfits⟩ | ⟨hindex, hnew⟩ := hframes _ _ hnew
    . rw [ht, hindex, Function.update_self]
      exact hfits
    . rw [Function.update_of_ne hindex]
      exact h.frames _ _ hnew
  . intro thread₁ thread₂ frame₁ frame₂ hframe₁ hframe₂ hindex hlifecycle₁ hlifecycle₂
    obtain ⟨ht₁, hindex₁, _⟩ | ⟨hindex₁, hframe₁⟩ := hframes _ _ hframe₁
    . obtain ⟨ht₂, _⟩ | ⟨hindex₂, _⟩ := hframes _ _ hframe₂
      . rw [ht₁, ht₂]
      . exact absurd (hindex.symm.trans hindex₁) hindex₂
    . obtain ⟨_, hindex₂, _⟩ | ⟨_, hframe₂⟩ := hframes _ _ hframe₂
      . exact absurd (hindex.trans hindex₂) hindex₁
      . exact h.alone _ _ _ _ hframe₁ hframe₂ hindex hlifecycle₁ hlifecycle₂
  . intro i thread' hthread'
    dsimp only
    by_cases hi : i = index
    . rw [hi, Function.update_self] at hthread'
      obtain ⟨ht, stage', hstage, hlifecycle⟩ := hpresent thread' hthread'
      rw [ht, Function.update_self, hi]
      exact ⟨stage', hstage, hlifecycle⟩
    . rw [Function.update_of_ne hi] at hthread'
      obtain ⟨stage', hframe', hlifecycle⟩ := h.present i thread' hthread'
      have ht : thread' ≠ thread := by
        intro ht
        rw [ht] at hframe'
        exact hi (hthread _ hframe')
      rw [Function.update_of_ne ht]
      exact ⟨stage', hframe', hlifecycle⟩

end Phased

namespace Phased

variable {p q : Process m n} {phase : Fin m → Phase n} {thread : Fin n} {index : Fin m}
  {stage : Stage}

-- The frame of a thread that has its context in the next phase.
theorem frame_goto {next : Phase n} (hfits : stage.Fits thread next)
    : ∀ new, some (⟨index, stage⟩ : Frame m) = some new → new.index = index ∧ new.stage.Fits thread next := by
  intro new hnew
  injection hnew with hnew
  rw [← hnew]
  exact ⟨rfl, hfits⟩

theorem present_goto {next : Phase n} (hthread : next.thread = some thread) (hlifecycle : stage.isLifecycle = true)
    : ∀ thread', next.thread = some thread'
      → thread' = thread ∧ ∃ stage', some (⟨index, stage⟩ : Frame m) = some ⟨index, stage'⟩ ∧
        stage'.isLifecycle = true := by
  intro thread' hthread'
  rw [hthread] at hthread'
  injection hthread' with hthread'
  exact ⟨hthread'.symm, stage, rfl, hlifecycle⟩

theorem others_of_thread (h : Phased p phase) (hthread : (phase index).thread = some thread)
    : ∀ thread' old, thread' ≠ thread → p.frames thread' = some old → old.index ≠ index := by
  intro thread' old ht hold hindex
  have hfits := h.frames _ _ hold
  rw [hindex] at hfits
  exact ht (hfits.owner hthread)

theorem unheld_context {frame : Option (Frame m)}
    (hothers : ∀ thread' old, thread' ≠ thread → p.frames thread' = some old → old.index ≠ index)
    (hout : contextLock index ∉ heldBy frame) (t : Fin n)
    : contextLock index ∉ heldBy (Function.update p.frames thread frame t) := by
  intro hmem
  by_cases ht : t = thread
  . rw [ht, Function.update_self] at hmem
    exact hout hmem
  . rw [Function.update_of_ne ht] at hmem
    cases hframe : p.frames t with
    | none =>
      rw [hframe] at hmem
      exact List.not_mem_nil hmem
    | some old =>
      rw [hframe] at hmem
      exact hothers t old ht hframe (index_of_contextLock hmem)

theorem outlasts_of_keys (h : ∀ bus ∈ Records.keys p.reg, bus ∈ Records.keys q.reg)
    : p.Outlasts q := by
  intro bus hbus hout
  exact absurd (h bus hbus) hout

theorem outlasts_of_reg (h : q.reg = p.reg)
    : p.Outlasts q := by
  apply outlasts_of_keys
  rw [h]
  exact fun _ => id

-- What a thread does on a context that it has alone, when neither the registry nor the context changes.
theorem change_frame (h : Phased p phase) {frame : Option (Frame m)} {next : Phase n}
    {locks' : Lock → Mutex (Fin n)} {reg' : Registry}
    (hthread : ∀ old, p.frames thread = some old → old.index = index)
    (hothers : ∀ thread' old, thread' ≠ thread → p.frames thread' = some old → old.index ≠ index)
    (hagree : Mutex.Agree heldBy locks' (Function.update p.frames thread frame))
    (hregistry : locks' .registry ≠ .absent)
    (hrecords : Counted reg' locks' (Function.update phase index next))
    (hctx : next.Describes (p.ctxs index) (locks' (contextLock index)))
    (hlocks : ∀ i, i ≠ index → (locks' (contextLock i) = .absent ↔ p.locks (contextLock i) = .absent))
    (hframe : ∀ new, frame = some new → new.index = index ∧ new.stage.Fits thread next)
    (hpresent : ∀ thread', next.thread = some thread'
      → thread' = thread ∧ ∃ stage, frame = some ⟨index, stage⟩ ∧ stage.isLifecycle = true)
    : Phased ⟨reg', p.ctxs, locks', Function.update p.frames thread frame⟩
        (Function.update phase index next) := by
  have hchanged := h.change hthread hothers hagree hregistry hrecords hctx hlocks hframe hpresent
  rw [Function.update_eq_self] at hchanged
  exact hchanged

-- The mutex of the context is the only one that changes.
theorem replace_context (h : Phased p phase) {frame : Option (Frame m)} {next : Phase n}
    {lock : Mutex (Fin n)} (hlock : ∀ t, lock ≠ .held t)
    (hothers : ∀ thread' old, thread' ≠ thread → p.frames thread' = some old → old.index ≠ index)
    (hheld : heldBy frame = heldBy (p.frames thread)) (hout : contextLock index ∉ heldBy frame)
    (hbus : next.bus = (phase index).bus)
    : Mutex.Agree heldBy (Function.update p.locks (contextLock index) lock)
        (Function.update p.frames thread frame) ∧
      Function.update p.locks (contextLock index) lock .registry ≠ .absent ∧
      Counted p.reg (Function.update p.locks (contextLock index) lock) (Function.update phase index next) ∧
      ∀ i, i ≠ index → (Function.update p.locks (contextLock index) lock (contextLock i) = .absent ↔
        p.locks (contextLock i) = .absent) := by
  refine ⟨?_, ?_, ?_, ?_⟩
  . apply Mutex.Agree.replace (h.agree.turn hheld) _ hlock
    apply unheld_context hothers hout
  . rw [Function.update_of_ne (by simp)]
    exact h.registry
  . have hsame := h.records.same hbus
    refine ⟨hsame.addresses, hsame.descriptors, ?_, hsame.counted, hsame.positive, hsame.led⟩
    intro bus
    rw [Function.update_of_ne (by simp)]
    exact hsame.mutexes bus
  . intro i hi
    rw [Function.update_of_ne (contextLock_ne hi)]

theorem connectAttaches (h : Phased p phase) {env : ConnectEnv}
    (hframe : p.frames thread = some ⟨index, .connectAttaches env⟩)
    (hhonest : ∀ bus ∈ env.calloc, bus ∉ Records.keys p.reg)
    (horderly : ∀ key ∈ resolveBusKey (p.ctxs index).cfg.device env, ∀ entry ∈ findBus p.reg key,
      entry.2.refcnt.toNat + 1 < 2 ^ 32)
    : let attached := p.attach (p.ctxs index).cfg.serial env
      ∃ phase', Phased (attached.2.goto thread index (.connectUnlocks attached.1)) phase' ∧
        p.Outlasts (attached.2.goto thread index (.connectUnlocks attached.1)) := by
  have hphase : phase index = .connecting thread none := h.frames _ _ hframe
  have hctx := h.contexts index
  rw [hphase] at hctx
  have hothers := h.others_of_thread (by rw [hphase]; rfl)
  intro attached
  obtain ⟨reg, locks, heq, hrecords, hkeys, hlocks⟩ :=
    @Process.attach_counted _ _ _ _ index (.connecting thread attached.1) h.records (by rw [hphase]; rfl)
      _ _ hhonest horderly rfl
  have habsent : ∀ i : Fin m, locks (contextLock i) = p.locks (contextLock i) := by
    intro i
    obtain heq | ⟨bus, _, heq⟩ := hlocks
    . rw [heq]
    . rw [heq, Function.update_of_ne (by simp)]
  have hregistry : locks .registry = p.locks .registry := by
    obtain heq | ⟨bus, _, heq⟩ := hlocks
    . rw [heq]
    . rw [heq, Function.update_of_ne (by simp)]
  have hturn : Mutex.Agree heldBy p.locks
      (Function.update p.frames thread (some ⟨index, .connectUnlocks attached.1⟩)) := by
    apply h.agree.turn
    rw [hframe]
    rfl
  have hagree : Mutex.Agree heldBy locks
      (Function.update p.frames thread (some ⟨index, .connectUnlocks attached.1⟩)) := by
    obtain heq | ⟨bus, hnone, heq⟩ := hlocks
    . rw [heq]
      exact hturn
    . rw [heq]
      apply hturn.replace _ (by simp)
      intro t hmem
      have hheld := (hturn _ t).mpr hmem
      rw [hnone] at hheld
      contradiction
  refine ⟨Function.update phase index (.connecting thread attached.1), ?_, ?_⟩
  . rw [heq]
    apply h.change_frame
    . intro old hold
      rw [hframe] at hold
      injection hold with hold
      rw [← hold]
    . exact hothers
    . exact hagree
    . exact ne_of_eq_of_ne hregistry h.registry
    . exact hrecords
    . dsimp only
      rw [habsent]
      exact hctx
    . intro i _
      dsimp only
      rw [habsent]
    . exact frame_goto rfl
    . exact present_goto rfl rfl
  . apply outlasts_of_keys
    change ∀ bus ∈ _, bus ∈ Records.keys attached.2.reg
    rw [heq]
    exact hkeys

theorem index_of_frame (hframe : p.frames thread = some ⟨index, stage⟩)
    : ∀ old, p.frames thread = some old → old.index = index := by
  intro old hold
  rw [hframe] at hold
  injection hold with hold
  rw [← hold]

-- The lock of a context is destroyed at the end of a failed connect and of a disconnect.
theorem destroys (h : Phased p phase) (hframe : p.frames thread = some ⟨index, stage⟩)
    (hthread : (phase index).thread = some thread) (hheld : stage.locks index = [])
    (hbus : (phase index).bus = none) (hoff : (p.ctxs index).initialized = false)
    : Phased ((p.destroy (contextLock index)).leave thread) (Function.update phase index .off) := by
  have hothers := h.others_of_thread hthread
  obtain ⟨hagree, hregistry, hrecords, hlocks⟩ :=
    @h.replace_context _ _ _ _ _ _ none .off .absent (by simp) hothers (by rw [hframe]; exact hheld.symm)
      List.not_mem_nil hbus.symm
  apply h.change_frame (index_of_frame hframe) hothers hagree hregistry hrecords hoff hlocks
  . intro new hnew
    contradiction
  . intro thread' hthread'
    contradiction

theorem connectEnds (h : Phased p phase) {bus : Address}
    (hframe : p.frames thread = some ⟨index, .connectEnds (some bus)⟩) (fd : Int)
    : Phased
        ((p.setCtx index { p.ctxs index with sharedBus := some bus, fd := fd, initialized := true }).leave thread)
        (Function.update phase index (.on bus)) := by
  have hphase : phase index = .connecting thread (some bus) := h.frames _ _ hframe
  have hctx := h.contexts index
  rw [hphase] at hctx
  have hothers := h.others_of_thread (by rw [hphase]; rfl)
  apply h.change (index_of_frame hframe) hothers
  . apply h.agree.turn
    rw [hframe]
    rfl
  . exact h.registry
  . apply h.records.same
    rw [hphase]
    rfl
  . exact ⟨rfl, rfl, hctx.2⟩
  . intro i _
    exact Iff.rfl
  . intro new hnew
    contradiction
  . intro thread' hthread'
    contradiction

-- Nothing else is on a context when its disconnect has got the lock.
theorem disconnectLocks (h : Phased p phase)
    (hframe : p.frames thread = some ⟨index, .disconnectLocks⟩)
    (hlock : p.lock thread (contextLock index) = some q) (horderly : ¬p.Busy index Stage.isWaiting)
    : ∃ bus, Phased (q.goto thread index .disconnectDetaches)
        (Function.update phase index (.leaving thread bus)) := by
  obtain ⟨bus, hphase⟩ : ∃ bus, phase index = .on bus := h.frames _ _ hframe
  obtain ⟨hfree, heq⟩ := Process.lock_eq_some hlock
  have hctx := h.contexts index
  rw [hphase] at hctx
  have hold : p.locks (contextLock index) ≠ .absent := by
    rw [hfree]
    simp
  have hothers : ∀ thread' old, thread' ≠ thread → p.frames thread' = some old → old.index ≠ index := by
    rintro thread' ⟨index', stage'⟩ ht hframe' hindex
    dsimp only at hindex
    rw [hindex] at hframe'
    obtain hwaiting | hheld | hlifecycle := stage'.waits_or index
    . rw [Process.not_busy horderly hframe'] at hwaiting
      contradiction
    . have hlocked : p.locks (contextLock index) = .held thread' := by
        apply (h.agree _ _).mpr
        rw [hframe']
        exact hheld
      rw [hfree] at hlocked
      contradiction
    . exact ht (h.alone _ _ _ _ hframe' hframe rfl hlifecycle rfl)
  have hlocks := @absent_update _ _ _ (.held thread) hold (by simp)
  refine ⟨bus, ?_⟩
  rw [heq]
  apply h.change_frame (index_of_frame hframe) hothers
  . apply h.agree.lock hfree
    intro l'
    rw [hframe]
    change l' ∈ [contextLock index] ↔ l' = contextLock index ∨ l' ∈ []
    simp
  . exact mt (hlocks .registry).mp h.registry
  . apply (h.records.congr hlocks).same
    rw [hphase]
    rfl
  . dsimp only
    rw [Function.update_self]
    exact ⟨hctx.1, hctx.2.1, by simp⟩
  . intro i _
    apply hlocks
  . exact frame_goto ⟨bus, rfl⟩
  . exact present_goto rfl rfl

theorem disconnectClears (h : Phased p phase)
    (hframe : p.frames thread = some ⟨index, .disconnectClears⟩)
    : Phased
        ((p.setCtx index { p.ctxs index with sharedBus := none, fd := -1, initialized := false }).goto thread
          index .disconnectReleases)
        (Function.update phase index (.cleared thread)) := by
  have hphase : phase index = .detached thread := h.frames _ _ hframe
  have hctx := h.contexts index
  rw [hphase] at hctx
  have hothers := h.others_of_thread (by rw [hphase]; rfl)
  apply h.change (index_of_frame hframe) hothers
  . apply h.agree.turn
    rw [hframe]
    rfl
  . exact h.registry
  . apply h.records.same
    rw [hphase]
    rfl
  . exact ⟨rfl, hctx.2⟩
  . intro i _
    exact Iff.rfl
  . exact frame_goto rfl
  . exact present_goto rfl rfl

-- A transaction on a record is that of a context that refers to it.
theorem bus_of_uses (h : Phased p phase) {bus : Address} {thread' : Fin n} (huses : p.Uses thread' bus)
    : ∃ index stage, p.frames thread' = some ⟨index, stage⟩ ∧ phase index = .on bus := by
  obtain ⟨index', stage', hframe', hon | ⟨unitId, hbegins, hbus⟩⟩ := huses
  . exact ⟨index', stage', hframe', fits_of_isOn hon (h.frames _ _ hframe')⟩
  . have hfits := h.frames _ _ hframe'
    have hctx := h.contexts index'
    rw [hbegins] at hfits
    obtain ⟨bus', hphase⟩ := hfits
    dsimp only at hphase
    rw [hphase] at hctx
    refine ⟨index', stage', hframe', ?_⟩
    rw [hphase]
    have hsame := hctx.2.1.symm.trans hbus
    injection hsame with hsame
    rw [hsame]

-- A context that is attached to a record refers to it.
theorem bus_of_attached (h : Phased p phase) {bus : Address} (hattached : p.Attached index bus)
    : (phase index).bus = some bus := by
  have hctx := h.contexts index
  obtain ⟨hattached, hleft⟩ | hjoined := hattached
  . obtain ⟨hinit, hbus⟩ := (attachedTo_iff _ _).mp hattached
    cases hphase : phase index with
    | off =>
      rw [hphase] at hctx
      rw [show (p.ctxs index).initialized = false from hctx] at hinit
      contradiction
    | connecting thread' bus' =>
      rw [hphase] at hctx
      rw [hctx.1] at hinit
      contradiction
    | on bus' =>
      rw [hphase] at hctx
      exact hctx.2.1.symm.trans hbus
    | leaving thread' bus' =>
      rw [hphase] at hctx
      exact hctx.2.1.symm.trans hbus
    | detached thread' =>
      obtain ⟨stage', hframe', _⟩ := h.present index thread' (by rw [hphase]; rfl)
      have hfits := h.frames _ _ hframe'
      dsimp only at hfits
      rw [hphase] at hfits
      have hgone := Process.not_busy hleft hframe'
      cases stage'
      all_goals first
        | contradiction
        | obtain ⟨_, hfits⟩ := hfits
          contradiction
    | cleared thread' =>
      rw [hphase] at hctx
      rw [hctx.1] at hinit
      contradiction
  . obtain ⟨thread', stage', hframe', hstage⟩ := Process.busy_iff.mp hjoined
    have hfits := h.frames _ _ hframe'
    cases stage'
    all_goals
      unfold Stage.hasJoined at hstage
      dsimp only at hstage hfits
    all_goals first
      | contradiction
      | rename_i joined
        cases joined with
        | none => contradiction
        | some bus' =>
          have heq := of_decide_eq_true hstage
          unfold Stage.Fits at hfits
          rw [hfits, ← heq]
          rfl

-- The mutex of the record goes with the last reference, and then nothing is left that would use it.
theorem disconnectDrops (h : Phased p phase)
    (hframe : p.frames thread = some ⟨index, .disconnectDrops⟩)
    : ∃ bus next, (p.ctxs index).sharedBus = some bus ∧ p.detach bus = some next ∧
        Phased (next.goto thread index .disconnectUnlocks) (Function.update phase index (.detached thread)) ∧
        p.Outlasts (next.goto thread index .disconnectUnlocks) := by
  obtain ⟨bus, hphase⟩ : ∃ bus, phase index = .leaving thread bus := h.frames _ _ hframe
  have hctx := h.contexts index
  rw [hphase] at hctx
  have hbus : (phase index).bus = some bus := by
    rw [hphase]
    rfl
  have hothers := h.others_of_thread (by rw [hphase]; rfl)
  obtain ⟨reg, locks, heq, hrecords, hkeys, hlocks⟩ :=
    @Process.detach_counted _ _ _ _ index (.detached thread) h.records _ hbus rfl
  have hturn : Mutex.Agree heldBy p.locks
      (Function.update p.frames thread (some ⟨index, .disconnectUnlocks⟩)) := by
    apply h.agree.turn
    rw [hframe]
    rfl
  have hunused : (∀ i, (phase i).bus = some bus → i = index) → ∀ thread', ¬p.Uses thread' bus := by
    intro honly thread' huses
    obtain ⟨index', stage', _, hon⟩ := h.bus_of_uses huses
    have hindex := honly index' (by rw [hon]; rfl)
    rw [hindex, hphase] at hon
    contradiction
  have hagree : Mutex.Agree heldBy locks
      (Function.update p.frames thread (some ⟨index, .disconnectUnlocks⟩)) := by
    obtain heq | ⟨heq, honly⟩ := hlocks
    . rw [heq]
      exact hturn
    . rw [heq]
      apply hturn.replace _ (by simp)
      intro t hmem
      by_cases ht : t = thread
      . rw [ht, Function.update_self] at hmem
        change _ ∈ [Lock.registry, contextLock index] at hmem
        simp at hmem
      . rw [Function.update_of_ne ht] at hmem
        cases hframe' : p.frames t with
        | none =>
          rw [hframe'] at hmem
          exact List.not_mem_nil hmem
        | some frame =>
          rw [hframe'] at hmem
          exact hunused honly t ⟨frame.index, frame.stage, hframe', .inl (isOn_of_busLock hmem)⟩
  have hsame : ∀ l, l ≠ busLock bus → locks l = p.locks l := by
    intro l hl
    obtain heq | ⟨heq, _⟩ := hlocks
    . rw [heq]
    . rw [heq, Function.update_of_ne hl]
  have hphased : Phased ⟨reg, p.ctxs, locks,
      Function.update p.frames thread (some ⟨index, .disconnectUnlocks⟩)⟩
      (Function.update phase index (.detached thread)) := by
    apply h.change_frame (index_of_frame hframe) hothers hagree
    . exact ne_of_eq_of_ne (hsame _ (by simp)) h.registry
    . exact hrecords
    . rw [hsame _ (by simp)]
      exact ⟨hctx.1, hctx.2.2⟩
    . intro i _
      rw [hsame _ (by simp)]
    . exact frame_goto rfl
    . exact present_goto rfl rfl
  refine ⟨bus, _, hctx.2.1, heq, hphased, ?_⟩
  intro bus' hbus' hout
  have hgone := hkeys bus' hbus' hout
  rw [hgone] at hout ⊢
  constructor
  . apply hunused
    obtain heq | ⟨_, honly⟩ := hlocks
    . apply absurd _ hout
      rw [← hgone] at hout ⊢
      have hkeep := (hrecords.mutexes bus').mp
      rw [heq] at hkeep
      exact hkeep ((h.records.mutexes bus').mpr hbus')
    . exact honly
  . intro i hattached
    exact hout (hphased.records.led i bus (hphased.bus_of_attached hattached))

end Phased

end Rtu.Client
