import ModbusProtocol.Rtu.Lemmas.Phases

/-!
This module contains the locks of the shared buses over every interleaving of the threads of a process: the
transactions on a record exclude each other, a record outlasts those who use it, and as long as a thread is in
a function some thread can go on.
-/

open Modbus Posix

namespace Rtu.Client

variable {m n : Nat}

namespace Phased

variable {p q : Process m n} {phase : Fin m → Phase n} {thread : Fin n} {index : Fin m}
  {stage : Stage}

section Steps

variable {p' : Process m n} {outcome : Bool}

-- The step taken is the only one there is.
theorem settles {phase' : Fin m → Phase n} (hphased : Phased q phase') (houtlasts : p.Outlasts q)
    (hstep : some q = some p')
    : ∃ phase', Phased p' phase' ∧ p.Outlasts p' := by
  injection hstep with hstep
  rw [← hstep]
  exact ⟨phase', hphased, houtlasts⟩

theorem goto_step (h : Phased p phase) (hframe : p.frames thread = some ⟨index, stage⟩) {stage' : Stage}
    (hstep : some (p.goto thread index stage') = some p')
    (hheld : stage'.locks index = stage.locks index) (hfits : stage'.Fits thread (phase index))
    (hlifecycle : stage'.isLifecycle = stage.isLifecycle)
    : ∃ phase', Phased p' phase' ∧ p.Outlasts p' := by
  exact settles (h.goto_turn hframe hheld hfits hlifecycle) (outlasts_of_reg rfl) hstep

theorem lock_step (h : Phased p phase) (hframe : p.frames thread = some ⟨index, stage⟩) {stage' : Stage}
    {l : Lock} (hstep : (p.lock thread l).map (Process.goto thread index stage') = some p')
    (hheld : stage'.locks index = l :: stage.locks index) (hfits : stage'.Fits thread (phase index))
    (hlifecycle : stage'.isLifecycle = stage.isLifecycle)
    : ∃ phase', Phased p' phase' ∧ p.Outlasts p' := by
  obtain ⟨q, hlock, hgoto⟩ := Option.map_eq_some_iff.mp hstep
  rw [← hgoto]
  have hreg := Process.lock_reg hlock
  exact ⟨phase, h.lock_turn hframe hlock hheld hfits hlifecycle, outlasts_of_reg hreg⟩

theorem unlock_step (h : Phased p phase) (hframe : p.frames thread = some ⟨index, stage⟩) {stage' : Stage}
    {l : Lock} (hstep : (p.unlock thread l).map (Process.goto thread index stage') = some p')
    (hheld : stage.locks index = l :: stage'.locks index) (hout : l ∉ stage'.locks index)
    (hfits : stage'.Fits thread (phase index)) (hlifecycle : stage'.isLifecycle = stage.isLifecycle)
    : ∃ phase', Phased p' phase' ∧ p.Outlasts p' := by
  obtain ⟨q, hunlock, hgoto⟩ := Option.map_eq_some_iff.mp hstep
  rw [← hgoto]
  have hreg := Process.unlock_reg hunlock
  exact ⟨phase, h.unlock_turn hframe hunlock hheld hout hfits hlifecycle, outlasts_of_reg hreg⟩

theorem leave_step (h : Phased p phase) (hframe : p.frames thread = some ⟨index, stage⟩) {l : Lock}
    (hstep : (p.unlock thread l).map (Process.leave thread) = some p') (hheld : stage.locks index = [l])
    (hlifecycle : stage.isLifecycle = false)
    : ∃ phase', Phased p' phase' ∧ p.Outlasts p' := by
  obtain ⟨q, hunlock, hleave⟩ := Option.map_eq_some_iff.mp hstep
  rw [← hleave]
  have hreg := Process.unlock_reg hunlock
  exact ⟨phase, h.unlock_leave hframe hunlock hheld hlifecycle, outlasts_of_reg hreg⟩

theorem connect_step (h : Phased p phase) (hframe : p.frames thread = some ⟨index, stage⟩)
    (hconnect : stage.isConnect = true) (hstep : p.step thread outcome = some p')
    (hhonest : Move.Honest (.step thread outcome) p) (horderly : Move.Orderly (.step thread outcome) p)
    : ∃ phase', Phased p' phase' ∧ p.Outlasts p' := by
  rw [Process.step_of_frame hframe] at hstep
  unfold Process.advance at hstep
  have hhonest := hhonest _ hframe
  have horderly := horderly _ hframe
  have hfits := h.frames _ _ hframe
  cases stage with
  | connectResolves env =>
    dsimp only at hstep
    split at hstep
    . exact h.goto_step hframe hstep rfl hfits rfl
    . exact h.lock_step hframe hstep rfl hfits rfl
  | connectAttaches env =>
    injection hstep with hstep
    rw [← hstep]
    exact h.connectAttaches hframe hhonest horderly
  | connectUnlocks bus => exact h.unlock_step hframe hstep rfl List.not_mem_nil hfits rfl
  | connectEnds bus =>
    have hctx := h.contexts index
    rw [show phase index = .connecting thread bus from hfits] at hctx
    cases bus with
    | none =>
      injection hstep with hstep
      rw [← hstep]
      refine ⟨_, h.destroys hframe ?_ rfl ?_ hctx.1, outlasts_of_reg rfl⟩
      all_goals
        rw [show phase index = .connecting thread none from hfits]
        rfl
    | some bus =>
      dsimp only at hstep
      split at hstep
      . contradiction
      . exact settles (h.connectEnds hframe _) (outlasts_of_reg rfl) hstep
  | _ => contradiction

theorem disconnect_step (h : Phased p phase) (hframe : p.frames thread = some ⟨index, stage⟩)
    (hdisconnect : stage.isDisconnect = true) (hstep : p.step thread outcome = some p')
    (horderly : Move.Orderly (.step thread outcome) p)
    : ∃ phase', Phased p' phase' ∧ p.Outlasts p' := by
  rw [Process.step_of_frame hframe] at hstep
  unfold Process.advance at hstep
  have horderly := horderly _ hframe
  have hfits := h.frames _ _ hframe
  cases stage with
  | disconnectLocks =>
    obtain ⟨q, hlock, hgoto⟩ := Option.map_eq_some_iff.mp hstep
    obtain ⟨bus, hphased⟩ := h.disconnectLocks hframe hlock horderly
    rw [← hgoto]
    have hreg := Process.lock_reg hlock
    exact ⟨_, hphased, outlasts_of_reg hreg⟩
  | disconnectDetaches => exact h.lock_step hframe hstep rfl hfits rfl
  | disconnectDrops =>
    obtain ⟨bus, next, hbus, hdetach, hphased, houtlasts⟩ := h.disconnectDrops hframe
    dsimp only at hstep
    rw [hbus] at hstep
    dsimp only at hstep
    rw [hdetach] at hstep
    exact settles hphased houtlasts hstep
  | disconnectUnlocks =>
    have hout : Lock.registry ∉ [contextLock index] := by simp
    exact h.unlock_step hframe hstep rfl hout hfits rfl
  | disconnectClears =>
    exact settles (h.disconnectClears hframe) (outlasts_of_reg rfl) hstep
  | disconnectReleases => exact h.unlock_step hframe hstep rfl List.not_mem_nil hfits rfl
  | disconnectDestroys =>
    have hctx := h.contexts index
    rw [show phase index = .cleared thread from hfits] at hctx
    injection hstep with hstep
    rw [← hstep]
    refine ⟨_, h.destroys hframe ?_ rfl ?_ hctx.1, outlasts_of_reg rfl⟩
    all_goals
      rw [show phase index = .cleared thread from hfits]
      rfl
  | _ => contradiction

-- The record of a transaction is still that of its context when it ends.
theorem transact_step (h : Phased p phase) (hframe : p.frames thread = some ⟨index, stage⟩)
    (htransact : stage.isTransact = true) (hstep : p.step thread outcome = some p')
    : ∃ phase', Phased p' phase' ∧ p.Outlasts p' := by
  rw [Process.step_of_frame hframe] at hstep
  unfold Process.advance at hstep
  have hfits := h.frames _ _ hframe
  have hctx := h.contexts index
  cases stage with
  | transactLocks fc => exact h.lock_step hframe hstep rfl hfits rfl
  | transactChecks fc =>
    dsimp only at hstep
    split at hstep
    . exact h.goto_step hframe hstep rfl hfits rfl
    . exact h.goto_step hframe hstep rfl hfits rfl
  | transactBegins unitId =>
    obtain ⟨bus, hphase⟩ : ∃ bus, phase index = .on bus := hfits
    rw [hphase] at hctx
    dsimp only at hstep
    rw [hctx.2.1] at hstep
    exact h.lock_step hframe hstep rfl hphase rfl
  | transactSends unitId bus =>
    dsimp only at hstep
    split at hstep
    . exact h.goto_step hframe hstep rfl hfits rfl
    . split at hstep
      . exact h.goto_step hframe hstep rfl hfits rfl
      . split at hstep
        . exact h.goto_step hframe hstep rfl hfits rfl
        . exact h.goto_step hframe hstep rfl hfits rfl
  | transactEchoes unitId bus =>
    dsimp only at hstep
    split at hstep
    . exact h.goto_step hframe hstep rfl hfits rfl
    . split at hstep
      . exact h.goto_step hframe hstep rfl hfits rfl
      . exact h.goto_step hframe hstep rfl hfits rfl
  | transactReceives bus => exact h.goto_step hframe hstep rfl hfits rfl
  | transactEnds bus =>
    have hphase : phase index = .on bus := hfits
    rw [hphase] at hctx
    dsimp only at hstep
    rw [hctx.2.1] at hstep
    have hout : busLock bus ∉ [contextLock index] := by simp
    exact h.unlock_step hframe hstep rfl hout ⟨bus, hphase⟩ rfl
  | transactUnlocks => exact h.leave_step hframe hstep rfl rfl
  | _ => contradiction

theorem set_step (h : Phased p phase) (hframe : p.frames thread = some ⟨index, stage⟩)
    (hset : stage.isSet = true) (hstep : p.step thread outcome = some p')
    : ∃ phase', Phased p' phase' ∧ p.Outlasts p' := by
  rw [Process.step_of_frame hframe] at hstep
  unfold Process.advance at hstep
  have hfits := h.frames _ _ hframe
  cases stage with
  | setLocks unitId => exact h.lock_step hframe hstep rfl hfits rfl
  | setWrites unitId =>
    obtain ⟨bus, hphase⟩ : ∃ bus, phase index = .on bus := hfits
    injection hstep with hstep
    rw [← hstep]
    refine ⟨phase, ?_, outlasts_of_reg rfl⟩
    have hfits : Stage.setUnlocks.Fits thread (phase index) := ⟨bus, hphase⟩
    apply h.turn hframe _ (fun _ => Iff.rfl) _ hfits rfl
    . apply h.agree.turn
      rw [hframe]
      rfl
    . intro i
      have hctx := h.contexts i
      dsimp only [Process.setCtx]
      by_cases hi : i = index
      . rw [hi, Function.update_self, hphase]
        rw [hi, hphase] at hctx
        exact hctx
      . rw [Function.update_of_ne hi]
        exact hctx
  | setUnlocks => exact h.leave_step hframe hstep rfl rfl
  | _ => contradiction

theorem step (h : Phased p phase) (hstep : p.step thread outcome = some p')
    (hhonest : Move.Honest (.step thread outcome) p) (horderly : Move.Orderly (.step thread outcome) p)
    : ∃ phase', Phased p' phase' ∧ p.Outlasts p' := by
  cases hframe : p.frames thread with
  | none =>
    unfold Process.step at hstep
    rw [hframe] at hstep
    contradiction
  | some frame =>
    obtain ⟨index, stage⟩ := frame
    obtain hconnect | htransact | hset | hdisconnect := stage.function
    . exact h.connect_step hframe hconnect hstep hhonest horderly
    . exact h.transact_step hframe htransact hstep
    . exact h.set_step hframe hset hstep
    . exact h.disconnect_step hframe hdisconnect hstep horderly

end Steps

section Calls

variable {p' : Process m n}

theorem connected (h : Phased p phase) (hinit : (p.ctxs index).initialized = true)
    (hbusy : ¬p.Busy index Stage.isDetaching)
    : ∃ bus, phase index = .on bus := by
  have hctx := h.contexts index
  have hnobody : ∀ thread stage, p.frames thread = some ⟨index, stage⟩
      → stage.Fits thread (phase index) ∧ stage.isDetaching = false := by
    intro thread stage hframe
    exact ⟨h.frames _ _ hframe, Process.not_busy hbusy hframe⟩
  have hpresent := h.present index
  generalize phase index = current at hctx hnobody hpresent
  cases current with
  | on bus => exact ⟨bus, rfl⟩
  | off =>
    rw [show (p.ctxs index).initialized = false from hctx] at hinit
    contradiction
  | connecting =>
    rw [hctx.1] at hinit
    contradiction
  | cleared =>
    rw [hctx.1] at hinit
    contradiction
  | leaving thread bus =>
    obtain ⟨stage, hframe, _⟩ := hpresent thread rfl
    obtain ⟨hfits, hout⟩ := hnobody thread stage hframe
    cases stage
    all_goals simp [Stage.Fits, Stage.isDetaching] at hfits hout
  | detached thread =>
    obtain ⟨stage, hframe, _⟩ := hpresent thread rfl
    obtain ⟨hfits, hout⟩ := hnobody thread stage hframe
    cases stage
    all_goals simp [Stage.Fits, Stage.isDetaching] at hfits hout

theorem disconnected (h : Phased p phase) (hinit : (p.ctxs index).initialized = false)
    (hbusy : ¬p.Busy index Stage.isLifecycle)
    : phase index = .off := by
  have hctx := h.contexts index
  have hnobody : ∀ thread, (phase index).thread ≠ some thread := by
    intro thread hthread
    obtain ⟨stage, hframe, hlifecycle⟩ := h.present index thread hthread
    rw [Process.not_busy hbusy hframe] at hlifecycle
    contradiction
  cases hphase : phase index with
  | off => rfl
  | on bus =>
    rw [hphase] at hctx
    rw [hctx.1] at hinit
    contradiction
  | _ => 
    rw [hphase] at hnobody
    exact absurd rfl (hnobody _)

theorem connect_off (h : Phased p phase) (hfree : p.frames thread = none) (hphase : phase index = .off)
    (env : ConnectEnv) (ctx : ClientCtx) (hctx : ctx.initialized = false)
    : Phased (p.setCtx index ctx) phase ∧
      Phased (((p.setCtx index ctx).init (contextLock index)).goto thread index (.connectResolves env))
        (Function.update phase index (.connecting thread none)) := by
  have hothers : ∀ thread' old, thread' ≠ thread → p.frames thread' = some old → old.index ≠ index := by
    intro thread' old _ hold hindex
    have hfits := h.frames _ _ hold
    rw [hindex, hphase] at hfits
    exact Stage.Fits.not_off hfits
  have hnone : ∀ old, p.frames thread = some old → old.index = index := by
    intro old hold
    rw [hfree] at hold
    contradiction
  have hbus : (Phase.connecting thread none).bus = (phase index).bus := by
    rw [hphase]
    rfl
  have hctxs : Phased (p.setCtx index ctx) phase := by
    refine ⟨h.agree, h.registry, h.records, ?_, h.frames, h.alone, h.present⟩
    intro i
    by_cases hi : i = index
    . rw [hi, hphase]
      exact (congrArg ClientCtx.initialized (Function.update_self index ctx p.ctxs)).trans hctx
    . change (phase i).Describes (Function.update p.ctxs index ctx i) _
      rw [Function.update_of_ne hi]
      exact h.contexts i
  refine ⟨hctxs, ?_⟩
  obtain ⟨hagree, hregistry, hrecords, hlocks⟩ :=
    @h.replace_context _ _ _ _ _ _ (some ⟨index, .connectResolves env⟩) (.connecting thread none) .free
      (by simp) hothers (by rw [hfree]; rfl) List.not_mem_nil hbus
  apply h.change hnone hothers hagree hregistry hrecords _ hlocks
  . exact frame_goto rfl
  . exact present_goto rfl rfl
  . rw [Function.update_self]
    exact ⟨hctx, by simp⟩

theorem connected_call (h : Phased p phase) (hfree : p.frames thread = none)
    (hcall : (if !(p.ctxs index).initialized then some p else some (p.goto thread index stage)) = some p')
    (hbusy : ¬p.Busy index Stage.isDetaching) (hheld : stage.locks index = [])
    (hfits : ∀ bus, stage.Fits thread (.on bus))
    (halone : stage.isLifecycle = true → ¬p.Busy index Stage.isLifecycle)
    : ∃ phase', Phased p' phase' ∧ p.Outlasts p' := by
  split at hcall
  . exact settles h (outlasts_of_reg rfl) hcall
  next hinit =>
    have hinit : (p.ctxs index).initialized = true := by simpa using hinit
    obtain ⟨bus, hphase⟩ := h.connected hinit hbusy
    injection hcall with hcall
    rw [← hcall]
    refine ⟨phase, h.enter hfree hheld ?_ halone, outlasts_of_reg rfl⟩
    rw [hphase]
    exact hfits bus

theorem call (h : Phased p phase) {request : Request m} (hcall : p.call thread request = some p')
    (hlegal : Move.Legal (.call thread request) p) (horderly : Move.Orderly (.call thread request) p)
    : ∃ phase', Phased p' phase' ∧ p.Outlasts p' := by
  unfold Process.call at hcall
  split at hcall
  . contradiction
  next hbusy =>
    have hfree : p.frames thread = none := by simpa using hbusy
    cases request with
    | connect index cfg env =>
      dsimp only at hcall
      split at hcall
      . exact settles h (outlasts_of_reg rfl) hcall
      . split at hcall
        . exact settles h (outlasts_of_reg rfl) hcall
        next hinit =>
          have hphase := h.disconnected (Bool.eq_false_of_not_eq_true hinit) hlegal
          obtain ⟨hfailed, hgoes⟩ := h.connect_off hfree hphase env ⟨-1, none, false, cfg⟩ rfl
          split at hcall
          . exact settles hfailed (outlasts_of_reg rfl) hcall
          . exact settles hgoes (outlasts_of_reg rfl) hcall
    | transact index fc =>
      apply h.connected_call hfree hcall _ rfl (fun bus => ⟨bus, rfl⟩) (fun h => Bool.noConfusion h)
      exact Process.not_busy_of_imp hlegal Stage.isDisconnect_of_isDetaching
    | setUnitId index unitId =>
      exact h.connected_call hfree hcall horderly rfl (fun bus => ⟨bus, rfl⟩)
        (fun h => Bool.noConfusion h)
    | disconnect index =>
      apply h.connected_call hfree hcall _ rfl (fun bus => ⟨bus, rfl⟩) (fun _ => hlegal)
      apply Process.not_busy_of_imp hlegal
      intro stage hstage
      exact Bool.or_eq_true_iff.mpr (.inr (stage.isDisconnect_of_isDetaching hstage))

theorem move (h : Phased p phase) {move : Move m n} (hmove : p.move move = some p') (hlegal : move.Legal p)
    (hhonest : move.Honest p) (horderly : move.Orderly p)
    : ∃ phase', Phased p' phase' ∧ p.Outlasts p' := by
  cases move with
  | call thread request => exact h.call hmove hlegal horderly
  | step thread outcome => exact h.step hmove hhonest horderly

end Calls

section Live

-- Who waits for a lock waits for somebody who is further.
def Advances (p : Process m n) (thread : Fin n) : Prop :=
  (p.step thread true).isSome ∨
    ∃ thread', (p.frames thread').isSome ∧
      (p.frames thread').elim 0 (·.stage.rank) < (p.frames thread).elim 0 (·.stage.rank)

theorem advances_of_lock (h : Phased p phase) {l : Lock} {next : Process m n → Process m n}
    (hframe : p.frames thread = some ⟨index, stage⟩) (hrank : stage.rank = l.rank)
    (hpresent : p.locks l ≠ .absent) (hstep : p.step thread true = (p.lock thread l).map next)
    : Advances p thread := by
  cases hlock : p.locks l with
  | absent => contradiction
  | free =>
    left
    rw [hstep, Process.lock_of_free hlock]
    rfl
  | held thread' =>
    right
    have hheld := (h.agree l thread').mp hlock
    cases hframe' : p.frames thread' with
    | none =>
      rw [hframe'] at hheld
      exact absurd hheld List.not_mem_nil
    | some frame =>
      rw [hframe'] at hheld
      refine ⟨thread', by rw [hframe']; rfl, ?_⟩
      rw [hframe, hframe']
      change frame.stage.rank < stage.rank
      rw [hrank]
      exact rank_of_held hheld

theorem advances_of_unlock (h : Phased p phase) {l : Lock} {next : Process m n → Process m n}
    (hframe : p.frames thread = some ⟨index, stage⟩) (hheld : l ∈ stage.locks index)
    (hstep : p.step thread true = (p.unlock thread l).map next)
    : Advances p thread := by
  have hlocked : p.locks l = .held thread := by
    apply (h.agree l thread).mpr
    rw [hframe]
    exact hheld
  left
  rw [hstep, Process.unlock_of_held hlocked]
  rfl

theorem connect_advances (h : Phased p phase) (hframe : p.frames thread = some ⟨index, stage⟩)
    (hconnect : stage.isConnect = true)
    : Advances p thread := by
  have hfits := h.frames _ _ hframe
  have hstep := @Process.step_of_frame _ _ _ _ _ _ hframe true
  unfold Process.advance at hstep
  cases stage with
  | connectResolves env =>
    dsimp only at hstep
    split at hstep
    . left
      rw [hstep]
      rfl
    . exact h.advances_of_lock hframe rfl h.registry hstep
  | connectAttaches env =>
    left
    rw [hstep]
    rfl
  | connectUnlocks bus => exact h.advances_of_unlock hframe List.mem_cons_self hstep
  | connectEnds bus =>
    left
    rw [hstep]
    cases bus with
    | none => rfl
    | some bus =>
      have hphase : phase index = .connecting thread (some bus) := hfits
      have hmem := h.records.led index bus (by rw [hphase]; rfl)
      obtain ⟨entry, hentry, rfl⟩ := List.mem_map.mp hmem
      have hget : getBus p.reg entry.1 = some entry.2 := Records.get_eq_some h.records.addresses hentry
      dsimp only
      rw [hget]
      rfl
  | _ => contradiction

theorem transact_advances (h : Phased p phase) (hframe : p.frames thread = some ⟨index, stage⟩)
    (htransact : stage.isTransact = true)
    : Advances p thread := by
  have hfits := h.frames _ _ hframe
  have hctx := h.contexts index
  have hstep := @Process.step_of_frame _ _ _ _ _ _ hframe true
  unfold Process.advance at hstep
  cases stage with
  | transactLocks fc =>
    obtain ⟨bus, hphase⟩ : ∃ bus, phase index = .on bus := hfits
    rw [hphase] at hctx
    exact h.advances_of_lock hframe rfl hctx.2.2 hstep
  | transactBegins unitId =>
    obtain ⟨bus, hphase⟩ : ∃ bus, phase index = .on bus := hfits
    rw [hphase] at hctx
    dsimp only at hstep
    rw [hctx.2.1] at hstep
    apply h.advances_of_lock hframe rfl _ hstep
    apply (h.records.mutexes bus).mpr
    exact h.records.led index bus (by rw [hphase]; rfl)
  | transactEnds bus =>
    have hphase : phase index = .on bus := hfits
    rw [hphase] at hctx
    dsimp only at hstep
    rw [hctx.2.1] at hstep
    exact h.advances_of_unlock hframe List.mem_cons_self hstep
  | transactUnlocks => exact h.advances_of_unlock hframe List.mem_cons_self hstep
  | transactReceives bus =>
    left
    rw [hstep]
    rfl
  | transactChecks fc =>
    left
    rw [hstep]
    dsimp only
    split
    . rfl
    . rfl
  | transactSends unitId bus =>
    left
    rw [hstep]
    dsimp only
    split
    . rfl
    . split
      . rfl
      . split
        . rfl
        . rfl
  | transactEchoes unitId bus =>
    left
    rw [hstep]
    dsimp only
    split
    . rfl
    . split
      . rfl
      . rfl
  | _ => contradiction

theorem set_advances (h : Phased p phase) (hframe : p.frames thread = some ⟨index, stage⟩)
    (hset : stage.isSet = true)
    : Advances p thread := by
  have hfits := h.frames _ _ hframe
  have hctx := h.contexts index
  have hstep := @Process.step_of_frame _ _ _ _ _ _ hframe true
  unfold Process.advance at hstep
  cases stage with
  | setLocks unitId =>
    obtain ⟨bus, hphase⟩ : ∃ bus, phase index = .on bus := hfits
    rw [hphase] at hctx
    exact h.advances_of_lock hframe rfl hctx.2.2 hstep
  | setWrites unitId =>
    left
    rw [hstep]
    rfl
  | setUnlocks => exact h.advances_of_unlock hframe List.mem_cons_self hstep
  | _ => contradiction

theorem disconnect_advances (h : Phased p phase) (hframe : p.frames thread = some ⟨index, stage⟩)
    (hdisconnect : stage.isDisconnect = true)
    : Advances p thread := by
  have hfits := h.frames _ _ hframe
  have hctx := h.contexts index
  have hstep := @Process.step_of_frame _ _ _ _ _ _ hframe true
  unfold Process.advance at hstep
  cases stage with
  | disconnectLocks =>
    obtain ⟨bus, hphase⟩ : ∃ bus, phase index = .on bus := hfits
    rw [hphase] at hctx
    exact h.advances_of_lock hframe rfl hctx.2.2 hstep
  | disconnectDetaches => exact h.advances_of_lock hframe rfl h.registry hstep
  | disconnectDrops =>
    obtain ⟨bus, next, hbus, hdetach, _⟩ := h.disconnectDrops hframe
    left
    rw [hstep]
    dsimp only
    rw [hbus]
    dsimp only
    rw [hdetach]
    rfl
  | disconnectUnlocks => exact h.advances_of_unlock hframe List.mem_cons_self hstep
  | disconnectClears =>
    left
    rw [hstep]
    rfl
  | disconnectReleases => exact h.advances_of_unlock hframe List.mem_cons_self hstep
  | disconnectDestroys =>
    left
    rw [hstep]
    rfl
  | _ => contradiction

end Live

theorem sound (h : Phased p phase)
    : p.Sound := by
  constructor
  . intro bus thread thread' frame frame' hframe hframe' hon hon'
    apply @Mutex.Agree.unique _ _ _ _ _ _ _ (busLock bus) h.agree
    . rw [hframe]
      exact busLock_of_isOn hon
    . rw [hframe']
      exact busLock_of_isOn hon'
  . intro thread bus huses
    obtain ⟨index, stage, hframe, hphase⟩ := h.bus_of_uses huses
    apply h.records.led index
    rw [hphase]
    rfl
  . intro index bus hattached
    exact h.records.led index bus (h.bus_of_attached hattached)
  . intro thread l hmem
    exact (h.agree l thread).mpr hmem
  . intro thread l hframe hheld
    have hmem := (h.agree l thread).mp hheld
    rw [hframe] at hmem
    exact List.not_mem_nil hmem
  . intro thread hactive
    apply Exists.imp fun _ hready => ⟨true, hready⟩
    apply @Mutex.exists_ready _ (fun thread => (p.frames thread).isSome = true) _
      (fun thread => (p.frames thread).elim 0 (·.stage.rank)) _ thread hactive
    intro thread hactive
    obtain ⟨⟨index, stage⟩, hframe⟩ := Option.isSome_iff_exists.mp hactive
    obtain hconnect | htransact | hset | hdisconnect := stage.function
    . exact h.connect_advances hframe hconnect
    . exact h.transact_advances hframe htransact
    . exact h.set_advances hframe hset
    . exact h.disconnect_advances hframe hdisconnect

theorem run {p' : Process m n} {moves : List (Move m n)} (h : Phased p phase)
    (hrun : p.run moves = some p') (hlegal : p.Along Move.Legal moves) (hhonest : p.Along Move.Honest moves)
    (horderly : p.Along Move.Orderly moves)
    : ∃ phase', Phased p' phase' := by
  induction moves generalizing p phase with
  | nil =>
    injection hrun with hrun
    rw [← hrun]
    exact ⟨phase, h⟩
  | cons move moves ih =>
    obtain ⟨next, hmove, hrun⟩ := Option.bind_eq_some_iff.mp hrun
    obtain ⟨phase', hnext, _⟩ := h.move hmove hlegal.1 hhonest.1 horderly.1
    exact ih hnext hrun (hlegal.2 next hmove) (hhonest.2 next hmove) (horderly.2 next hmove)

end Phased

theorem start_phased
    : Phased (Process.start : Process m n) fun _ => .off := by
  constructor
  . intro l thread
    unfold Process.start
    dsimp only
    split
    . exact iff_of_false (by simp) List.not_mem_nil
    . exact iff_of_false (by simp) List.not_mem_nil
  . simp [Process.start]
  . constructor
    . exact List.nodup_nil
    . simp [Process.start]
    . intro bus
      simp [Process.start, Records.keys]
    . simp [Process.start]
    . simp [Process.start]
    . intro index bus hled
      contradiction
  . intro index
    rfl
  . intro thread frame hframe
    contradiction
  . intro thread thread' frame frame' hframe
    contradiction
  . intro index thread hthread
    contradiction

theorem locks_kept {moves : List (Move m n)} {p : Process m n} (hrun : Process.start.run moves = some p)
    (hlegal : Process.start.Along Move.Legal moves) (hhonest : Process.start.Along Move.Honest moves)
    (horderly : Process.start.Along Move.Orderly moves)
    : p.Sound ∧
      ∀ move p', p.move move = some p' → move.Legal p → move.Honest p → move.Orderly p → p.Outlasts p' := by
  obtain ⟨phase, hphased⟩ := start_phased.run hrun hlegal hhonest horderly
  refine ⟨hphased.sound, ?_⟩
  intro move p' hmove hlegal' hhonest' horderly'
  obtain ⟨_, _, houtlasts⟩ := hphased.move hmove hlegal' hhonest' horderly'
  exact houtlasts

def overlap : List (Move 1 2) :=
  [.call 0 (.connect 0 sharedConfig sharedEnv), .step 0 true, .step 0 true, .step 0 true, .step 0 true,
    .call 1 (.transact 0 6), .call 0 (.disconnect 0), .step 1 true]

theorem locks_kept_overlap
    : ∃ p : Process 1 2, Process.start.run overlap = some p ∧ p.locks (contextLock (0 : Fin 1)) = .held 1 ∧
        p.Sound := by
  have hrun : ((Process.start : Process 1 2).run overlap).any
      (fun p => p.locks (contextLock (0 : Fin 1)) = .held 1) = true := by
    decide +kernel
  obtain ⟨p, hrun, hheld⟩ := (Option.any_eq_true _ _).mp hrun
  refine ⟨p, hrun, of_decide_eq_true hheld, ?_⟩
  exact (locks_kept hrun (by decide +kernel) (by decide +kernel) (by decide +kernel)).1

-- A request that has seen the context connected, and then a disconnect that does not wait for it.
def stranded : List (Move 1 2) :=
  [.call 0 (.connect 0 sharedConfig sharedEnv), .step 0 true, .step 0 true, .step 0 true, .step 0 true,
    .call 1 (.transact 0 6), .call 0 (.disconnect 0), .step 0 true, .step 0 true, .step 0 true, .step 0 true,
    .step 0 true, .step 0 true, .step 0 true]

theorem locks_stranded
    : ∃ p : Process 1 2, Process.start.run stranded = some p ∧ Process.start.Along Move.Legal stranded ∧
        Process.start.Along Move.Honest stranded ∧ ¬p.Sound := by
  have hstuck : ((Process.start : Process 1 2).run stranded).any (fun p =>
      (p.frames 1).isSome ∧ ∀ thread outcome, (p.step thread outcome).isSome = false) = true := by
    decide +kernel
  obtain ⟨p, hrun, hstuck⟩ := (Option.any_eq_true _ _).mp hstuck
  obtain ⟨hactive, hstuck⟩ := of_decide_eq_true hstuck
  refine ⟨p, hrun, by decide +kernel, by decide +kernel, ?_⟩
  intro hsound
  obtain ⟨thread, outcome, hready⟩ := hsound.live 1 hactive
  rw [hstuck] at hready
  contradiction

end Rtu.Client
