import LaOS.TlbMachine

/-!
# When a shootdown is complete

`ipi_broadcast` does not wait for the other processors, so `vmm_unmap` and
`vmm_remap` may return while a processor still holds the old translation.
-/

namespace LaOS.Tlb

open Option List Function Vmm

variable {Cpu Thread : Type}

/-- A processor has no translation of a page from before a change. -/
def EvictedOn (s : State Cpu Thread) (cpu : Cpu) (change : Change) : Prop :=
  ∀ cached ∈ s.tlb cpu, cached.page = change.page → change.epoch ≤ cached.epoch

/-- No processor has a translation of a page from before a change. -/
def Evicted (s : State Cpu Thread) (change : Change) : Prop :=
  ∀ cpu, EvictedOn s cpu change

/-- The old translations of the calls that have returned, and of the pages whose
frames were released, are gone. -/
structure ShotDown (s : State Cpu Thread) : Prop where
  returned : ∀ change ∈ s.returned, Evicted s change
  released : ∀ frame change, (frame, change) ∈ s.released → Evicted s change

/-- A call that has replaced a translation returns after all other processors have handled the
interrupt, and a frame is released after its page was unmapped. -/
def SettledAt (cpu : Cpu) (s : State Cpu Thread) : Phase → Prop
  | .returning call _ outcome => call.replaces = true → outcome ≠ none →
      ∀ other, other ≠ cpu → s.pending other = false
  | .freeing _ _ outcome => outcome ≠ none
  | _ => True

def Settled (home : Thread → Cpu) (s : State Cpu Thread) (action : Action Cpu Thread) : Prop :=
  ∀ t ∈ action.mover, SettledAt (home t) s (s.phase t)

instance [DecidableEq Cpu] [Fintype Cpu] (cpu : Cpu) (s : State Cpu Thread) :
    (phase : Phase) → Decidable (SettledAt cpu s phase)
  | .returning _ _ _ => inferInstanceAs (Decidable (_ → _ → ∀ _, _ → _))
  | .freeing _ _ _ => inferInstanceAs (Decidable (_ ≠ _))
  | .idle | .entering _ _ | .locking _ _ _ | .changing _ _ _ | .flushing _ _ _ _
  | .unlocking _ _ _ _ | .broadcasting _ _ _ | .rollbackEntering _ | .rollbackLocking _ _
  | .rollbackChecking _ _ | .rollbackLoop _ | .rollbackUnlocking _ => isTrue trivial

instance [DecidableEq Cpu] [Fintype Cpu] (home : Thread → Cpu) (s : State Cpu Thread)
    (action : Action Cpu Thread) : Decidable (Settled home s action) :=
  inferInstanceAs (Decidable (∀ t ∈ action.mover, _))

/-- Translations enter a TLB with the current number of changes, and an interrupt that is no
longer pending has emptied the TLB. -/
structure Ages (before after : State Cpu Thread) : Prop where
  epoch : before.epoch ≤ after.epoch
  cached : ∀ cpu, ∀ cached ∈ after.tlb cpu, cached ∈ before.tlb cpu ∨ before.epoch ≤ cached.epoch
  pending : ∀ cpu, before.pending cpu = true → after.pending cpu = true ∨ after.tlb cpu = []

variable {before after s : State Cpu Thread} {cpu : Cpu} {change : Change}

theorem Ages.of_same (epoch : before.epoch ≤ after.epoch) (tlb : after.tlb = before.tlb)
    (pending : after.pending = before.pending) : Ages before after :=
  ⟨epoch, fun _ _ mem => .inl (tlb ▸ mem), fun _ isPending => .inl (pending ▸ isPending)⟩

theorem Ages.evictedOn (ages : Ages before after) (earlier : change.epoch ≤ before.epoch)
    (evicted : EvictedOn before cpu change) : EvictedOn after cpu change := by
  intro cached mem samePage
  rcases ages.cached cpu cached mem with older | newer
  · exact evicted cached older samePage
  · exact earlier.trans newer

theorem Ages.evicted (ages : Ages before after) (earlier : change.epoch ≤ before.epoch)
    (evicted : Evicted before change) : Evicted after change :=
  fun cpu => ages.evictedOn earlier (evicted cpu)

section Effects

variable [DecidableEq Cpu]

theorem evictedOn_flushOne (vaddr : Word) (epoch : Nat) :
    EvictedOn (s.flushOne cpu vaddr) cpu ⟨pageOf vaddr, epoch⟩ := by
  intro cached mem samePage
  simp only [State.flushOne, update_self, mem_filter, decide_eq_true_eq] at mem
  exact absurd samePage mem.2

theorem ages_flushOne (vaddr : Word) : Ages s (s.flushOne cpu vaddr) := by
  refine ⟨le_rfl, fun other cached mem => .inl ?_, fun other isPending => .inl isPending⟩
  by_cases same : other = cpu
  · subst same
    simp only [State.flushOne, update_self] at mem
    exact mem_of_mem_filter mem
  · simpa only [State.flushOne, update_of_ne same] using mem

theorem ages_broadcast : Ages s (s.broadcast cpu) :=
  ⟨le_rfl, fun _ _ mem => .inl mem, fun _ isPending => .inl (by
    simp [State.broadcast, isPending])⟩

theorem ages_fill (vaddr : Word) (translation : Translation) : Ages s { s with
      tlb := update s.tlb cpu
        (⟨pageOf vaddr, translation, s.epoch⟩ :: s.tlb cpu) } := by
  refine ⟨le_rfl, fun other cached mem => ?_, fun other isPending => .inl isPending⟩
  by_cases same : other = cpu
  · subst same
    simp only [update_self, mem_cons] at mem
    rcases mem with rfl | older
    · exact .inr le_rfl
    · exact .inl older
  · simp only [update_of_ne same] at mem
    exact .inl mem

theorem ages_handle : Ages s (({ s with pending := update s.pending cpu false } :
      State Cpu Thread).flushAll cpu) := by
  refine ⟨le_rfl, fun other cached mem => ?_, fun other isPending => ?_⟩
  · by_cases same : other = cpu
    · subst same
      simp [State.flushAll] at mem
    · simp only [State.flushAll, update_of_ne same] at mem
      exact .inl mem
  · by_cases same : other = cpu
    · subst same
      exact .inr (by simp [State.flushAll])
    · exact .inl (by simpa [State.flushAll, same] using isPending)

end Effects

/-- A call from `module_alloc_rollback` unmaps the page of the loop. -/
def FromLoop (call : Call) (ret : Return) : Prop :=
  ∀ loop phys, ret = .rollback loop phys → call = .unmap loop.va

/-- The progress of a shootdown at the position of a thread. -/
def PhaseOk (cpu : Cpu) (s : State Cpu Thread) : Phase → Prop
  | .entering call ret => FromLoop call ret
  | .locking call ret _ => FromLoop call ret
  | .changing call ret _ => FromLoop call ret
  | .flushing call ret _ outcome =>
    FromLoop call ret ∧ ∀ epoch, outcome = some epoch → epoch ≤ s.epoch
  | .unlocking call ret _ outcome =>
    FromLoop call ret ∧ ∀ epoch, outcome = some epoch →
      epoch ≤ s.epoch ∧ EvictedOn s cpu ⟨pageOf call.vaddr, epoch⟩
  | .broadcasting call ret outcome =>
    FromLoop call ret ∧ ∀ epoch, outcome = some epoch →
      epoch ≤ s.epoch ∧ EvictedOn s cpu ⟨pageOf call.vaddr, epoch⟩
  | .returning call ret outcome =>
    FromLoop call ret ∧ ∀ epoch, outcome = some epoch →
      epoch ≤ s.epoch ∧ EvictedOn s cpu ⟨pageOf call.vaddr, epoch⟩ ∧
        (call.replaces = true → ∀ other, other ≠ cpu →
          s.pending other = true ∨ EvictedOn s other ⟨pageOf call.vaddr, epoch⟩)
  | .freeing loop _ outcome =>
    ∀ epoch, outcome = some epoch → epoch ≤ s.epoch ∧ Evicted s ⟨pageOf loop.va, epoch⟩
  | _ => True

theorem Ages.phaseOk (ages : Ages before after) {phase : Phase} (ok : PhaseOk cpu before phase) :
    PhaseOk cpu after phase := by
  cases phase with
  | flushing => exact ⟨ok.1, fun epoch isSome => (ok.2 epoch isSome).trans ages.epoch⟩
  | unlocking | broadcasting =>
    refine ⟨ok.1, fun epoch isSome => ?_⟩
    obtain ⟨earlier, evicted⟩ := ok.2 epoch isSome
    exact ⟨earlier.trans ages.epoch, ages.evictedOn earlier evicted⟩
  | returning =>
    refine ⟨ok.1, fun epoch isSome => ?_⟩
    obtain ⟨earlier, evicted, others⟩ := ok.2 epoch isSome
    refine ⟨earlier.trans ages.epoch, ages.evictedOn earlier evicted, fun replaces other ne => ?_⟩
    rcases others replaces other ne with isPending | otherEvicted
    · refine (ages.pending other isPending).imp id fun empty cached mem => ?_
      rw [empty] at mem
      cases mem
    · exact .inr (ages.evictedOn earlier otherEvicted)
  | freeing =>
    intro epoch isSome
    obtain ⟨earlier, evicted⟩ := ok epoch isSome
    exact ⟨earlier.trans ages.epoch, ages.evicted earlier evicted⟩
  | _ => exact ok

variable {root : Frame} {home : Thread → Cpu} {t : Thread}

structure ShootdownInv (home : Thread → Cpu) (s : State Cpu Thread) : Prop where
  phases : ∀ t, PhaseOk (home t) s (s.phase t)
  returned : ∀ change ∈ s.returned, change.epoch ≤ s.epoch ∧ Evicted s change
  released : ∀ frame change, (frame, change) ∈ s.released →
    change.epoch ≤ s.epoch ∧ Evicted s change

theorem shootdownInv_initial (starts : Initial s) : ShootdownInv home s := by
  refine ⟨fun t => ?_, fun change mem => ?_, fun frame change mem => ?_⟩
  · rw [starts.idle]
    trivial
  · rw [starts.returned] at mem
    cases mem
  · rw [starts.released] at mem
    cases mem

theorem ShootdownInv.of_ages (inv : ShootdownInv home before) (ages : Ages before after)
    (phase : after.phase = before.phase) (returned : after.returned = before.returned)
    (released : after.released = before.released) : ShootdownInv home after := by
  refine ⟨fun t => ?_, fun change mem => ?_, fun frame change mem => ?_⟩
  · rw [phase]
    exact ages.phaseOk (inv.phases t)
  · obtain ⟨earlier, evicted⟩ := inv.returned change (returned ▸ mem)
    exact ⟨earlier.trans ages.epoch, ages.evicted earlier evicted⟩
  · obtain ⟨earlier, evicted⟩ := inv.released frame change (released ▸ mem)
    exact ⟨earlier.trans ages.epoch, ages.evicted earlier evicted⟩

variable [DecidableEq Thread]

/-- A step of a thread moves to a position whose required facts are known, and logs only changes
whose old translations are gone. -/
structure Advanced (cpu : Cpu) (t : Thread) (before after : State Cpu Thread) : Prop where
  phase : ∃ phase, after.phase = Function.update before.phase t phase ∧ PhaseOk cpu after phase
  ages : Ages before after
  returned : ∀ change ∈ after.returned, change ∈ before.returned ∨
    change.epoch ≤ after.epoch ∧ Evicted after change
  released : ∀ frame change, (frame, change) ∈ after.released →
    (frame, change) ∈ before.released ∨ change.epoch ≤ after.epoch ∧ Evicted after change

theorem Advanced.inv (advanced : Advanced (home t) t before after)
    (inv : ShootdownInv home before) : ShootdownInv home after := by
  obtain ⟨⟨phase, phases, phaseOk⟩, ages, returned, released⟩ := advanced
  refine ⟨fun other => ?_, fun change mem => ?_, fun frame change mem => ?_⟩
  · rw [phases]
    by_cases same : other = t
    · subst same
      rw [update_self]
      exact phaseOk
    · rw [update_of_ne same]
      exact ages.phaseOk (inv.phases other)
  · rcases returned change mem with older | new
    · obtain ⟨earlier, evicted⟩ := inv.returned change older
      exact ⟨earlier.trans ages.epoch, ages.evicted earlier evicted⟩
    · exact new
  · rcases released frame change mem with older | new
    · obtain ⟨earlier, evicted⟩ := inv.released frame change older
      exact ⟨earlier.trans ages.epoch, ages.evicted earlier evicted⟩
    · exact new

theorem Advanced.of_quiet {phase : Phase} (ages : Ages before after)
    (phases : after.phase = update before.phase t phase)
    (phaseOk : PhaseOk cpu after phase) (returned : after.returned = before.returned)
    (released : after.released = before.released) : Advanced cpu t before after :=
  ⟨⟨phase, phases, phaseOk⟩, ages, fun _ mem => .inl (returned ▸ mem),
    fun _ _ mem => .inl (released ▸ mem)⟩

theorem Advanced.of_panic (ok : PhaseOk cpu s (s.phase t)) :
    Advanced cpu t s s.panic :=
  have ages : Ages s s.panic := .of_same le_rfl rfl rfl
  .of_quiet ages (update_eq_self t s.phase).symm (ages.phaseOk ok) rfl rfl

theorem not_replaces_of_quiet {call : Call} {outcome : Option Nat} {epoch : Nat}
    (quiet : call.broadcasts outcome.isSome = false) (isSome : outcome = some epoch) :
    call.replaces = false := by
  subst isSome
  cases call with
  | map => rfl
  | remap => cases quiet
  | unmap => cases quiet

theorem Ages.setPhase (ages : Ages before after) (phase : Phase) :
    Ages before (after.setPhase t phase) :=
  { ages with }

variable [DecidableEq Cpu]

theorem advance_advanced {answers : List Frame} (ok : PhaseOk cpu s (s.phase t))
    (settled : SettledAt cpu s (s.phase t))
    (ran : advance root s t cpu answers = some after) :
    Advanced cpu t s after := by
  simp only [advance] at ran
  cases pos : s.phase t with
  | idle =>
    rw [pos] at ran
    cases ran
  | entering call ret =>
    simp only [pos] at ran ok
    cases ran
    exact .of_quiet (.of_same le_rfl rfl rfl) rfl ok rfl rfl
  | locking call ret wasMasked =>
    simp only [pos] at ran ok
    obtain ⟨-, ⟨⟩⟩ := ite_none_right_eq_some.mp ran
    exact .of_quiet (.of_same le_rfl rfl rfl) rfl ok rfl rfl
  | changing call ret wasMasked =>
    simp only [pos] at ran ok
    split at ran <;> cases ran
    · exact .of_panic (pos ▸ ok)
    · exact .of_quiet (.of_same (Nat.le_succ _) rfl rfl) rfl ⟨ok, nofun⟩ rfl rfl
    · refine .of_quiet (.of_same (Nat.le_succ _) rfl rfl) rfl ⟨ok, ?_⟩ rfl rfl
      rintro epoch ⟨⟩
      exact le_rfl
  | flushing call ret wasMasked outcome =>
    simp only [pos] at ran ok
    cases ran
    refine .of_quiet ((ages_flushOne call.vaddr).setPhase _) rfl ⟨ok.1, fun epoch isSome => ?_⟩ rfl rfl
    exact ⟨ok.2 epoch isSome, evictedOn_flushOne call.vaddr epoch⟩
  | unlocking call ret wasMasked outcome =>
    simp only [pos] at ran ok
    cases ran
    refine .of_quiet (.of_same le_rfl rfl rfl) rfl ?_ rfl rfl
    split
    · exact ok
    next quiet =>
    refine ⟨ok.1, fun epoch isSome => ⟨(ok.2 epoch isSome).1, (ok.2 epoch isSome).2, ?_⟩⟩
    rw [not_replaces_of_quiet (Bool.eq_false_iff.mpr quiet) isSome]
    nofun
  | broadcasting call ret outcome =>
    simp only [pos] at ran ok
    cases ran
    refine .of_quiet (ages_broadcast.setPhase _) rfl ⟨ok.1, fun epoch isSome => ?_⟩ rfl rfl
    refine ⟨(ok.2 epoch isSome).1, (ok.2 epoch isSome).2, fun _ other ne => .inl ?_⟩
    simp [State.setPhase, State.broadcast, ne]
  | returning call ret outcome =>
    simp only [pos] at ran ok settled
    cases ran
    obtain ⟨fromLoop, progress⟩ := ok
    have evicted : ∀ epoch, outcome = some epoch → call.replaces = true →
        Evicted s ⟨pageOf call.vaddr, epoch⟩ := by
      intro epoch isSome replaces other
      obtain ⟨_, onCpu, onOthers⟩ := progress epoch isSome
      by_cases same : other = cpu
      · rw [same]
        exact onCpu
      have handled := settled replaces (isSome ▸ nofun) other same
      refine (onOthers replaces other same).resolve_left ?_
      rw [handled]
      nofun
    refine ⟨⟨_, rfl, ?_⟩, .of_same le_rfl rfl rfl, fun change mem => ?_,
      fun _ _ mem => .inl mem⟩
    · cases ret with
      | caller => trivial
      | rollback loop phys =>
        obtain rfl := fromLoop loop phys rfl
        exact fun epoch isSome => ⟨(progress epoch isSome).1, evicted epoch isSome rfl⟩
    rcases mem_append.mp mem with new | older
    · cases outcome with
      | none => cases new
      | some epoch =>
        simp only at new
        split at new
        · next replaces =>
          obtain rfl := mem_singleton.mp new
          exact .inr ⟨(progress epoch rfl).1, evicted epoch rfl replaces⟩
        · cases new
    · exact .inl older
  | rollbackEntering checkpoint | rollbackUnlocking wasMasked =>
    simp only [pos] at ran
    cases ran
    exact .of_quiet (.of_same le_rfl rfl rfl) rfl trivial rfl rfl
  | rollbackLocking checkpoint wasMasked =>
    simp only [pos] at ran
    obtain ⟨-, ⟨⟩⟩ := ite_none_right_eq_some.mp ran
    exact .of_quiet (.of_same le_rfl rfl rfl) rfl trivial rfl rfl
  | rollbackChecking checkpoint wasMasked =>
    simp only [pos] at ran
    cases ran
    simp only [checkRollback]
    split <;> exact .of_quiet (.of_same le_rfl rfl rfl) rfl trivial rfl rfl
  | rollbackLoop loop =>
    simp only [pos] at ran
    split at ran
    · split at ran
      · cases ran
        exact .of_panic (pos ▸ trivial)
      split at ran <;> cases ran
      · refine .of_quiet (.of_same le_rfl rfl rfl) rfl ?_ rfl rfl
        rintro other phys ⟨⟩
        rfl
      · exact .of_quiet (.of_same le_rfl rfl rfl) rfl trivial rfl rfl
    · cases ran
      exact .of_quiet (.of_same le_rfl rfl rfl) rfl trivial rfl rfl
  | freeing loop phys outcome =>
    simp only [pos] at ran ok settled
    split at ran <;> cases ran
    · exact .of_panic (pos ▸ ok)
    obtain ⟨epoch, rfl⟩ := ne_none_iff_exists'.mp settled
    refine ⟨⟨_, rfl, trivial⟩, .of_same le_rfl rfl rfl, fun _ mem => .inl mem,
      fun frame change mem => ?_⟩
    rcases mem_cons.mp mem with new | older
    · cases new
      exact .inr (ok epoch rfl)
    · exact .inl older

theorem shootdownInv_step (inv : ShootdownInv home before) {action : Action Cpu Thread}
    (settled : Settled home before action) (ran : step root home before action = some after) :
    ShootdownInv home after := by
  simp only [step] at ran
  split at ran
  · cases ran
  cases action with
  | call t call =>
    obtain ⟨-, ⟨⟩⟩ := ite_none_right_eq_some.mp ran
    have advanced : Advanced (home t) t before
        (before.setPhase t (.entering call .caller)) :=
      .of_quiet (.of_same le_rfl rfl rfl) rfl (show FromLoop call .caller from nofun) rfl rfl
    exact advanced.inv inv
  | rollback t checkpoint =>
    obtain ⟨-, ⟨⟩⟩ := ite_none_right_eq_some.mp ran
    have advanced : Advanced (home t) t before
        (before.setPhase t (.rollbackEntering checkpoint)) :=
      .of_quiet (.of_same le_rfl rfl rfl) rfl trivial rfl rfl
    exact advanced.inv inv
  | advance t answers =>
    obtain ⟨-, ran⟩ := ite_none_right_eq_some.mp ran
    exact (advance_advanced (inv.phases t) (settled t rfl) ran).inv inv
  | disable t | enable t =>
    obtain ⟨-, ⟨⟩⟩ := ite_none_right_eq_some.mp ran
    exact inv.of_ages (.of_same le_rfl rfl rfl) rfl rfl rfl
  | fill cpu vaddr =>
    simp only [map_eq_some_iff] at ran
    obtain ⟨translation, _, rfl⟩ := ran
    exact inv.of_ages (ages_fill vaddr translation) rfl rfl rfl
  | handle cpu =>
    obtain ⟨-, ⟨⟩⟩ := ite_none_right_eq_some.mp ran
    exact inv.of_ages ages_handle rfl rfl rfl

/-- When the interrupts of a shootdown are handled before the call returns, no processor uses an
entry that a returned call has replaced, or reaches a released frame. -/
theorem shotDown_of_settled
    (reached : (system root home).ReachableWhere (Settled home) s) : ShotDown s := by
  have inv := reached.invariant (fun _ => shootdownInv_initial)
      fun _ _ _ _ holds settled ran => shootdownInv_step holds settled ran
  exact ⟨fun change mem => (inv.returned change mem).2,
    fun frame change mem => (inv.released frame change mem).2⟩

def moduleMachine : Machine :=
  match vmmMap 1 0x12345000 0x5000 (ptePresent ||| pteWritable)
    ⟨fun _ _ => 0, fun frame => frame ∈ [1, 5], [2, 3, 4]⟩ with
  | .ok (_, m) => m
  | .error _ => ⟨fun _ _ => 0, fun _ => false, []⟩

def loadedState : State (Fin 2) (Fin 2) where
  machine := moduleMachine
  region := ⟨0x12345000, 0x12346000, 0x12346000⟩
  epoch := 0
  tlb := fun _ => []
  pending := fun _ => false
  masked := fun _ => none
  vmmLock := none
  moduleLock := none
  phase := fun _ => .idle
  returned := []
  released := []
  panicked := false

theorem initial_loadedState : (system 1 id).initial loadedState :=
  ⟨fun _ => rfl, ⟨rfl, rfl⟩, fun _ => rfl, nofun, rfl, rfl, rfl⟩

/-- Processor 1 uses the page.  Thread 0 rolls the region back, up to the
broadcast of the interrupt. -/
def untilBroadcast : List (Action (Fin 2) (Fin 2)) :=
  [.fill 1 0x12345678, .rollback 0 ⟨0x12345000, 0x12345000⟩] ++ List.replicate 10 (.advance 0 [])

/-- Processor 1 handles the interrupt before `vmm_unmap` returns. -/
def orderly : List (Action (Fin 2) (Fin 2)) :=
  untilBroadcast ++ [.handle 1] ++ List.replicate 2 (.advance 0 [])

def orderlyRun : (system 1 (id : Fin 2 → Fin 2)).Execution orderly.length :=
  TransitionSystem.executionOf _ initial_loadedState orderly (.handle 1) (by decide +kernel)

theorem shotDown_of_settled_orderlyRun :
    (orderlyRun.states 15).released = [(5, ⟨pageOf 0x12345000, 1⟩)] ∧
      ShotDown (orderlyRun.states 15) := by
  have settled : ∀ i < orderly.length,
      Settled id (orderlyRun.states i) (orderlyRun.actions i) := by
    decide +kernel
  exact ⟨by decide +kernel, shotDown_of_settled (orderlyRun.reachableWhere settled 15 (by decide))⟩

/-- The frame is released while processor 1 still translates the page to it. -/
def staleState : State (Fin 2) (Fin 2) :=
  ((system 1 id).run loadedState
    (untilBroadcast ++ List.replicate 2 (.advance 0 []))).getD loadedState

theorem staleState_not_shotDown : (system 1 id).Reachable staleState ∧ ¬ ShotDown staleState ∧
      staleState.released = [(5, ⟨pageOf 0x12345000, 1⟩)] ∧ staleState.machine.allocated 5 = false ∧
      (staleState.tlb 1).map (fun cached => (cached.page, cached.translation.frame)) =
        [(pageOf 0x12345000, 5)] := by
  refine ⟨TransitionSystem.Reachable.getD_run (.start initial_loadedState) _, fun shotDown => ?_,
    by decide +kernel, by decide +kernel, by decide +kernel⟩
  have logged : (5, ⟨pageOf 0x12345000, 1⟩) ∈ staleState.released := by decide +kernel
  have stale : ∃ cached ∈ staleState.tlb 1, cached.page = pageOf 0x12345000 ∧ cached.epoch = 0 := by
    decide +kernel
  obtain ⟨cached, mem, samePage, old⟩ := stale
  have newer : 1 ≤ cached.epoch := shotDown.released 5 _ logged 1 cached mem samePage
  omega

end LaOS.Tlb
