import LaOS.RootSwitchCalls
import LaOS.RootSwitchNesting

/-!
# No CPU runs on a destroyed address space

A root that a CPU has loaded is the root of the kernel, or that of a thread of its
own that has not exited, unless the CPU is still on that thread.
-/

namespace LaOS.RootSwitch

open Option Function
open Runqueue (Config Context Kind Pc)

variable {Cpu Agent Thread Root : Type} {cfg : Config Cpu Thread} {kernelRoot : Root}
  {s : State Cpu Agent Thread Root} {loaded : Cpu → Option Thread} {cpu : Cpu} {t : Thread}

/-- A root has one owner until it is freed, and idle threads have none. -/
structure Owned (cfg : Config Cpu Thread) (kernelRoot : Root)
    (s : State Cpu Agent Thread Root) : Prop where
  kernel : s.taken kernelRoot = true
  apart : ∀ t, s.root t ≠ some kernelRoot
  idle : ∀ cpu, s.root (cfg.idle cpu) = none
  taken : ∀ t root, s.root t = some root → s.freed t = false →
    s.taken root = true
  unique : ∀ t other root, s.root t = some root → s.root other = some root →
    s.freed t = false → s.freed other = false → t = other
  begun : ∀ t, s.freed t = true → s.destroying t = true

def notesOf (s : State Cpu Agent Thread Root) (loaded : Cpu → Option Thread) :
    Notes Cpu Thread :=
  ⟨s.outer, loaded, s.switched, s.destroying⟩

/-- A CPU has loaded the root of the kernel, or that of the thread that `loaded` says. -/
structure RootInv (cfg : Config Cpu Thread) (kernelRoot : Root)
    (s : State Cpu Agent Thread Root) (loaded : Cpu → Option Thread) : Prop where
  inv : Inv cfg s.sched (notesOf s loaded)
  owned : Owned cfg kernelRoot s
  active : ∀ cpu root, s.active cpu = some root → root = kernelRoot ∨
    ∃ t ∈ loaded cpu, s.root t = some root ∧ s.destroying t = false

theorem Inv.renote {sched : Runqueue.State Cpu Agent Thread} {notes renoted : Notes Cpu Thread}
    (inv : Inv cfg sched notes) (outer : renoted.outer = notes.outer)
    (loaded : ∀ cpu, ∀ t ∈ renoted.loaded cpu,
      LoadedOk cfg sched (renoted.switched cpu) cpu t)
    (switched : ∀ cpu, renoted.switched cpu = true → ∃ next, sched.pc (.cpu cpu) = .setCurrent next)
    (gone : ∀ t, renoted.destroying t = true →
      sched.status t = .zombie ∨ sched.node t = .fresh) : Inv cfg sched renoted := by
  refine ⟨inv.links, ?_, ?_, inv.agents, loaded, switched, gone⟩
  · rw [outer]
    exact inv.suspended
  · rw [outer]
    exact inv.cpus

theorem RootInv.promoted (inv : RootInv cfg kernelRoot s loaded) {next : Thread}
    {root : Root}
    (claim : Claim cfg s.sched cpu next) (isRoot : s.root next = some root) :
    Promoted cfg s.sched cpu next := by
  rcases claim with rfl | promoted
  · rw [inv.owned.idle] at isRoot
    cases isRoot
  · exact promoted

theorem linked_of_zombieTail {sched : Runqueue.State Cpu Agent Thread}
    (isTail : zombieTail sched cpu = some t) : (sched.queue (.zombie, cpu)).Linked t := by
  obtain ⟨-, isTail⟩ := ite_none_left_eq_some.mp isTail
  obtain ⟨rank, -, isLast⟩ := bind_eq_some_iff.mp isTail
  exact ⟨rank, List.mem_of_getLast? isLast⟩

section

variable (inv : RootInv cfg kernelRoot s loaded)

include inv

theorem RootInv.not_loaded (exited : s.sched.status t = .zombie)
    (atHome : cfg.home t = cpu)
    (idles : s.sched.current cpu = cfg.idle cpu) (other : Cpu) : t ∉ loaded other := by
  intro isLoaded
  obtain ⟨⟨home, -⟩, living | ⟨isCurrent, -⟩⟩ := inv.inv.loaded other t isLoaded
  · exact living exited
  rw [← home, atHome, idles] at isCurrent
  refine inv.inv.links.idle cpu ?_
  rw [← isCurrent]
  exact exited

theorem RootInv.not_loaded_of_fresh (fresh : s.sched.node t = .fresh)
    (cpu : Cpu) : t ∉ loaded cpu := by
  intro isLoaded
  have admitted := (inv.inv.loaded cpu t isLoaded).1.2
  rw [fresh] at admitted
  cases admitted

theorem RootInv.of_sched {sched : Runqueue.State Cpu Agent Thread} (kept : Inv cfg sched
    (notesOf s loaded)) : RootInv cfg kernelRoot { s with sched } loaded :=
  ⟨kept, { inv.owned with }, inv.active⟩

end

theorem outside_of_mayTake {action : Runqueue.Action Cpu Agent Thread}
    (allowed : mayTake s action = true) (acts : actsOn action = some cpu) :
    s.outer (s.sched.current cpu) = [] := by
  cases action with
  | callSchedule _ | block _ | sleep _ _ | exit _ | reap _ =>
    cases acts
    exact List.isEmpty_iff.mp allowed
  | _ => cases acts

variable [DecidableEq Thread]

/-- `thread_destroy` begins on a thread that has exited or was never enqueued, and
whose root is loaded nowhere. -/
theorem RootInv.beginDestroy (inv : RootInv cfg kernelRoot s loaded)
    (gone : s.sched.status t = .zombie ∨ s.sched.node t = .fresh)
    (notLoaded : ∀ cpu, t ∉ loaded cpu) :
    RootInv cfg kernelRoot (beginDestroy s t) loaded := by
  have stored : update s.destroying t true t = true := update_self ..
  have kept : ∀ other, other ≠ t →
      update s.destroying t true other = s.destroying other :=
    fun other ne => update_of_ne ne ..
  refine ⟨inv.inv.renote rfl inv.inv.loaded inv.inv.switched ?_, ?_, ?_⟩
  · intro other destroying
    by_cases same : other = t
    · rw [same]
      exact gone
    · exact inv.inv.gone other ((kept other same).symm.trans destroying)
  · refine { inv.owned with begun := fun other freed => ?_ }
    by_cases same : other = t
    · rw [same]
      exact stored
    · exact (kept other same).trans (inv.owned.begun other freed)
  · intro cpu root isActive
    refine (inv.active cpu root isActive).imp_right ?_
    rintro ⟨owner, isLoaded, isRoot, living⟩
    refine ⟨owner, isLoaded, isRoot, (kept owner ?_).trans living⟩
    rintro rfl
    exact notLoaded cpu isLoaded

variable [DecidableEq Cpu]

def loadedBy (s : State Cpu Agent Thread Root) (loaded : Cpu → Option Thread) (cpu : Cpu)
    (next : Thread) : Option Thread :=
  if (s.root next).isSome then some next
  else if s.sched.status (s.sched.current cpu) = .zombie then none
  else loaded cpu

omit [DecidableEq Thread] in
theorem RootInv.loads (inv : RootInv cfg kernelRoot s loaded) {next : Thread}
    (pcAt : s.sched.pc (.cpu cpu) = .setCurrent next) :
    RootInv cfg kernelRoot (switchMm kernelRoot s cpu next)
      (update loaded cpu (loadedBy s loaded cpu next)) := by
  obtain ⟨-, claim, -, -⟩ : CpuOk cfg s.sched s.outer cpu (.setCurrent next) :=
    pcAt ▸ inv.inv.cpus cpu
  refine ⟨inv.inv.renote rfl ?_ ?_ inv.inv.gone, { inv.owned with }, ?_⟩
  · intro other t isLoaded
    by_cases same : other = cpu
    · subst same
      change t ∈ update loaded other (loadedBy s loaded other next) other
        at isLoaded
      rw [update_self] at isLoaded
      unfold loadedBy at isLoaded
      split at isLoaded
      next hasRoot =>
        cases isLoaded
        obtain ⟨root, isRoot⟩ := isSome_iff_exists.mp hasRoot
        have promoted := inv.promoted claim isRoot
        refine ⟨promoted.1, .inl ?_⟩
        rw [promoted.2.1]
        exact nofun
      next =>
        obtain ⟨alive, isLoaded⟩ := ite_none_left_eq_some.mp isLoaded
        have before := inv.inv.loaded other t isLoaded
        refine ⟨before.1, .inl (before.2.elim id ?_)⟩
        rintro ⟨rfl, -⟩
        exact alive
    · change t ∈ update loaded cpu (loadedBy s loaded cpu next) other at isLoaded
      rw [update_of_ne same] at isLoaded
      change LoadedOk cfg s.sched (update s.switched cpu true other) other t
      rw [update_of_ne same]
      exact inv.inv.loaded other t isLoaded
  · intro other isSwitched
    by_cases same : other = cpu
    · exact ⟨next, same ▸ pcAt⟩
    · exact inv.inv.switched other ((update_of_ne same ..).symm.trans isSwitched)
  · intro other root isActive
    by_cases same : other = cpu
    · subst same
      change update s.active other _ other = some root at isActive
      rw [update_self] at isActive
      rw [update_self]
      unfold loadedBy
      cases isRoot : s.root next with
      | some own =>
        rw [isRoot] at isActive
        cases isActive
        have promoted := inv.promoted claim isRoot
        refine .inr ⟨next, rfl, isRoot, ?_⟩
        refine Bool.eq_false_iff.mpr fun destroying => ?_
        rcases inv.inv.gone next destroying with exited | fresh
        · cases promoted.2.1.symm.trans exited
        · have admitted := promoted.1.2
          rw [fresh] at admitted
          cases admitted
      | none =>
        rw [isRoot] at isActive
        simp only [isSome_none, Bool.false_eq_true, if_false] at isActive ⊢
        split at isActive
        next => exact .inl (some.inj isActive).symm
        next alive =>
          rw [if_neg alive]
          exact inv.active other root isActive
    · rw [update_of_ne same]
      exact inv.active other root ((update_of_ne same ..).symm.trans isActive)

variable [DecidableEq Root]

omit [DecidableEq Cpu] in
theorem RootInv.createUser (inv : RootInv cfg kernelRoot s loaded) {root : Root}
    (fresh : s.sched.node t = .fresh) (notIdle : t ≠ cfg.idle (cfg.home t))
    (isFree : s.taken root = false) : RootInv cfg kernelRoot { s with
      root := update s.root t (some root)
      taken := update s.taken root true } loaded := by
  have notKernel : root ≠ kernelRoot := by
    rintro rfl
    cases isFree.symm.trans inv.owned.kernel
  have stored : update s.root t (some root) t = some root := update_self ..
  have kept : ∀ other, other ≠ t →
      update s.root t (some root) other = s.root other :=
    fun other ne => update_of_ne ne ..
  have takenNow : ∀ other, s.taken other = true →
      update s.taken root true other = true := by
    intro other wasTaken
    by_cases same : other = root
    · rw [same]
      exact update_self ..
    · rwa [update_of_ne same]
  have unowned : ∀ other, s.root other = some root → s.freed other ≠ false := by
    intro other isRoot notFreed
    cases isFree.symm.trans (inv.owned.taken other root isRoot notFreed)
  refine ⟨inv.inv, ⟨takenNow _ inv.owned.kernel, ?_, ?_, ?_, ?_, inv.owned.begun⟩, ?_⟩
  · intro other isKernel
    by_cases same : other = t
    · subst same
      exact notKernel (some.inj (stored.symm.trans isKernel))
    · exact inv.owned.apart other ((kept other same).symm.trans isKernel)
  · intro cpu
    refine (kept _ fun same => notIdle ?_).trans (inv.owned.idle cpu)
    rw [← same, cfg.home_idle]
  · intro other own isRoot notFreed
    by_cases same : other = t
    · subst same
      cases stored.symm.trans isRoot
      exact update_self ..
    · exact takenNow own (inv.owned.taken other own ((kept other same).symm.trans isRoot) notFreed)
  · intro first second own firstRoot secondRoot firstKept secondKept
    by_cases isFirst : first = t
    · by_cases isSecond : second = t
      · rw [isFirst, isSecond]
      · subst isFirst
        cases stored.symm.trans firstRoot
        exact absurd secondKept (unowned second ((kept second isSecond).symm.trans secondRoot))
    by_cases isSecond : second = t
    · subst isSecond
      cases stored.symm.trans secondRoot
      exact absurd firstKept (unowned first ((kept first isFirst).symm.trans firstRoot))
    · exact inv.owned.unique first second own ((kept first isFirst).symm.trans firstRoot)
        ((kept second isSecond).symm.trans secondRoot) firstKept secondKept
  · intro cpu own isActive
    refine (inv.active cpu own isActive).imp_right ?_
    rintro ⟨owner, isLoaded, isRoot, notBegun⟩
    refine ⟨owner, isLoaded, (kept owner ?_).trans isRoot, notBegun⟩
    rintro rfl
    exact inv.not_loaded_of_fresh fresh cpu isLoaded

omit [DecidableEq Cpu] in
theorem RootInv.freeRoot (inv : RootInv cfg kernelRoot s loaded) {root : Root}
    (isRoot : s.root t = some root) (begun : s.destroying t = true)
    (notFreed : s.freed t = false) : RootInv cfg kernelRoot { s with
      freed := update s.freed t true
      taken := update s.taken root false } loaded := by
  have notKernel : kernelRoot ≠ root := by
    rintro rfl
    exact inv.owned.apart t isRoot
  have unfreed : ∀ other, update s.freed t true other = false →
      other ≠ t ∧ s.freed other = false := by
    intro other kept
    have ne : other ≠ t := by
      rintro rfl
      rw [update_self] at kept
      cases kept
    rw [update_of_ne ne] at kept
    exact ⟨ne, kept⟩
  refine ⟨inv.inv, ⟨?_, inv.owned.apart, inv.owned.idle, ?_, ?_, ?_⟩, inv.active⟩
  · exact (update_of_ne notKernel ..).trans inv.owned.kernel
  · intro other own otherRoot kept
    obtain ⟨ne, otherKept⟩ := unfreed other kept
    refine (update_of_ne ?_ ..).trans (inv.owned.taken other own otherRoot otherKept)
    rintro rfl
    exact ne (inv.owned.unique other t own otherRoot isRoot otherKept notFreed)
  · exact fun first second own firstRoot secondRoot firstKept secondKept =>
      inv.owned.unique first second own firstRoot secondRoot (unfreed first firstKept).2
        (unfreed second secondKept).2
  · intro other freed
    by_cases same : other = t
    · rw [same]
      exact begun
    · exact inv.owned.begun other ((update_of_ne same ..).symm.trans freed)

variable [DecidableEq Agent]

omit [DecidableEq Root] in
theorem fresh_of_isNew (isNew : isNew cfg s t = true) :
    s.sched.node t = .fresh ∧ t ≠ cfg.idle (cfg.home t) := by
  have parts := of_decide_eq_true isNew
  exact ⟨parts.1, parts.2.2⟩

theorem idle_of_reap {sched after : Runqueue.State Cpu Agent Thread}
    (taken : Runqueue.step cfg sched (.reap cpu) = some after) :
    sched.current cpu = cfg.idle cpu ∧ after.status = sched.status := by
  obtain ⟨-, taken⟩ := ite_none_left_eq_some.mp taken
  obtain ⟨-, taken⟩ := ite_none_right_eq_some.mp taken
  obtain ⟨idles, taken⟩ := ite_none_right_eq_some.mp taken
  refine ⟨idles, ?_⟩
  obtain ⟨-, taken⟩ := ite_none_left_eq_some.mp taken
  split at taken
  next =>
    cases taken
    rfl
  next =>
    split at taken
    next =>
      cases taken
      rfl
    next =>
      split at taken <;> cases taken
      · rfl
      · rfl

theorem step_setCurrent {sched after : Runqueue.State Cpu Agent Thread} {next : Thread}
    (pcAt : sched.pc (.cpu cpu) = .setCurrent next)
    (taken : Runqueue.step cfg sched (.exec (.cpu cpu)) = some after) :
    after = { sched with current := update sched.current cpu next }.goto (.cpu cpu)
      .idle := by
  simp only [Runqueue.step, Runqueue.exec, pcAt, Runqueue.execZombie, Runqueue.execPick,
    none_or] at taken
  obtain ⟨-, taken⟩ := ite_none_left_eq_some.mp taken
  exact (some.inj taken).symm

section

variable (inv : RootInv cfg kernelRoot s loaded)

include inv

omit [DecidableEq Root] in
theorem RootInv.execCpu {sched : Runqueue.State Cpu Agent Thread}
    (allowed : mayTake s (.exec (.cpu cpu)) = true)
    (taken : Runqueue.step cfg s.sched (.exec (.cpu cpu)) = some sched) :
    RootInv cfg kernelRoot (afterSched s sched (.exec (.cpu cpu))) loaded := by
  refine ⟨?_, { inv.owned with }, inv.active⟩
  by_cases isAt : ∃ next, s.sched.pc (.cpu cpu) = .setCurrent next
  · obtain ⟨next, pcAt⟩ := isAt
    rw [mayTake, pcAt] at allowed
    rw [step_setCurrent pcAt taken]
    exact inv.inv.setCurrent allowed pcAt
  have notAt : ∀ next, s.sched.pc (.cpu cpu) ≠ .setCurrent next :=
    fun next pcAt => isAt ⟨next, pcAt⟩
  have unswitched : s.switched cpu = false := inv.inv.unswitched notAt
  have same : update s.switched cpu false = s.switched := by
    rw [← unswitched]
    exact update_eq_self cpu s.switched
  have kept : Inv cfg sched (notesOf s loaded) := by
    refine inv.inv.step ?_ ?_ ?_ taken
    · intro other acts
      cases acts
    · intro other moves
      cases moves
      exact notAt
    · intro agent t atTail moves
      cases moves
  refine kept.renote rfl ?_ ?_ kept.gone
  · change ∀ other, ∀ t ∈ loaded other, LoadedOk cfg sched
      (update s.switched cpu false other) other t
    rw [same]
    exact kept.loaded
  · change ∀ other, update s.switched cpu false other = true → _
    rw [same]
    exact kept.switched

omit [DecidableEq Root] in
theorem RootInv.kept {sched : Runqueue.State Cpu Agent Thread}
    {action : Runqueue.Action Cpu Agent Thread}
    (notExec : ∀ cpu, action ≠ .exec (.cpu cpu)) (allowed : mayTake s action = true)
    (taken : Runqueue.step cfg s.sched action = some sched) :
    RootInv cfg kernelRoot { s with sched } loaded := by
  refine inv.of_sched (inv.inv.step ?_ ?_ ?_ taken)
  · exact fun cpu acts => outside_of_mayTake allowed acts
  · exact fun cpu isExec => absurd isExec (notExec cpu)
  · rintro agent t atTail rfl
    exact (Bool.not_eq_true' _).mp allowed

omit [DecidableEq Root] in
theorem RootInv.sched {sched : Runqueue.State Cpu Agent Thread}
    {action : Runqueue.Action Cpu Agent Thread} (allowed : mayTake s action = true)
    (taken : Runqueue.step cfg s.sched action = some sched) :
    RootInv cfg kernelRoot (afterSched s sched action) loaded := by
  cases action with
  | exec ctx =>
    cases ctx with
    | cpu cpu => exact inv.execCpu allowed taken
    | agent agent => exact inv.kept (fun cpu isExec => by cases isExec) allowed taken
  | reap cpu =>
    have kept := inv.kept (fun cpu isExec => by cases isExec) allowed taken
    obtain ⟨idles, statuses⟩ := idle_of_reap taken
    simp only [afterSched]
    split
    next t isTail =>
      have linked := linked_of_zombieTail isTail
      have exited := inv.inv.links.zombies cpu t linked
      have atHome := (inv.inv.links.linked .zombie cpu t linked).1
      refine kept.beginDestroy (.inl ?_) (inv.not_loaded exited atHome idles)
      exact (congrFun statuses t).trans exited
    next => exact kept
  | _ => exact inv.kept (fun cpu isExec => by cases isExec) allowed taken

theorem RootInv.step {action : Action Cpu Agent Thread Root} {after : State Cpu Agent Thread Root}
    (taken : RootSwitch.step cfg kernelRoot s action = some after) :
    ∃ loaded, RootInv cfg kernelRoot after loaded := by
  cases action with
  | sched action =>
    obtain ⟨allowed, taken⟩ := ite_none_right_eq_some.mp taken
    obtain ⟨sched, moved, rfl⟩ := map_eq_some_iff.mp taken
    exact ⟨loaded, inv.sched allowed moved⟩
  | switchMm cpu =>
    simp only [RootSwitch.step] at taken
    split at taken
    next next pcAt =>
      obtain ⟨-, ⟨⟩⟩ := ite_none_left_eq_some.mp taken
      exact ⟨_, inv.loads pcAt⟩
    next => cases taken
  | interrupt cpu =>
    simp only [RootSwitch.step] at taken
    split at taken
    next next pcAt =>
      obtain ⟨unswitched, ⟨⟩⟩ := ite_none_left_eq_some.mp taken
      exact ⟨loaded, inv.inv.interrupt (Bool.eq_false_iff.mpr unswitched) pcAt,
        { inv.owned with }, inv.active⟩
    next => cases taken
  | resume cpu =>
    simp only [RootSwitch.step] at taken
    split at taken <;> cases taken
    next next rest pcAt isOuter =>
      exact ⟨loaded, inv.inv.resume pcAt isOuter, { inv.owned with }, inv.active⟩
  | createUser t root =>
    obtain ⟨enabled, ⟨⟩⟩ := ite_none_right_eq_some.mp taken
    obtain ⟨fresh, notIdle⟩ := fresh_of_isNew enabled.1
    exact ⟨loaded, inv.createUser fresh notIdle enabled.2.2.2⟩
  | discard t =>
    obtain ⟨isNew, ⟨⟩⟩ := ite_none_right_eq_some.mp taken
    have fresh := (fresh_of_isNew isNew).1
    exact ⟨loaded, inv.beginDestroy (.inr fresh) (inv.not_loaded_of_fresh fresh)⟩
  | freeRoot t =>
    simp only [RootSwitch.step] at taken
    split at taken
    next root isRoot =>
      obtain ⟨enabled, ⟨⟩⟩ := ite_none_right_eq_some.mp taken
      exact ⟨loaded, inv.freeRoot isRoot enabled.1 enabled.2⟩
    next => cases taken

end

omit [DecidableEq Thread] [DecidableEq Cpu] [DecidableEq Agent] in
theorem rootInv_bootState {boot : Cpu → Thread} (homed : ∀ cpu, cfg.home (boot cpu) = cpu)
    (priority : Thread → Sched.Priority) :
    RootInv cfg kernelRoot (bootState kernelRoot boot priority : State Cpu Agent Thread Root)
      fun _ => none := by
  refine ⟨⟨⟨homed, nofun, nofun, ?_, ?_⟩, ⟨nofun, nofun, nofun, fun _ => .nil, nofun⟩,
    fun _ => trivial, fun _ => trivial, nofun, nofun, nofun⟩, ?_, nofun⟩
  · rintro kind cpu t ⟨rank, isIn⟩
    cases isIn
  · rintro cpu t ⟨rank, isIn⟩
    cases isIn
  · refine ⟨?_, nofun, fun _ => rfl, nofun, nofun, nofun⟩
    exact decide_eq_true rfl

/-- The invariant, with some thread whose root each CPU has loaded. -/
def Rooted (cfg : Config Cpu Thread) (kernelRoot : Root) (s : State Cpu Agent Thread Root) :
    Prop :=
  ∃ loaded, RootInv cfg kernelRoot s loaded

theorem rooted_of_reachable (reached : (system cfg kernelRoot).Reachable s) :
    Rooted cfg kernelRoot s := by
  refine reached.invariant ?_ ?_
  · rintro first ⟨boot, priority, homed, -, rfl⟩
    exact ⟨_, rootInv_bootState homed priority⟩
  · rintro before action after - ⟨loaded, inv⟩ taken
    exact inv.step taken

/-- A CPU whose active root is that of a thread for which `thread_destroy` has begun is on a
root that was given to another thread, for which it has not. -/
theorem active_root_not_destroyed (reached : (system cfg kernelRoot).Reachable s)
    {root : Root} (isRoot : s.root t = some root)
    (begun : s.destroying t = true) (cpu : Cpu) :
    (s.freed t = false → s.active cpu ≠ some root) ∧ (s.active cpu = some root →
        ∃ other, s.root other = some root ∧ s.destroying other = false) := by
  obtain ⟨loaded, inv⟩ := rooted_of_reachable reached
  have owner : s.active cpu = some root →
      ∃ other, s.root other = some root ∧ s.destroying other = false := by
    intro isActive
    rcases inv.active cpu root isActive with rfl | ⟨other, -, otherRoot, living⟩
    · exact absurd isRoot (inv.owned.apart t)
    · exact ⟨other, otherRoot, living⟩
  refine ⟨fun notFreed isActive => ?_, owner⟩
  obtain ⟨other, otherRoot, living⟩ := owner isActive
  have otherKept : s.freed other = false := by
    refine Bool.eq_false_iff.mpr fun freed => ?_
    cases living.symm.trans (inv.owned.begun other freed)
  rw [inv.owned.unique other t root otherRoot isRoot otherKept notFreed] at living
  cases living.symm.trans begun

def oneCpu : Config (Fin 1) (Fin 3) where
  home _ := 0
  idle _ := 2
  home_idle := by decide

def oneCpuBoot : State (Fin 1) (Fin 1) (Fin 3) (Fin 2) :=
  bootState 0 (fun _ => 0) fun _ => 32

theorem reachable_oneCpuBoot : (system oneCpu 0).Reachable oneCpuBoot :=
  .start ⟨_, _, by decide, by decide, rfl⟩

/-- User thread 1 gets root 1, is enqueued and switched to, and exits; the idle
thread takes it from the zombie queue. -/
def userExit : List (Action (Fin 1) (Fin 1) (Fin 3) (Fin 2)) :=
  [.createUser 1 1, .sched (.callEnqueue 0 1 true)] ++
    List.replicate 3 (.sched (.exec (.agent 0))) ++ [.sched (.callSchedule 0)] ++
    List.replicate 11 (.sched (.exec (.cpu 0))) ++
    [.switchMm 0, .sched (.exec (.cpu 0)), .sched (.exit 0), .sched (.callSchedule 0)] ++
    List.replicate 6 (.sched (.exec (.cpu 0))) ++
    [.switchMm 0, .sched (.exec (.cpu 0)), .sched (.reap 0)]

def afterUserExit : State (Fin 1) (Fin 1) (Fin 3) (Fin 2) :=
  ((system oneCpu 0).run oneCpuBoot userExit).getD oneCpuBoot

theorem active_root_not_destroyed_userExit :
    afterUserExit.root 1 = some 1 ∧ afterUserExit.destroying 1 = true ∧
      afterUserExit.active 0 ≠ some 1 := by
  have isRoot : afterUserExit.root 1 = some 1 := by decide +kernel
  have begun : afterUserExit.destroying 1 = true := by decide +kernel
  have notFreed : afterUserExit.freed 1 = false := by decide +kernel
  have reached : (system oneCpu 0).Reachable afterUserExit :=
    TransitionSystem.Reachable.getD_run reachable_oneCpuBoot _
  exact ⟨isRoot, begun, (active_root_not_destroyed reached isRoot begun 0).1 notFreed⟩

end LaOS.RootSwitch
