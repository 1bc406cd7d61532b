import LaOS.GuardedRecord
import LaOS.RunqueueMachine

/-!
# What the queue sections rely on

A queue is proper while its lock is free; inside a section only the thread in hand keeps
it from being proper.
-/

namespace LaOS.Runqueue

open Function
open Sched (Priority RunQueue Status)

variable {Cpu Agent Thread : Type}

/-- Which lock of its own CPU a position of `__schedule` holds. -/
def Pc.cpuSection : Pc Thread → Option Kind
  | .unlinkClear _ | .scanRank _ | .scan _ _ _ | .scanSleeper _ _ _ _ | .keepPrev _
  | .rotate _ _ | .rotateLink _ _ | .setNext _ | .setPrev _ => some .run
  | .zombieFlag _ => some .zombie
  | _ => none

/-- The thread whose CPU's `runqueue.lock` a caller holds. -/
def Pc.agentSection : Pc Thread → Option Thread
  | .enqueueLink t _ _ | .move t _ _ | .storeLocked t _ => some t
  | _ => none

def Pc.piSection : Pc Thread → Option Thread
  | .update t _ | .apply t _ | .store t _ | .lockRun t _ _
  | .move t _ _ | .storeLocked t _ | .piUnlock t => some t
  | _ => none

/-- The thread that a section has taken off its list, or is about to put on one. -/
def Pc.inHand : Pc Thread → Option Thread
  | .unlinkClear prev => some prev
  | .rotateLink next _ => some next
  | .enqueueLink t _ _ => some t
  | _ => none

def Config.section (cfg : Config Cpu Thread) : Context Cpu Agent → Pc Thread →
    Option (Kind × Cpu)
  | .cpu cpu, pc => pc.cpuSection.map (·, cpu)
  | .agent _, pc => pc.agentSection.map fun t => (.run, cfg.home t)

def position (cfg : Config Cpu Thread) (pc : Context Cpu Agent → Pc Thread)
    (ctx : Context Cpu Agent) : Option ((Kind × Cpu) × Pc Thread) :=
  (cfg.section ctx (pc ctx)).map (·, pc ctx)

variable {ctx : Context Cpu Agent}

theorem position_of (cfg : Config Cpu Thread) {s : State Cpu Agent Thread} {pc : Pc Thread}
    (pcAt : s.pc ctx = pc) :
    position cfg s.pc ctx = (cfg.section ctx pc).map (·, pc) := by
  rw [← pcAt]
  rfl

def piPosition (pc : Context Cpu Agent → Pc Thread) (ctx : Context Cpu Agent) :
    Option (Thread × Pc Thread) :=
  (pc ctx).piSection.map (·, pc ctx)

variable {key : Kind × Cpu}

theorem position_eq_some {cfg : Config Cpu Thread} {pc : Context Cpu Agent → Pc Thread}
    {at' : Pc Thread} (inside : position cfg pc ctx = some (key, at')) :
    pc ctx = at' ∧ cfg.section ctx at' = some key := by
  simp only [position, Option.map_eq_some_iff, Prod.mk.injEq] at inside
  obtain ⟨_, atKey, rfl, rfl⟩ := inside
  exact ⟨rfl, atKey⟩

variable {t : Thread}

theorem piPosition_eq_some {pc : Context Cpu Agent → Pc Thread} {at' : Pc Thread}
    (inside : piPosition pc ctx = some (t, at')) :
    pc ctx = at' ∧ at'.piSection = some t := by
  simp only [piPosition, Option.map_eq_some_iff, Prod.mk.injEq] at inside
  obtain ⟨_, atThread, rfl, rfl⟩ := inside
  exact ⟨rfl, atThread⟩

def SectionOk [DecidableEq Thread] (priority : Thread → Priority) (queue : RunQueue Thread) :
    Pc Thread → Prop
  | .unlinkClear prev => ∃ before : RunQueue Thread, before.Proper priority ∧
      before.Linked prev ∧ queue = before.erase prev
  | .zombieFlag prev => ∃ before : RunQueue Thread, before.Proper priority ∧
      ¬ before.Linked prev ∧ queue = before.pushFront (priority prev) prev
  | .rotateLink next rank => ∃ before : RunQueue Thread, before.Proper priority ∧
      before.Linked next ∧ priority next = rank ∧ queue = (before.erase next).clearIfEmpty rank
  | .enqueueLink t _ rank => queue.Proper priority ∧ priority t = rank
  | .scan rank _ rest => queue.Proper priority ∧ ∀ t ∈ rest, t ∈ queue.heads rank
  | .scanSleeper rank _ pos rest => queue.Proper priority ∧
      ∀ t ∈ pos :: rest, t ∈ queue.heads rank
  | .keepPrev (some (next, rank)) | .rotate next rank =>
    queue.Proper priority ∧ next ∈ queue.heads rank
  | _ => queue.Proper priority

def OldOk (priority : Thread → Priority) : Pc Thread → Prop
  | .lockRun t old _ | .move t old _ => old = priority t
  | _ => True

/-- The node is on a list, or a section of its CPU has it in hand. -/
def Node.held : Node Cpu Agent → Bool
  | .queued _ | .rotating | .leaving => true
  | _ => false

def Node.mortal : Node Cpu Agent → Bool
  | .queued _ | .leaving | .reaped => true
  | _ => false

def Node.departed : Node Cpu Agent → Bool
  | .queued .zombie | .leaving | .reaped => true
  | _ => false

/-- A CPU in `__schedule`.  `dead` are the threads that have exited. -/
def CpuOk (cfg : Config Cpu Thread) (dead : Thread → Prop) (node : Thread → Node Cpu Agent)
    (cpu : Cpu) (current : Thread) : Pc Thread → Prop
  | .idle | .zombieTest => dead current → node current = .queued .run
  | .unlink prev => cfg.home prev = cpu ∧ dead prev ∧ node prev = .queued .run
  | .unlinkClear prev | .zombieLink prev =>
    cfg.home prev = cpu ∧ dead prev ∧ node prev = .leaving
  | .zombieFlag prev => cfg.home prev = cpu ∧ dead prev ∧ node prev = .queued .zombie
  | .rotateLink next _ => cfg.home next = cpu ∧ ¬ dead next ∧ node next = .rotating
  | .keepPrev (some (next, _)) | .rotate next _ | .setNext next | .setPrev next
  | .setCurrent next => cfg.home next = cpu ∧ ¬ dead next
  | _ => True

def AgentOk (node : Thread → Node Cpu Agent) (agent : Agent) : Pc Thread → Prop
  | .enqueue t _ | .enqueueLock t _ | .enqueueLink t _ _ =>
    node t = .entering (.agent agent)
  | _ => True

def ContextOk (cfg : Config Cpu Thread) (dead : Thread → Prop)
    (node : Thread → Node Cpu Agent) (current : Cpu → Thread) : Context Cpu Agent → Pc Thread → Prop
  | .cpu cpu, pc => CpuOk cfg dead node cpu (current cpu) pc
  | .agent agent, pc => AgentOk node agent pc

/-- Where nodes are, as far as flows of control rely on it. -/
structure Stages (cfg : Config Cpu Thread) (dead : Thread → Prop)
    (node : Thread → Node Cpu Agent) (current : Cpu → Thread)
    (pc : Context Cpu Agent → Pc Thread) : Prop where
  homed : ∀ cpu, cfg.home (current cpu) = cpu
  idleAlive : ∀ cpu, ¬ dead (cfg.idle cpu)
  contexts : ∀ ctx, ContextOk cfg dead node current ctx (pc ctx)
  mortal : ∀ t, dead t → (node t).mortal = true

def State.dead (s : State Cpu Agent Thread) (t : Thread) : Prop :=
  s.status t = .zombie

/-- The queues while their locks are free, and inside the sections. -/
abbrev SectionsOk [DecidableEq Thread] (cfg : Config Cpu Thread) (priority : Thread → Priority)
    (pc : Context Cpu Agent → Pc Thread)
    (queues : Kind × Cpu → LockedQueue Cpu Agent Thread) : Prop :=
  Guarded LockedQueue.lock (fun _ fields => fields.queue.Proper priority)
    (fun _ _ fields pc => SectionOk priority fields.queue pc) (position cfg pc) queues

structure QueueInv [DecidableEq Thread] (cfg : Config Cpu Thread)
    (s : State Cpu Agent Thread) : Prop where
  stages : Stages cfg s.dead s.node s.current s.pc
  linked : ∀ key t, (s.queue key).Linked t ↔
    cfg.home t = key.2 ∧ s.node t = .queued key.1
  sections : Guarded LockedQueue.lock (fun _ fields => fields.queue.Proper s.priority)
    (fun _ _ fields pc => SectionOk s.priority fields.queue pc)
    (position cfg s.pc) s.queues
  pi : Guarded id (fun _ _ => True) (fun _ _ _ pc => OldOk s.priority pc)
    (piPosition s.pc) s.piLock

section Frames

variable {cfg : Config Cpu Thread} {dead dead' : Thread → Prop}
  {node node' : Thread → Node Cpu Agent} {current : Cpu → Thread}
  {pc : Context Cpu Agent → Pc Thread}

theorem CpuOk.frame {cpu : Cpu} {pc : Pc Thread}
    (ok : CpuOk cfg dead node cpu t pc) (homed : cfg.home t = cpu)
    (deadSame : ∀ other, cfg.home other = cpu → (dead' other ↔ dead other))
    (nodeKept : ∀ other, cfg.home other = cpu → (node other).held = true →
      node' other = node other) : CpuOk cfg dead' node' cpu t pc := by
  have kept : ∀ other stage, cfg.home other = cpu → stage.held = true → node other = stage →
      node' other = stage := by
    intro other stage atHome isHeld staged
    subst staged
    exact nodeKept other atHome isHeld
  cases pc with
  | idle | zombieTest =>
    intro isDead
    exact kept _ _ homed rfl (ok ((deadSame _ homed).mp isDead))
  | unlink prev | unlinkClear prev | zombieLink prev | zombieFlag prev =>
    obtain ⟨atHome, isDead, staged⟩ := ok
    exact ⟨atHome, (deadSame _ atHome).mpr isDead, kept _ _ atHome rfl staged⟩
  | rotateLink next rank =>
    obtain ⟨atHome, isAlive, staged⟩ := ok
    exact ⟨atHome, fun isDead => isAlive ((deadSame _ atHome).mp isDead),
      kept _ _ atHome rfl staged⟩
  | keepPrev found =>
    cases found with
    | none => trivial
    | some found => exact ⟨ok.1, fun isDead => ok.2 ((deadSame _ ok.1).mp isDead)⟩
  | rotate next _ | setNext next | setPrev next | setCurrent next =>
    exact ⟨ok.1, fun isDead => ok.2 ((deadSame _ ok.1).mp isDead)⟩
  | _ => trivial

theorem AgentOk.frame {agent : Agent} {pc : Pc Thread} (ok : AgentOk node agent pc)
    (nodeKept : ∀ other, node other = .entering (.agent agent) → node' other = node other) :
    AgentOk node' agent pc := by
  cases pc with
  | enqueue t _ | enqueueLock t _ | enqueueLink t _ _ =>
    exact (nodeKept t ok).trans ok
  | _ => trivial

variable [DecidableEq Cpu] [DecidableEq Agent]

theorem Stages.update (stages : Stages cfg dead node current pc) {next : Pc Thread}
    (ok : ContextOk cfg dead' node' current ctx next)
    (idleAlive : ∀ cpu, ¬ dead' (cfg.idle cpu))
    (mortal : ∀ t, dead' t → (node' t).mortal = true)
    (deadSame : ∀ t, .cpu (cfg.home t) ≠ ctx → (dead' t ↔ dead t))
    (nodeKept : ∀ t, .cpu (cfg.home t) ≠ ctx → (node t).held = true →
      node' t = node t)
    (enteringKept : ∀ t other, other ≠ ctx → node t = .entering other →
      node' t = node t) :
    Stages cfg dead' node' current (Function.update pc ctx next) := by
  refine ⟨stages.homed, idleAlive, ?_, mortal⟩
  intro other
  by_cases isSelf : other = ctx
  · subst isSelf
    rw [update_self]
    exact ok
  rw [update_of_ne isSelf]
  have before := stages.contexts other
  cases other with
  | cpu cpu =>
    refine CpuOk.frame before (stages.homed cpu) ?_ ?_
    · rintro t rfl
      exact deadSame t isSelf
    · rintro t rfl
      exact nodeKept t isSelf
  | agent agent => exact AgentOk.frame before fun t => enteringKept t _ isSelf

theorem Stages.goto (stages : Stages cfg dead node current pc) {next : Pc Thread}
    (ok : ContextOk cfg dead node current ctx next) :
    Stages cfg dead node current (Function.update pc ctx next) :=
  stages.update ok stages.idleAlive stages.mortal (fun _ _ => Iff.rfl) (fun _ _ _ => rfl)
    (fun _ _ _ _ => rfl)

variable [DecidableEq Thread] {subject : Thread} {stage : Node Cpu Agent} {next : Pc Thread}

theorem Stages.renode_cpu (stages : Stages cfg dead node current pc) {cpu : Cpu}
    (atHome : cfg.home subject = cpu) (settled : ∀ ctx, node subject ≠ .entering ctx)
    (ok : CpuOk cfg dead (Function.update node subject stage) cpu (current cpu) next)
    (mortal : dead subject → stage.mortal = true) :
    Stages cfg dead (Function.update node subject stage) current
      (Function.update pc (.cpu cpu) next) := by
  refine stages.update ok stages.idleAlive ?_ (fun _ _ => Iff.rfl) ?_ ?_
  · intro t isDead
    by_cases same : t = subject
    · subst same
      rw [update_self]
      exact mortal isDead
    · rw [update_of_ne same]
      exact stages.mortal t isDead
  · intro t elsewhere _
    refine update_of_ne ?_ ..
    rintro rfl
    exact elsewhere (congrArg Context.cpu atHome)
  · intro t other _ entering
    refine update_of_ne ?_ ..
    rintro rfl
    exact settled other entering

theorem Stages.renode_agent (stages : Stages cfg dead node current pc) {agent : Agent}
    (unheld : (node subject).held = false)
    (mine : ∀ ctx, node subject = .entering ctx → ctx = .agent agent)
    (ok : AgentOk (Function.update node subject stage) agent next) (alive : ¬ dead subject) :
    Stages cfg dead (Function.update node subject stage) current
      (Function.update pc (.agent agent) next) := by
  refine stages.update ok stages.idleAlive ?_ (fun _ _ => Iff.rfl) ?_ ?_
  · intro t isDead
    rw [update_of_ne]
    · exact stages.mortal t isDead
    · rintro rfl
      exact alive isDead
  · intro t _ isHeld
    refine update_of_ne ?_ ..
    rintro rfl
    rw [unheld] at isHeld
    cases isHeld
  · intro t other isOther entering
    refine update_of_ne ?_ ..
    rintro rfl
    exact isOther (mine other entering)

end Frames

section Updates

variable {cfg : Config Cpu Thread} {s : State Cpu Agent Thread}
  {queues : Kind × Cpu → LockedQueue Cpu Agent Thread} {node : Thread → Node Cpu Agent}
  {priority priority' : Thread → Priority} {queue : RunQueue Thread}

theorem SectionOk.reprioritize [DecidableEq Thread] {pc : Pc Thread}
    (ok : SectionOk priority queue pc)
    (linkedSame : ∀ t, queue.Linked t → priority' t = priority t)
    (handSame : ∀ t, pc.inHand = some t → priority' t = priority t) :
    SectionOk priority' queue pc := by
  cases pc with
  | unlinkClear prev =>
    obtain ⟨before, proper, linked, rfl⟩ := ok
    refine ⟨before, proper.congr fun t mem => ?_, linked, rfl⟩
    by_cases isPrev : t = prev
    · exact handSame t (congrArg some isPrev.symm)
    · exact linkedSame t ((Buckets.linked_erase_of_ne isPrev).mpr mem)
  | zombieFlag prev =>
    obtain ⟨before, proper, absent, rfl⟩ := ok
    have same := linkedSame prev (Buckets.linked_pushFront.mpr (.inl rfl))
    refine ⟨before, proper.congr fun t mem => ?_, absent, by rw [same]⟩
    exact linkedSame t (Buckets.linked_pushFront.mpr (.inr mem))
  | rotateLink next rank =>
    obtain ⟨before, proper, linked, ranked, rfl⟩ := ok
    refine ⟨before, proper.congr fun t mem => ?_, linked,
      (handSame next rfl).trans ranked, rfl⟩
    by_cases isNext : t = next
    · exact handSame t (congrArg some isNext.symm)
    · exact linkedSame t (Buckets.linked_clearIfEmpty.mpr
        ((Buckets.linked_erase_of_ne isNext).mpr mem))
  | enqueueLink t _ rank =>
    exact ⟨ok.1.congr linkedSame, (handSame t rfl).trans ok.2⟩
  | scan _ _ _ | scanSleeper _ _ _ _ | rotate _ _ => exact ⟨ok.1.congr linkedSame, ok.2⟩
  | keepPrev found =>
    cases found with
    | none => exact Buckets.Proper.congr ok linkedSame
    | some found => exact ⟨ok.1.congr linkedSame, ok.2⟩
  | _ => exact Buckets.Proper.congr ok linkedSame

theorem State.dead_storeStatus [DecidableEq Thread] {status : Status}
    (alive : ¬ s.dead t) (staysAlive : status ≠ .zombie) :
    (s.storeStatus t status).dead = s.dead := by
  funext other
  by_cases same : other = t
  · subst same
    have after : (s.storeStatus other status).status other = status := update_self ..
    simp only [State.dead] at alive ⊢
    rw [after]
    exact propext ⟨fun isDead => absurd isDead staysAlive, fun isDead => absurd isDead alive⟩
  · have after : (s.storeStatus t status).status other = s.status other :=
      update_of_ne same ..
    simp only [State.dead, after]

variable [DecidableEq Cpu] {lock : Option (Context Cpu Agent)}

section Linked

variable (linked : ∀ key t, (queues key).queue.Linked t ↔
  cfg.home t = key.2 ∧ node t = .queued key.1)

include linked

theorem linked_of_heads (headsEq : queue.heads = (queues key).queue.heads) (other : Kind × Cpu)
    (t : Thread) : (update queues key ⟨queue, lock⟩ other).queue.Linked t ↔
      cfg.home t = other.2 ∧ node t = .queued other.1 := by
  rw [← linked]
  by_cases same : other = key
  · subst same
    unfold Buckets.Linked
    rw [update_self, headsEq]
  · rw [update_of_ne same]

variable [DecidableEq Thread] {subject : Thread} {stage : Node Cpu Agent}
  (atHome : cfg.home subject = key.2)

include atHome

theorem linked_of_update
    (others : ∀ t, t ≠ subject → (queue.Linked t ↔ (queues key).queue.Linked t))
    (mine : queue.Linked subject ↔ stage = .queued key.1)
    (before : ∀ kind, node subject = .queued kind → kind = key.1)
    (after : ∀ kind, stage = .queued kind → kind = key.1) (other : Kind × Cpu) (t : Thread) :
    (update queues key ⟨queue, lock⟩ other).queue.Linked t ↔
      cfg.home t = other.2 ∧ update node subject stage t = .queued other.1 := by
  by_cases isSubject : t = subject
  · subst isSubject
    rw [update_self]
    by_cases same : other = key
    · subst same
      rw [update_self]
      exact mine.trans ⟨fun staged => ⟨atHome, staged⟩, fun both => both.2⟩
    rw [update_of_ne same, linked]
    constructor
    · rintro ⟨home, staged⟩
      exact absurd (Prod.ext (before _ staged) (home.symm.trans atHome)) same
    · rintro ⟨home, staged⟩
      exact absurd (Prod.ext (after _ staged) (home.symm.trans atHome)) same
  · rw [update_of_ne isSubject, ← linked]
    by_cases same : other = key
    · subst same
      rw [update_self]
      exact others t isSubject
    · rw [update_of_ne same]

theorem linked_of_insert (before : ∀ kind, node subject = .queued kind → kind = key.1)
    (inserted : ∀ t, queue.Linked t ↔
      t = subject ∨ (queues key).queue.Linked t) (other : Kind × Cpu) (t : Thread) :
    (update queues key ⟨queue, lock⟩ other).queue.Linked t ↔ cfg.home t = other.2 ∧
        update node subject (.queued key.1) t = .queued other.1 := by
  refine linked_of_update linked atHome ?_ ?_ before (fun _ => Node.queued.inj ∘ .symm) ..
  · exact fun t ne => (inserted t).trans (or_iff_right ne)
  · exact iff_of_true ((inserted subject).mpr (.inl rfl)) rfl

theorem linked_of_remove (proper : (queues key).queue.Proper priority)
    (queued : node subject = .queued key.1)
    (headsEq : queue.heads = ((queues key).queue.erase subject).heads)
    (unlinked : ∀ kind, stage ≠ .queued kind) (other : Kind × Cpu) (t : Thread) :
    (update queues key ⟨queue, lock⟩ other).queue.Linked t ↔
      cfg.home t = other.2 ∧ update node subject stage t = .queued other.1 := by
  have linkedEq : queue.Linked = ((queues key).queue.erase subject).Linked := by
    unfold Buckets.Linked
    rw [headsEq]
  refine linked_of_update linked atHome ?_ ?_ ?_ (fun _ staged => absurd staged (unlinked _)) ..
  · intro t ne
    rw [linkedEq]
    exact Buckets.linked_erase_of_ne ne
  · rw [linkedEq]
    exact iff_of_false (proper.not_linked_erase subject) (unlinked _)
  · intro kind staged
    exact Node.queued.inj (staged.symm.trans queued)

end Linked

variable [DecidableEq Thread]

theorem QueueInv.listDel (inv : QueueInv cfg s) {kind : Kind}
    (queued : s.node t = .queued kind) (queue : RunQueue Thread)
    (lock : Option (Context Cpu Agent)) :
    (s.listDel t).storeQueue (kind, cfg.home t) queue lock =
      s.storeQueue (kind, cfg.home t) queue lock := by
  have queuesEq : update (s.listDel t).queues (kind, cfg.home t)
      ⟨queue, lock⟩ = update s.queues (kind, cfg.home t) ⟨queue, lock⟩ := by
    funext key
    by_cases same : key = (kind, cfg.home t)
    · subst same
      rw [update_self, update_self]
    rw [update_of_ne same, update_of_ne same]
    have absent : ¬ (s.queue key).Linked t := by
      rw [inv.linked]
      rintro ⟨atHome, staged⟩
      rw [queued] at staged
      cases staged
      exact same (Prod.ext rfl atHome.symm)
    exact congrArg (fun queue => { s.queues key with queue })
      (Buckets.erase_of_not_linked absent)
  exact congrArg (fun queues => { s with queues }) queuesEq

end Updates

section Positions

variable [DecidableEq Cpu] [DecidableEq Agent]

theorem position_update (cfg : Config Cpu Thread) (pc : Context Cpu Agent → Pc Thread)
    (ctx : Context Cpu Agent) (next : Pc Thread) : position cfg (update pc ctx next) =
      update (position cfg pc) ctx ((cfg.section ctx next).map (·, next)) :=
  eq_update_iff.mpr ⟨by simp [position],
    fun _ ne => by simp [position, update_of_ne ne]⟩

theorem piPosition_update (pc : Context Cpu Agent → Pc Thread) (ctx : Context Cpu Agent)
    (next : Pc Thread) : piPosition (update pc ctx next) =
      update (piPosition pc) ctx (next.piSection.map (·, next)) :=
  comp_update (fun pc : Pc Thread => pc.piSection.map (·, pc)) pc ctx next

end Positions

end LaOS.Runqueue
