import LaOS.SchedMachine

/-!
# What holds at each position of `__schedule`

Outside `__schedule` the only running thread on the run queue is the current one.
Inside, `pick_next` first makes its choice running and then takes the status away from
the outgoing thread.
-/

namespace LaOS.Sched

open Function

variable {Thread : Type}

/-- The threads that the result is about: those on the run queue, without idle. -/
def Counts (idle : Thread) (core : Core Thread) (t : Thread) : Prop :=
  core.queue.Linked t ∧ t ≠ idle

def RunningIn (idle : Thread) (core : Core Thread) (threads : List Thread) : Prop :=
  ∀ t, Counts idle core t → core.status t = .running → t ∈ threads

def Idling (idle : Thread) (core : Core Thread) (who : Thread) : Prop :=
  core.zombies.count ≠ 0 → who = idle

section Assertions

variable (idle : Thread) (core : Core Thread) (prev : Thread) (wasRunning : Bool)

structure Outside : Prop where
  current : core.current = prev
  running : RunningIn idle core [prev]
  idling : Idling idle core prev
  corpse : core.status prev = .zombie → core.queue.Linked prev

structure Entering : Prop extends Outside idle core prev where
  was : wasRunning = true → core.status prev = .running

structure Dying : Prop where
  current : core.current = prev
  running : RunningIn idle core [prev]
  dead : core.status prev = .zombie
  was : wasRunning = false

structure Checking : Prop where
  current : core.current = prev
  running : RunningIn idle core [prev]
  off : core.zombies.count ≠ 0 → Counts idle core prev → core.status prev ≠ .running
  was : wasRunning = true → core.status prev = .running

structure Picking : Prop where
  current : core.current = prev
  running : RunningIn idle core [prev]
  calm : core.zombies.count = 0
  was : wasRunning = true → core.status prev = .running

/-- `next` has been made running. -/
structure Promoted (next : Thread) : Prop where
  current : core.current = prev
  running : RunningIn idle core [prev, next]
  calm : core.zombies.count = 0
  was : wasRunning = true → core.status prev = .running
  alive : core.status next ≠ .zombie

/-- The outgoing thread is not running any more, unless it is chosen again. -/
structure Chosen (next : Thread) : Prop where
  current : core.current = prev
  running : RunningIn idle core [next]
  idling : Idling idle core next
  handed : wasRunning = true → Counts idle core prev → next = prev ∨ core.status prev = .ready
  alive : core.status next ≠ .zombie

/-- `ctx->current` has been stored. -/
structure Switching (next : Thread) : Prop extends Outside idle core next where
  handed : wasRunning = true → Counts idle core prev → core.status prev = .ready
  different : next ≠ prev

def PcOk : Pc Thread → Prop
  | .enter _ | .clearResched | .zombieTest => Entering idle core prev wasRunning
  | .unlinkZombie => Dying idle core prev wasRunning ∧ core.queue.Linked prev
  | .linkZombie => Dying idle core prev wasRunning
  | .checkZombies => Checking idle core prev wasRunning
  | .readCount | .lockQueue => Picking idle core prev wasRunning
  | .scanRank _ | .keepPrev none | .setNext _ =>
    Picking idle core prev wasRunning ∧ core.queueLock = true
  | .scan priority _ rest =>
    Picking idle core prev wasRunning ∧ core.queueLock = true ∧
      ∀ t ∈ rest, t ∈ core.queue.heads priority
  | .scanSleeper priority _ pos rest =>
    Picking idle core prev wasRunning ∧ core.queueLock = true ∧
      ∀ t ∈ pos :: rest, t ∈ core.queue.heads priority
  | .keepPrev (some (next, priority)) | .rotate next priority =>
    Picking idle core prev wasRunning ∧ core.queueLock = true ∧ next ∈ core.queue.heads priority
  | .setPrev next => Promoted idle core prev wasRunning next
  | .unlockQueue next | .compare next => Chosen idle core prev wasRunning next
  | .noteNesting next | .noteDisable next | .noteEnable next | .noteTest next
  | .setCurrent next => Chosen idle core prev wasRunning next ∧ next ≠ prev
  | .switchTo next => Switching idle core prev wasRunning next
  | .finish => Outside idle core prev

end Assertions

def Pc.chosen : Pc Thread → Option Thread
  | .setNext next | .setPrev next | .unlockQueue next | .compare next | .noteNesting next
  | .noteDisable next | .noteEnable next | .noteTest next | .setCurrent next
  | .switchTo next => some next
  | _ => none

def chosenBy : List (Frame Thread) → Option Thread
  | [] => none
  | frame :: _ => frame.pc.chosen

def State.chosen (s : State Thread) : Option Thread :=
  chosenBy (s.frames s.executing)

/-- A thread that is not executing has at most one activation, which has switched away; if it
was running then, it is ready or chosen again. -/
def Parked (idle : Thread) (s : State Thread) (t : Thread) : Prop :=
  ∀ frame below, s.frames t = frame :: below →
    below = [] ∧ frame.prev = t ∧ frame.pc = .finish ∧
      (frame.wasRunning = true → Counts idle s.toCore t →
        s.status t = .ready ∨ s.chosen = some t)

def TopOk (idle : Thread) (s : State Thread) : List (Frame Thread) → Prop
  | [] => Outside idle s.toCore s.executing
  | [frame] =>
    frame.prev = s.executing ∧ PcOk idle s.toCore frame.prev frame.wasRunning frame.pc
  | _ :: _ :: _ => False

/-- The inductive invariant for runs without nested activations. -/
structure SchedInv (idle : Thread) (s : State Thread) : Prop where
  proper : s.queue.Proper s.priority
  fresh : ∀ t, s.created t = false →
    ¬ s.queue.Linked t ∧ t ≠ s.executing ∧ s.chosen ≠ some t ∧
      s.status t = .ready
  idleCreated : s.created idle = true
  idleAlive : s.status idle ≠ .zombie
  parked : ∀ t, t ≠ s.executing → Parked idle s t
  top : TopOk idle s (s.frames s.executing)

section Moves

variable {idle : Thread} {s after : State Thread}
  {frames : List (Frame Thread)} {pc old : Pc Thread} {prev : Thread} {wasRunning : Bool}

theorem SchedInv.pcOk (inv : SchedInv idle s)
    (framesAt : s.frames s.executing = [⟨prev, wasRunning, pc⟩]) :
    prev = s.executing ∧ PcOk idle s.toCore prev wasRunning pc := by
  have top := inv.top
  rw [framesAt] at top
  exact top

theorem SchedInv.created_executing (inv : SchedInv idle s) :
    s.created s.executing = true := by
  by_contra isFresh
  exact (inv.fresh _ (Bool.eq_false_of_not_eq_true isFresh)).2.1 rfl

variable {t : Thread}

theorem SchedInv.created_of_linked (inv : SchedInv idle s) (linked : s.queue.Linked t) :
    s.created t = true := by
  by_contra isFresh
  exact (inv.fresh t (Bool.eq_false_of_not_eq_true isFresh)).1 linked

theorem SchedInv.created_of_chosen (inv : SchedInv idle s)
    (chosen : s.chosen = some t) : s.created t = true := by
  by_contra isFresh
  exact (inv.fresh t (Bool.eq_false_of_not_eq_true isFresh)).2.2.1 chosen

variable [DecidableEq Thread]

section

variable (inv : SchedInv idle s) (executingEq : after.executing = s.executing)
  (createdEq : after.created = s.created) (proper : after.queue.Proper after.priority)
  (linked : ∀ t, after.queue.Linked t → s.queue.Linked t)
  (idleAlive : after.status idle ≠ .zombie)

include inv executingEq createdEq proper linked idleAlive

/-- The executing thread replaces its activations; no thread is linked, and the status of
another changes only when it is chosen. -/
theorem SchedInv.replace (framesEq : after.frames = update s.frames s.executing frames)
    (statuses : ∀ t, t ≠ s.executing → s.status t = .ready →
      after.status t = .ready ∨ chosenBy frames = some t)
    (keeps : ∀ t, t ≠ s.executing → s.chosen = some t →
      chosenBy frames = some t)
    (chosenCreated : ∀ t, chosenBy frames = some t → s.created t = true)
    (top : TopOk idle after frames) : SchedInv idle after := by
  have framesAt : after.frames after.executing = frames := by
    rw [framesEq, executingEq, update_self]
  have chosenEq : after.chosen = chosenBy frames := congrArg chosenBy framesAt
  refine ⟨proper, ?_, ?_, idleAlive, ?_, ?_⟩
  · intro t isFresh
    rw [createdEq] at isFresh
    obtain ⟨unlinked, isOther, -, isReady⟩ := inv.fresh t isFresh
    have unchosen : chosenBy frames ≠ some t := by
      intro isChosen
      rw [chosenCreated t isChosen] at isFresh
      cases isFresh
    refine ⟨fun nowLinked => unlinked (linked t nowLinked), executingEq ▸ isOther,
      chosenEq ▸ unchosen, ?_⟩
    exact (statuses t isOther isReady).resolve_right unchosen
  · rw [createdEq]
    exact inv.idleCreated
  · intro t isOther frame below threadAt
    rw [executingEq] at isOther
    rw [framesEq, update_of_ne isOther] at threadAt
    obtain ⟨single, prevEq, finished, handed⟩ := inv.parked t isOther frame below threadAt
    refine ⟨single, prevEq, finished, fun was counts => ?_⟩
    rw [chosenEq]
    rcases handed was ⟨linked t counts.1, counts.2⟩ with isReady | isChosen
    · exact statuses t isOther isReady
    · exact .inr (keeps t isOther isChosen)
  · rw [framesAt]
    exact top

/-- One access of the only activation of the executing thread, which keeps the
choice made before or makes it. -/
theorem SchedInv.move (framesAt : s.frames s.executing = [⟨prev, wasRunning, old⟩])
    (framesEq : after.frames = update s.frames s.executing [⟨prev, wasRunning, pc⟩])
    (statuses : ∀ t, t ≠ s.executing → s.status t = .ready →
      after.status t = .ready ∨ pc.chosen = some t) (choice : old.chosen = pc.chosen ∨
      old.chosen = none ∧ ∀ t, pc.chosen = some t → s.created t = true)
    (ok : PcOk idle after.toCore prev wasRunning pc) : SchedInv idle after := by
  have chosenEq : s.chosen = old.chosen := congrArg chosenBy framesAt
  have prevEq := (inv.pcOk framesAt).1
  refine inv.replace executingEq createdEq proper linked idleAlive framesEq statuses ?_ ?_
    ⟨prevEq.trans executingEq.symm, ok⟩
  · intro t _ isChosen
    rw [chosenEq] at isChosen
    rcases choice with same | ⟨nobody, -⟩
    · exact same.symm.trans isChosen
    · cases nobody.symm.trans isChosen
  · intro t isChosen
    rcases choice with same | ⟨-, created⟩
    · exact inv.created_of_chosen (chosenEq.trans (same.trans isChosen))
    · exact created t isChosen

end

variable {zombies : RunQueue Thread} {queueLock needResched : Bool} {current : Thread}
  {preemptCount : Nat}

theorem SchedInv.goto (inv : SchedInv idle s)
    (framesAt : s.frames s.executing = [⟨prev, wasRunning, old⟩])
    (choice : old.chosen = pc.chosen ∨
      old.chosen = none ∧ ∀ t, pc.chosen = some t → s.created t = true)
    (ok : PcOk idle ⟨s.queue, queueLock, zombies, s.status, current⟩ prev wasRunning pc) :
    SchedInv idle (State.storeFrames
      { s with zombies, queueLock, needResched, current, preemptCount }
      [⟨prev, wasRunning, pc⟩]) :=
  inv.move rfl rfl inv.proper (fun _ linked => linked) inv.idleAlive framesAt rfl
    (fun _ _ isReady => .inl isReady) choice ok

theorem SchedInv.leave (inv : SchedInv idle s)
    (framesAt : s.frames s.executing = [⟨prev, wasRunning, old⟩])
    (settled : old.chosen = none ∨ old.chosen = some prev)
    (ok : Outside idle s.toCore prev) : SchedInv idle (s.storeFrames []) := by
  have chosenEq : s.chosen = old.chosen := congrArg chosenBy framesAt
  have prevEq := (inv.pcOk framesAt).1
  have outside := prevEq ▸ ok
  refine inv.replace rfl rfl inv.proper (fun _ linked => linked) inv.idleAlive rfl
    (fun _ _ isReady => .inl isReady) ?_ nofun outside
  intro t isOther isChosen
  rw [chosenEq] at isChosen
  rcases settled with nobody | self
  · cases nobody.symm.trans isChosen
  · cases self.symm.trans isChosen
    exact absurd prevEq isOther

end Moves

end LaOS.Sched
