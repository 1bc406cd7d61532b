import LaOS.SchedMachine

/-!
# What `pick_next` chooses

`pick_next` returns the best eligible thread, and the current thread only when nothing
that waits is as good, except for its shortcut for an empty queue.
-/

namespace LaOS.Sched

open Option List Function

/-- What `pick_next` reads and writes: the run queue, `current` and `idle` of the
CPU, the threads, and `g_ticks`. -/
structure Context (Thread : Type) where
  queue : RunQueue Thread
  current : Thread
  idle : Thread
  status : Thread → Status
  priority : Thread → Priority
  wakeupTicks : Thread → Nat
  ticks : Thread → Nat
  now : Nat

variable {Thread : Type} [DecidableEq Thread]

namespace Context

/-- The test of the scan: `THREAD_READY`, or `THREAD_SLEEPING` with a deadline that has passed. -/
def waiting (ctx : Context Thread) (t : Thread) : Bool :=
  ctx.status t = .ready ∨
    ctx.status t = .sleeping ∧ ctx.wakeupTicks t ≤ ctx.now

/-- The loop over the bits of the bitmap, lowest first, with `found_prio`. -/
def scan (ctx : Context Thread) : Option (Thread × Priority) :=
  (List.finRange priorityCount).findSome? fun prio =>
    if ctx.queue.occupied prio then
      ((ctx.queue.heads prio).find? ctx.waiting).map fun pos => (pos, prio)
    else none

def keepsCurrent (ctx : Context Thread) : Bool :=
  ctx.current ≠ ctx.idle ∧ ctx.status ctx.current = .running ∧
    ctx.scan.all fun found => ctx.priority ctx.current < found.2

/-- `next`, and the run queue with `next` at the end of its list. -/
def choose (ctx : Context Thread) : Thread × RunQueue Thread :=
  if ctx.keepsCurrent then (ctx.current, ctx.queue)
  else match ctx.scan with
  | some (next, prio) =>
    (next, if next = ctx.current then ctx.queue else ctx.queue.move prio prio next)
  | none => (ctx.idle, ctx.queue)

end Context

def pickNext (ctx : Context Thread) : Thread × Context Thread :=
  let prev := ctx.current
  if ctx.queue.count = 0 then (ctx.idle, ctx)
  else
    let (next, queue) := ctx.choose
    let status := update ctx.status next .running
    (next, { ctx with
      queue
      status := if prev ≠ next ∧ status prev = .running then update status prev .ready
        else status
      ticks := update ctx.ticks prev (ctx.ticks prev + 1) })

namespace Context

def Candidate (ctx : Context Thread) (t : Thread) : Prop :=
  ctx.queue.Linked t ∧ ctx.waiting t = true

def Keepable (ctx : Context Thread) : Prop :=
  ctx.current ≠ ctx.idle ∧ ctx.status ctx.current = .running

def Eligible (ctx : Context Thread) (t : Thread) : Prop :=
  ctx.Candidate t ∨ t = ctx.current ∧ ctx.Keepable

end Context

/-- The best eligible thread, first in its list unless it is the running one. -/
structure Best (ctx : Context Thread) (next : Thread) : Prop where
  least : ∀ t, ctx.Eligible t →
    ctx.Eligible next ∧ ctx.priority next ≤ ctx.priority t
  kept : next = ctx.current → ctx.Keepable → ∀ t, ctx.Candidate t →
    ctx.priority next < ctx.priority t
  first : ctx.Eligible next → ¬ (next = ctx.current ∧ ctx.Keepable) →
    ∃ before rest, ctx.queue.heads (ctx.priority next) = before ++ next :: rest ∧
      ∀ t ∈ before, ctx.waiting t = false
  nobody : (∀ t, ¬ ctx.Eligible t) → next = ctx.idle
  idle : ¬ ctx.queue.Linked ctx.idle → next = ctx.idle →
    ∀ t, ¬ ctx.Eligible t

/-- The choice, and what else the call has changed. -/
structure PickOk (ctx : Context Thread) (next : Thread) (after : Context Thread) : Prop
    extends Best ctx next where
  proper : after.queue.Proper after.priority
  order : ∀ rank, (after.queue.heads rank).erase next = (ctx.queue.heads rank).erase next
  linked : ∀ rank t, t ∈ after.queue.heads rank ↔ t ∈ ctx.queue.heads rank
  status : ∀ t, t ≠ ctx.current → t ≠ next →
    after.status t = ctx.status t
  ticks : ∀ t, t ≠ ctx.current → after.ticks t = ctx.ticks t
  others : after = { ctx with
    queue := after.queue, status := after.status, ticks := after.ticks }

section Scan

variable {ctx : Context Thread} {t next : Thread} {prio : Priority}

omit [DecidableEq Thread] in
theorem scan_eq_none (proper : ctx.queue.Proper ctx.priority)
    (nothing : ctx.scan = none) : ¬ ctx.Candidate t := by
  rintro ⟨⟨rank, mem⟩, waits⟩
  have absent := findSome?_eq_none_iff.mp nothing rank (mem_finRange rank)
  rw [if_pos ((proper.flagged rank).mpr (ne_nil_of_mem mem)), map_eq_none_iff,
    find?_eq_none] at absent
  exact absent t mem waits

omit [DecidableEq Thread] in
theorem scan_eq_some (proper : ctx.queue.Proper ctx.priority)
    (found : ctx.scan = some (next, prio)) :
    ctx.Candidate next ∧ ctx.priority next = prio ∧
      (∃ before rest, ctx.queue.heads prio = before ++ next :: rest ∧
        ∀ t ∈ before, ctx.waiting t = false) ∧
      ∀ t, ctx.Candidate t → prio ≤ ctx.priority t := by
  obtain ⟨lower, rank, higher, split, here, nothing⟩ := findSome?_eq_some_iff.mp found
  obtain ⟨flagged, here⟩ := ite_none_right_eq_some.mp here
  obtain ⟨pos, isFirst, same⟩ := map_eq_some_iff.mp here
  cases same
  obtain ⟨waits, before, rest, listEq, passed⟩ := find?_eq_some_iff_append.mp isFirst
  have mem : next ∈ ctx.queue.heads prio := by simp [listEq]
  refine ⟨⟨⟨prio, mem⟩, waits⟩, proper.placed prio next mem,
    ⟨before, rest, listEq, fun t inBefore => by simpa using passed t inBefore⟩, ?_⟩
  rintro t ⟨⟨other, isOther⟩, alsoWaits⟩
  rw [proper.placed other t isOther]
  by_contra better
  have sorted := pairwise_lt_finRange priorityCount
  rw [split, pairwise_append, pairwise_cons] at sorted
  have inLower : other ∈ lower := by
    have listed := mem_finRange other
    rw [split, mem_append, mem_cons] at listed
    rcases listed with inLower | rfl | inHigher
    · exact inLower
    · exact absurd (le_refl _) better
    · exact absurd (sorted.2.1.1 other inHigher).le better
  have absent := nothing other inLower
  rw [if_pos ((proper.flagged other).mpr (ne_nil_of_mem isOther)), map_eq_none_iff,
    find?_eq_none] at absent
  exact absent t isOther alsoWaits

end Scan

omit [DecidableEq Thread] in
theorem Best.of_nobody {ctx : Context Thread} (nobody : ∀ t, ¬ ctx.Eligible t) :
    Best ctx ctx.idle where
  least t eligible := absurd eligible (nobody t)
  kept isCurrent keepable := absurd (.inr ⟨isCurrent, keepable⟩) (nobody ctx.idle)
  first eligible := absurd eligible (nobody ctx.idle)
  nobody _ := rfl
  idle _ _ := nobody

/-- How the choice comes about: the current thread goes on, the scan has found a
thread, or there is none. -/
inductive Choice (ctx : Context Thread) : Thread × RunQueue Thread → Prop
  | kept (keepable : ctx.Keepable) (alone : ∀ t, ctx.Candidate t →
      ctx.priority ctx.current < ctx.priority t) :
      Choice ctx (ctx.current, ctx.queue)
  | found {next : Thread} {prio : Priority} (found : ctx.scan = some (next, prio))
      (beats : ctx.Keepable → prio ≤ ctx.priority ctx.current) :
      Choice ctx (next,
        if next = ctx.current then ctx.queue else ctx.queue.move prio prio next)
  | nobody (nobody : ∀ t, ¬ ctx.Eligible t) :
      Choice ctx (ctx.idle, ctx.queue)

section Choice

variable {ctx : Context Thread} {next : Thread} {queue : RunQueue Thread}

theorem choice_choose (proper : ctx.queue.Proper ctx.priority) :
    Choice ctx ctx.choose := by
  unfold Context.choose Context.keepsCurrent
  cases found : ctx.scan with
  | none =>
    have nothing : ∀ t, ¬ ctx.Candidate t := fun _ => scan_eq_none proper found
    split
    next keeps =>
      have running := of_decide_eq_true keeps
      exact .kept ⟨running.1, running.2.1⟩ fun t waits => absurd waits (nothing t)
    next stops =>
      refine .nobody ?_
      rintro t (waits | ⟨-, keepable⟩)
      · exact nothing t waits
      · exact stops (decide_eq_true ⟨keepable.1, keepable.2, rfl⟩)
  | some choice =>
    obtain ⟨-, -, -, least⟩ := scan_eq_some proper found
    split
    next keeps =>
      have running := of_decide_eq_true keeps
      refine .kept ⟨running.1, running.2.1⟩ fun t waits => ?_
      exact lt_of_lt_of_le (of_decide_eq_true running.2.2) (least t waits)
    next stops =>
      refine .found found fun keepable => ?_
      by_contra better
      exact stops (decide_eq_true ⟨keepable.1, keepable.2, decide_eq_true (not_le.mp better)⟩)

theorem Choice.best (proper : ctx.queue.Proper ctx.priority)
    (choice : Choice ctx (next, queue)) : Best ctx next := by
  cases choice with
  | kept keepable alone =>
    refine ⟨?_, fun _ _ => alone, fun _ away => absurd ⟨rfl, keepable⟩ away, ?_, ?_⟩
    · rintro t (waits | ⟨rfl, -⟩)
      · exact ⟨.inr ⟨rfl, keepable⟩, (alone t waits).le⟩
      · exact ⟨.inr ⟨rfl, keepable⟩, le_refl _⟩
    · exact fun nobody => absurd (.inr ⟨rfl, keepable⟩) (nobody ctx.current)
    · exact fun _ isIdle => absurd isIdle keepable.1
  | found found beats =>
    obtain ⟨candidate, rfl, first, least⟩ := scan_eq_some proper found
    refine ⟨?_, ?_, fun _ _ => first, fun nobody => absurd (.inl candidate) (nobody next), ?_⟩
    · rintro t (waits | ⟨rfl, keepable⟩)
      · exact ⟨.inl candidate, least t waits⟩
      · exact ⟨.inl candidate, beats keepable⟩
    · rintro rfl keepable
      have waits := candidate.2
      simp [Context.waiting, keepable.2] at waits
    · rintro unlinked rfl
      exact absurd candidate.1 unlinked
  | nobody nobody => exact .of_nobody nobody

/-- The queue stays as it is, or the thread switched to goes to the end of its list. -/
def Rotates (ctx : Context Thread) (next : Thread) (queue : RunQueue Thread) : Prop :=
  queue = ctx.queue ∧ (next = ctx.current ∨ next = ctx.idle) ∨
    next ≠ ctx.current ∧ ctx.queue.Linked next ∧
      queue = ctx.queue.move (ctx.priority next) (ctx.priority next) next

section

variable (proper : ctx.queue.Proper ctx.priority)

include proper

theorem Choice.rotates (choice : Choice ctx (next, queue)) : Rotates ctx next queue := by
  cases choice with
  | kept => exact .inl ⟨rfl, .inl rfl⟩
  | nobody => exact .inl ⟨rfl, .inr rfl⟩
  | found found =>
    obtain ⟨candidate, rfl, -⟩ := scan_eq_some proper found
    split
    next same => exact .inl ⟨rfl, .inl same⟩
    next ne => exact .inr ⟨ne, candidate.1, rfl⟩

theorem pickNext_rotates : Rotates ctx (pickNext ctx).1 (pickNext ctx).2.queue := by
  unfold pickNext
  split
  · exact .inl ⟨rfl, .inr rfl⟩
  · exact (choice_choose proper).rotates proper

theorem pickNext_best (nonempty : ctx.queue.count ≠ 0) : Best ctx (pickNext ctx).1 := by
  rw [pickNext, if_neg nonempty]
  exact (choice_choose proper).best proper

theorem Rotates.order (rotates : Rotates ctx next queue) : queue.Proper ctx.priority ∧
      ∀ rank, (queue.heads rank).erase next = (ctx.queue.heads rank).erase next ∧
        ∀ t, t ∈ queue.heads rank ↔ t ∈ ctx.queue.heads rank := by
  rcases rotates with ⟨rfl, -⟩ | ⟨-, linked, rfl⟩
  · exact ⟨proper, fun _ => ⟨rfl, fun _ => .rfl⟩⟩
  refine ⟨proper.move linked fun _ _ => rfl, fun rank => ?_⟩
  obtain ⟨own, mem⟩ := linked
  cases proper.placed own next mem
  have absent : next ∉ (ctx.queue.heads rank).erase next := (proper.nodup rank).not_mem_erase
  rw [Buckets.heads_move]
  by_cases same : rank = ctx.priority next
  · subst same
    rw [update_self, erase_append_right _ absent]
    refine ⟨by simp, fun t => ?_⟩
    by_cases isNext : t = next
    · simp [isNext, mem]
    · simp [isNext, mem_erase_of_ne isNext]
  · have erased : (ctx.queue.erase next).heads rank = ctx.queue.heads rank :=
      erase_of_not_mem fun inRank => same (proper.placed rank next inRank).symm
    rw [update_of_ne same, erased]
    exact ⟨rfl, fun _ => .rfl⟩

end

end Choice

/-- `pick_next` does what it should unless the queue is empty and the current
thread could go on. -/
theorem pickNext_ok {ctx : Context Thread} (proper : ctx.queue.Proper ctx.priority) :
    PickOk ctx (pickNext ctx).1 (pickNext ctx).2 ↔
      (ctx.queue.count = 0 → ¬ ctx.Keepable) := by
  by_cases isEmpty : ctx.queue.count = 0
  · have unlinked : ∀ t, ¬ ctx.Candidate t :=
      fun t waits => proper.count_pos waits.1 isEmpty
    simp only [pickNext, isEmpty, if_true, true_imp_iff]
    refine ⟨fun ok keepable => ?_, fun stops => ?_⟩
    · rcases (ok.least ctx.current (.inr ⟨rfl, keepable⟩)).1 with waits | ⟨isCurrent, -⟩
      · exact unlinked ctx.idle waits
      · exact keepable.1 isCurrent.symm
    refine ⟨.of_nobody ?_, proper, fun _ => rfl, fun _ _ => .rfl, fun _ _ _ => rfl,
      fun _ _ => rfl, rfl⟩
    rintro t (waits | ⟨-, keepable⟩)
    · exact unlinked t waits
    · exact stops keepable
  · have choice := choice_choose proper
    simp only [pickNext, isEmpty, if_false, false_imp_iff, iff_true]
    obtain ⟨properAfter, order⟩ := (choice.rotates proper).order proper
    refine ⟨choice.best proper, properAfter, fun rank => (order rank).1, fun rank => (order rank).2,
      fun t notPrev notNext => ?_, fun t notPrev => update_of_ne notPrev _ _, rfl⟩
    change (if _ then _ else _ : Thread → Status) t = _
    split
    · rw [update_of_ne notPrev, update_of_ne notNext]
    · rw [update_of_ne notNext]

/-- Thread 1 runs with priority 5; thread 2 with priority 2 is blocked, and thread 3 with
priority 4 is ready. -/
def oneReady : Context (Fin 4) where
  queue := ((((Buckets.empty.addFront 5 1).addCount).addFront 2 2).addCount.addFront 4 3).addCount
  current := 1
  idle := 0
  status := fun t => if t = 1 then .running else if t = 2 then .blocked else .ready
  priority := fun t => if t = 1 then 5 else if t = 2 then 2 else if t = 3 then 4 else 63
  wakeupTicks := fun _ => 0
  ticks := fun _ => 0
  now := 0

theorem pickNext_ok_oneReady :
    PickOk oneReady (pickNext oneReady).1 (pickNext oneReady).2 ∧ (pickNext oneReady).1 = 3 := by
  have empty : (Buckets.empty : RunQueue (Fin 4)).Proper oneReady.priority := Buckets.proper_empty
  have running := empty.addFront (show ¬ Buckets.empty.Linked 1 by decide +kernel)
  have blocked := running.addFront (show ¬ Buckets.Linked _ 2 by decide +kernel)
  have proper := blocked.addFront (show ¬ Buckets.Linked _ 3 by decide +kernel)
  have nonempty : oneReady.queue.count ≠ 0 := by decide +kernel
  exact ⟨(pickNext_ok proper).mpr fun isEmpty => absurd isEmpty nonempty, by decide +kernel⟩

/-- The boot thread of a CPU runs and is not linked: it is eligible, but the queue
is empty, and idle is chosen. -/
theorem pickNext_drops_current : let ctx : Context (Fin 2) :=
      ⟨.empty, 0, 1, fun _ => .running, fun _ => 3, fun _ => 0, fun _ => 0, 0⟩
    ctx.queue.Proper ctx.priority ∧ ctx.Eligible 0 ∧ (pickNext ctx).1 = 1 := by
  refine ⟨Buckets.proper_empty, .inr ⟨rfl, ?_⟩, rfl⟩
  exact ⟨by decide, rfl⟩

section Alone

open State

/-- A machine inside `pick_next`, which finds there what `ctx` holds. -/
def State.picking (s : State Thread) (ctx : Context Thread) (was : Bool) (pc : Pc Thread) :
    State Thread :=
  { s with
    queue := ctx.queue
    status := ctx.status
    priority := ctx.priority
    wakeupTicks := ctx.wakeupTicks
    ticks := ctx.now
    frames := update s.frames s.executing (⟨ctx.current, was, pc⟩ :: s.frames s.executing) }

/-- The CPU gets from one state to another while nothing else runs. -/
def Alone (idle : Thread) : State Thread → State Thread → Prop :=
  Relation.ReflTransGen fun s next => step idle s .exec = some next

variable {ctx : Context Thread} {s : State Thread} {was : Bool}

theorem storeFrames_picking (pc last : Pc Thread) :
    (s.picking ctx was pc).storeFrames (⟨ctx.current, was, last⟩ :: s.frames s.executing) =
      s.picking ctx was last := by
  simp [picking, storeFrames]

variable (alive : s.panicked = false)

include alive

theorem Alone.head {pc : Pc Thread} {after : State Thread} (mid : State Thread)
    (ran : execFrame ctx.idle (s.picking ctx was pc) ⟨ctx.current, was, pc⟩
      (s.frames s.executing) = mid)
    (rest : Alone ctx.idle mid after) : Alone ctx.idle (s.picking ctx was pc) after :=
  Relation.ReflTransGen.head (by simpa [step, picking, alive] using ran) rest

theorem alone_scan (prio : Priority) (remaining : List Priority) (rest : List Thread) :
    Alone ctx.idle (s.picking ctx was (.scan prio remaining rest))
      (s.picking ctx was ((rest.find? ctx.waiting).elim (.scanRank remaining)
        fun pos => .keepPrev (some (pos, prio)))) := by
  induction rest with
  | nil => exact .head alive _ (storeFrames_picking ..) .refl
  | cons pos rest ih =>
    by_cases ready : ctx.status pos = .ready
    · rw [find?_cons_of_pos (by simp [Context.waiting, ready])]
      exact .head alive _ (by simp [execFrame, picking, storeFrames, ready]) .refl
    refine .head alive (s.picking ctx was (.scanSleeper prio remaining pos rest))
      (by simp [execFrame, picking, storeFrames, ready]) ?_
    by_cases due : ctx.status pos = .sleeping ∧ ctx.wakeupTicks pos ≤ ctx.now
    · rw [find?_cons_of_pos (by simp [Context.waiting, due])]
      exact .head alive _ (by simp [execFrame, picking, storeFrames, due]) .refl
    · rw [find?_cons_of_neg (by simpa [Context.waiting, ready] using due)]
      exact .head alive _ (by simp [execFrame, picking, storeFrames, due]) ih

theorem alone_scanRank (ranks : List Priority) : Alone ctx.idle
    (s.picking ctx was (.scanRank ranks)) (s.picking ctx was (.keepPrev (ranks.findSome?
      fun prio => ((ctx.queue.heads prio).find? ctx.waiting).map (·, prio)))) := by
  induction ranks with
  | nil => exact .head alive _ (storeFrames_picking ..) .refl
  | cons prio ranks ih =>
    refine .head alive (s.picking ctx was (.scan prio ranks (ctx.queue.heads prio)))
      (storeFrames_picking ..) ?_
    refine .trans (alone_scan alive prio ranks _) ?_
    rw [findSome?_cons]
    cases (ctx.queue.heads prio).find? ctx.waiting with
    | none => exact ih
    | some pos => exact .refl

theorem alone_keepPrev : Alone ctx.idle (s.picking ctx was (.keepPrev ctx.scan))
    (s.picking { ctx with queue := ctx.choose.2 } was (.setNext ctx.choose.1)) := by
  have same (pc : Pc Thread) :
    keepsPrev ctx.idle (s.picking ctx was pc) ctx.current ctx.scan = ctx.keepsCurrent := rfl
  rw [Context.choose]
  by_cases keeps : ctx.keepsCurrent = true
  · rw [if_pos keeps]
    exact .head alive _ (by simp only [execFrame, same, keeps, if_true, storeFrames_picking]) .refl
  rw [if_neg keeps]
  cases found : ctx.scan with
  | none =>
    rw [found] at same
    exact .head alive _ (by simp only [execFrame, same, keeps, storeFrames_picking]; rfl) .refl
  | some choice =>
    rw [found] at same
    obtain ⟨next, prio⟩ := choice
    by_cases isCurrent : next = ctx.current
    · simp only [if_pos isCurrent]
      exact .head alive _ (by simp [execFrame, isCurrent, storeFrames_picking]) .refl
    · simp only [if_neg isCurrent]
      refine .head alive (s.picking ctx was (.rotate next prio))
        (by simp [execFrame, same, keeps, isCurrent, storeFrames_picking]) ?_
      exact .head alive _ (by simp [execFrame, picking, storeFrames]) .refl

theorem alone_setNext {queue : RunQueue Thread} (next : Thread) :
    let set : Thread → Status := update ctx.status next .running
    let settled := if ctx.current ≠ next ∧ set ctx.current = .running then
      update set ctx.current .ready else set
    Alone ctx.idle (s.picking { ctx with queue } was (.setNext next))
      ({ s with queueLock := false }.picking { ctx with queue, status := settled } was
        (.compare next)) := by
  intro set settled
  have demotes : execFrame ctx.idle
      (s.picking { ctx with queue, status := set } was (.setPrev next))
      ⟨ctx.current, was, .setPrev next⟩ (s.frames s.executing) =
        s.picking { ctx with queue, status := settled } was (.unlockQueue next) := by
    by_cases demoted : ctx.current ≠ next ∧ set ctx.current = .running
    · refine (congrArg (storeFrames · _) (if_pos demoted)).trans ?_
      simp [picking, storeFrames, storeStatus, settled, if_pos demoted]
    · refine (congrArg (storeFrames · _) (if_neg demoted)).trans ?_
      simp [picking, storeFrames, settled, if_neg demoted]
  refine @Alone.head _ _ { ctx with queue } s was alive _ _
    (s.picking { ctx with queue, status := set } was (.setPrev next))
    (by simp [execFrame, picking, storeFrames, storeStatus, set]) ?_
  refine @Alone.head _ _ { ctx with queue, status := set } s was alive _ _ _ demotes ?_
  exact @Alone.head _ _ { ctx with queue, status := settled } s was alive _ _ _
    (by simp [execFrame, picking, storeFrames]) .refl

/-- Run alone, the accesses of the machine do what `pickNext` says. -/
theorem alone_pickNext (unlocked : s.queueLock = false) :
    Alone ctx.idle (s.picking ctx was .readCount)
      (s.picking (pickNext ctx).2 was (.compare (pickNext ctx).1)) := by
  rw [pickNext]
  by_cases isEmpty : ctx.queue.count = 0
  · rw [if_pos isEmpty]
    exact .head alive _ (by simp [execFrame, picking, storeFrames, isEmpty]) .refl
  rw [if_neg isEmpty]
  let locked : State Thread := { s with queueLock := true }
  refine .head alive (s.picking ctx was .lockQueue)
    (by simp [execFrame, picking, storeFrames, isEmpty]) ?_
  refine .head alive (locked.picking ctx was (.scanRank ctx.queue.ranks))
    (by simp [execFrame, picking, storeFrames, locked]) ?_
  refine .trans (@alone_scanRank _ _ ctx locked was alive _) ?_
  rw [RunQueue.ranks, ← head?_filterMap, filterMap_filter, head?_filterMap]
  refine .trans (@alone_keepPrev _ _ ctx locked was alive) ?_
  have stored := @alone_setNext _ _ ctx locked was alive ctx.choose.2 ctx.choose.1
  rw [← unlocked] at stored
  exact stored

end Alone

end LaOS.Sched
