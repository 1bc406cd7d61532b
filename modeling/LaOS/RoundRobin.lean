import LaOS.PickNext

/-!
# Round robin without overtaking

A thread that is switched to goes behind all others of its priority, so it is not
switched to again before one of them that stays ready.
-/

namespace LaOS.Sched

open Option List Function

/-- The context of the CPU, and which threads have ever been enqueued. -/
structure Cpu (Thread : Type) where
  ctx : Context Thread
  created : Thread → Bool

/-- A call of `pick_next` with the store to `current`, a new thread, the removal of an exited
one, the switch to idle, and changes of statuses and deadlines. -/
inductive Event (Thread : Type)
  | pick
  | enqueue (t : Thread) (atTail : Bool)
  | remove (t : Thread)
  | runIdle
  | other (status : Thread → Status) (wakeupTicks : Thread → Nat) (now : Nat)

variable {Thread : Type} [DecidableEq Thread]

/-- `runqueue_enqueue_raw` and `runqueue_enqueue_tail_raw`. -/
def enqueueRaw (queue : RunQueue Thread) (prio : Priority) (t : Thread) (atTail : Bool) :
    RunQueue Thread :=
  (if atTail then queue.addBack prio t else queue.addFront prio t).addCount

def Cpu.step (cpu : Cpu Thread) : Event Thread → Option (Cpu Thread)
  | .pick =>
    let (next, ctx) := pickNext cpu.ctx
    some { cpu with ctx := { ctx with current := next } }
  | .enqueue t atTail =>
    if cpu.created t = false then
      some {
        ctx := { cpu.ctx with
          queue := enqueueRaw cpu.ctx.queue (cpu.ctx.priority t) t atTail }
        created := Function.update cpu.created t true }
    else none
  | .remove t =>
    if cpu.ctx.queue.Linked t then
      some { cpu with ctx := { cpu.ctx with
        queue := cpu.ctx.queue.remove (cpu.ctx.priority t) t } }
    else none
  | .runIdle => some { cpu with ctx := { cpu.ctx with current := cpu.ctx.idle } }
  | .other status wakeupTicks now =>
    some { cpu with ctx := { cpu.ctx with status, wakeupTicks, now } }

/-- Threads keep their priorities. -/
structure CpuInv (priority : Thread → Priority) (idle : Thread) (cpu : Cpu Thread) : Prop where
  priorityEq : cpu.ctx.priority = priority
  idleEq : cpu.ctx.idle = idle
  proper : cpu.ctx.queue.Proper priority
  unlinked : ¬ cpu.ctx.queue.Linked idle
  created : ∀ t, cpu.ctx.queue.Linked t ∨ t = idle → cpu.created t = true

def roundRobin (priority : Thread → Priority) (idle : Thread) :
    TransitionSystem (Cpu Thread) (Event Thread) where
  initial := CpuInv priority idle
  step := Cpu.step

section Steps

variable {prio : Thread → Priority} {idle first second : Thread} {cpu after : Cpu Thread}
  {event : Event Thread} {t : Thread}

omit [DecidableEq Thread] in
theorem CpuInv.mem_heads (inv : CpuInv prio idle cpu)
    (linked : cpu.ctx.queue.Linked t) :
    t ∈ cpu.ctx.queue.heads (prio t) := by
  obtain ⟨rank, member⟩ := linked
  rwa [inv.proper.placed rank t member]

omit [DecidableEq Thread] in
theorem CpuInv.own_proper (inv : CpuInv prio idle cpu) :
    cpu.ctx.queue.Proper cpu.ctx.priority := by
  rw [inv.priorityEq]
  exact inv.proper

omit [DecidableEq Thread] in
theorem linked_enqueueRaw {queue : RunQueue Thread} {prio : Priority} {other : Thread}
    {atTail : Bool} :
    (enqueueRaw queue prio t atTail).Linked other ↔ other = t ∨ queue.Linked other := by
  cases atTail with
  | true => exact Buckets.linked_addBack
  | false => exact Buckets.linked_addFront

omit [DecidableEq Thread] in
theorem sublist_enqueueRaw (queue : RunQueue Thread) (prio : Priority) (t : Thread)
    (atTail : Bool) (rank : Priority) :
    (queue.heads rank).Sublist ((enqueueRaw queue prio t atTail).heads rank) := by
  cases atTail with
  | true | false =>
    change (queue.heads rank).Sublist (update queue.heads prio _ rank)
    by_cases same : rank = prio
    · rw [same, update_self]
      simp
    · rw [update_of_ne same]

theorem pickNext_fixed (ctx : Context Thread) :
    (pickNext ctx).2.priority = ctx.priority ∧ (pickNext ctx).2.idle = ctx.idle := by
  unfold pickNext
  split <;> exact ⟨rfl, rfl⟩

theorem CpuInv.rotates (inv : CpuInv prio idle cpu) :
    Rotates cpu.ctx (pickNext cpu.ctx).1 (pickNext cpu.ctx).2.queue :=
  pickNext_rotates inv.own_proper

theorem CpuInv.best (inv : CpuInv prio idle cpu) (linked : cpu.ctx.queue.Linked first)
    (ready : cpu.ctx.status first = .ready) :
    Best cpu.ctx (pickNext cpu.ctx).1 ∧ cpu.ctx.Candidate first :=
  ⟨pickNext_best inv.own_proper (inv.proper.count_pos linked), linked, decide_eq_true (.inl ready)⟩

theorem CpuInv.step (inv : CpuInv prio idle cpu) (ran : cpu.step event = some after) :
    CpuInv prio idle after := by
  have priorityEq := inv.priorityEq
  cases event with
  | pick =>
    cases ran
    obtain ⟨proper, order⟩ := inv.rotates.order inv.own_proper
    have linked : ∀ t, (pickNext cpu.ctx).2.queue.Linked t →
        cpu.ctx.queue.Linked t :=
      fun t ⟨rank, member⟩ => ⟨rank, ((order rank).2 t).mp member⟩
    have fixed := pickNext_fixed cpu.ctx
    exact ⟨fixed.1.trans priorityEq, fixed.2.trans inv.idleEq, priorityEq ▸ proper,
      fun isLinked => inv.unlinked (linked idle isLinked),
      fun t either => inv.created t (either.imp_left (linked t))⟩
  | enqueue t atTail =>
    obtain ⟨fresh, ⟨⟩⟩ := ite_none_right_eq_some.mp ran
    have isNew : ¬ (cpu.ctx.queue.Linked t ∨ t = idle) := by
      intro either
      cases fresh.symm.trans (inv.created t either)
    rw [not_or] at isNew
    subst priorityEq
    refine ⟨rfl, inv.idleEq, ?_, fun isLinked => ?_, fun other either => ?_⟩
    · cases atTail with
      | true => exact inv.proper.addBack isNew.1
      | false => exact inv.proper.addFront isNew.1
    · exact (linked_enqueueRaw.mp isLinked).elim (Ne.symm isNew.2) inv.unlinked
    · by_cases same : other = t
      · rw [same]
        exact update_self ..
      · refine (update_of_ne same _ _).trans (inv.created other ?_)
        exact either.imp_left fun isLinked => (linked_enqueueRaw.mp isLinked).resolve_left same
  | remove t =>
    obtain ⟨linked, ⟨⟩⟩ := ite_none_right_eq_some.mp ran
    subst priorityEq
    exact ⟨rfl, inv.idleEq, inv.proper.remove linked,
      fun isLinked => inv.unlinked (Buckets.linked_of_remove isLinked),
      fun other either => inv.created other (either.imp_left Buckets.linked_of_remove)⟩
  | runIdle | other =>
    cases ran
    exact { inv with }

theorem step_current (ran : cpu.step event = some after) :
    after.ctx.current = cpu.ctx.current ∨ after.ctx.current = cpu.ctx.idle ∨
      event = .pick ∧ after.ctx.current = (pickNext cpu.ctx).1 := by
  cases event with
  | pick =>
    cases ran
    exact .inr (.inr ⟨rfl, rfl⟩)
  | enqueue | remove =>
    obtain ⟨-, ⟨⟩⟩ := ite_none_right_eq_some.mp ran
    exact .inl rfl
  | runIdle =>
    cases ran
    exact .inr (.inl rfl)
  | other =>
    cases ran
    exact .inl rfl

/-- `second` is behind `first` in the list of their priority, if it is linked at all. -/
def Ahead (priority : Thread → Priority) (first second : Thread) (cpu : Cpu Thread) : Prop :=
  cpu.created second = true ∧ (second ∈ cpu.ctx.queue.heads (priority second) →
    [first, second].Sublist (cpu.ctx.queue.heads (priority second)))

theorem ahead_of_moved (inv : CpuInv prio idle cpu) (same : prio first = prio second)
    (ne : first ≠ second) (linked : cpu.ctx.queue.Linked first) :
    [first, second].Sublist ((cpu.ctx.queue.move (prio second) (prio second)
      second).heads (prio second)) := by
  rw [Buckets.heads_move, update_self]
  have member := inv.mem_heads linked
  rw [same] at member
  exact (singleton_sublist.mpr ((mem_erase_of_ne ne).mpr member)).append
    (List.Sublist.refl [second])

theorem Ahead.step (inv : CpuInv prio idle cpu) (ahead : Ahead prio first second cpu)
    (same : prio first = prio second) (ne : first ≠ second)
    (linked : after.ctx.queue.Linked first)
    (unswitched : event = .pick → (pickNext cpu.ctx).1 = first → first = cpu.ctx.current)
    (ran : cpu.step event = some after) : Ahead prio first second after := by
  obtain ⟨created, behind⟩ := ahead
  have priorityEq := inv.priorityEq
  have kept : ∀ t, t ≠ first → t ≠ second →
      second ∈ cpu.ctx.queue.heads (prio second) →
      [first, second].Sublist ((cpu.ctx.queue.heads (prio second)).erase t) := by
    intro t notFirst notSecond member
    have erased := (behind member).erase t
    rwa [erase_of_not_mem (by simp [notFirst, notSecond])] at erased
  cases event with
  | pick =>
    cases ran
    obtain ⟨-, order⟩ := inv.rotates.order inv.own_proper
    refine ⟨created, fun member => ?_⟩
    have before := ((order _).2 second).mp member
    change [first, second].Sublist ((pickNext cpu.ctx).2.queue.heads _)
    rcases inv.rotates with ⟨queueEq, -⟩ | ⟨switched, -, queueEq⟩
    · rw [queueEq]
      exact behind before
    · rw [queueEq, priorityEq]
      by_cases isSecond : (pickNext cpu.ctx).1 = second
      · rw [isSecond]
        refine ahead_of_moved inv same ne ?_
        obtain ⟨rank, inRank⟩ := linked
        exact ⟨rank, ((order rank).2 first).mp inRank⟩
      · have rest := kept _ (fun isFirst => switched (isFirst.trans (unswitched rfl isFirst)))
          isSecond before
        rw [Buckets.heads_move]
        by_cases sameRank : prio second = prio (pickNext cpu.ctx).1
        · rw [sameRank, update_self, ← sameRank]
          exact rest.trans (sublist_append_left _ _)
        · rw [update_of_ne sameRank]
          exact rest
  | enqueue t atTail =>
    obtain ⟨fresh, ⟨⟩⟩ := ite_none_right_eq_some.mp ran
    have isOther : second ≠ t := by
      rintro rfl
      cases created.symm.trans fresh
    refine ⟨(update_of_ne isOther _ _).trans created, fun member => ?_⟩
    have before := behind (inv.mem_heads ((linked_enqueueRaw.mp ⟨_, member⟩).resolve_left isOther))
    exact before.trans (sublist_enqueueRaw ..)
  | remove t =>
    obtain ⟨-, ⟨⟩⟩ := ite_none_right_eq_some.mp ran
    refine ⟨created, fun member => ?_⟩
    have removed := inv.proper.not_linked_remove (cpu.ctx.priority t) t
    have listEq : (cpu.ctx.queue.remove (cpu.ctx.priority t) t).heads =
        (cpu.ctx.queue.erase t).heads := Buckets.heads_clearIfEmpty _ _
    rw [listEq] at member ⊢
    refine kept t ?_ ?_ (mem_of_mem_erase member)
    · rintro rfl
      exact removed linked
    · rintro rfl
      exact (inv.proper.nodup _).not_mem_erase member
  | runIdle | other =>
    cases ran
    exact ⟨created, behind⟩

theorem pickNext_running {ctx : Context Thread} (nonempty : ctx.queue.count ≠ 0)
    (switched : (pickNext ctx).1 ≠ ctx.current) :
    (pickNext ctx).2.status (pickNext ctx).1 = .running := by
  simp only [pickNext, if_neg nonempty] at switched ⊢
  split
  · rw [update_of_ne switched, update_self]
  · exact update_self ..

omit [DecidableEq Thread] in
theorem mem_of_sublist_pair {before rest : List Thread} (nodup : (before ++ second :: rest).Nodup)
    (ne : first ≠ second) (ordered : [first, second].Sublist (before ++ second :: rest)) :
    first ∈ before := by
  obtain ⟨left, right, split, inBefore, inRest⟩ := sublist_append_iff.mp ordered
  cases left with
  | cons head left =>
    obtain ⟨rfl, -⟩ := cons.inj split
    exact inBefore.subset mem_cons_self
  | nil =>
    rw [nil_append] at split
    subst split
    have absent := (nodup_cons.mp (nodup_append.mp nodup).2.1).1
    cases inRest with
    | cons _ inRest => exact absurd (inRest.subset (by simp)) absent
    | cons_cons => exact absurd rfl ne

end Steps

section Runs

variable {prio : Thread → Priority} {idle : Thread} {length : Nat}

/-- `pick_next` returns `t`, which is not the current thread. -/
def Switches (run : (roundRobin prio idle).Execution length) (i : Nat) (t : Thread) :
    Prop :=
  run.actions i = .pick ∧ (pickNext (run.states i).ctx).1 = t ∧
    t ≠ (run.states i).ctx.current

/-- The threads linked at `rank`, all of them runnable, and no thread with a
better priority is eligible. -/
structure Level (ctx : Context Thread) (rank : Priority) (threads : Finset Thread) : Prop where
  linked : ∀ t, t ∈ ctx.queue.heads rank ↔ t ∈ threads
  runnable : ∀ t ∈ threads, ctx.status t = .ready ∨
    t = ctx.current ∧ ctx.status t = .running
  best : ∀ t, ctx.Eligible t → rank ≤ ctx.priority t

/-- Between two switches to one thread there is a switch to every other of its priority that
stays linked and ready. -/
def NoOvertaking (run : (roundRobin prio idle).Execution length) : Prop :=
  ∀ first second start stop, start < stop → stop < length →
    Switches run start second → Switches run stop second → prio first = prio second →
    (∀ i, start < i → i ≤ stop → (run.states i).ctx.queue.Linked first) →
    (∀ i, start < i → i ≤ stop →
      (∀ earlier, start < earlier → earlier < i → ¬ Switches run earlier first) →
      (run.states i).ctx.status first = .ready) →
    ∃ i, start < i ∧ i < stop ∧ Switches run i first

structure RoundRobin (run : (roundRobin prio idle).Execution length) : Prop where
  overtaking : NoOvertaking run
  rotation : ∀ (count : Nat) (threads : Finset Thread) (rank : Priority) (times : Fin count → Nat),
    2 ≤ count → threads.card = count → StrictMono times → (∀ turn, times turn < length) →
    (∀ turn, ∃ t, Switches run (times turn) t) →
    (∀ turn later i t, times turn ≤ i → i ≤ times later →
      Switches run i t → ∃ between, times between = i) →
    (∀ turn later i, times turn ≤ i → i ≤ times later →
      Level (run.states i).ctx rank threads) →
    ∀ t ∈ threads, ∃! turn, Switches run (times turn) t

variable (run : (roundRobin prio idle).Execution length) {start stop : Nat}
  {first second : Thread}

theorem cpuInv_of_run {i : Nat} (bound : i ≤ length) :
    CpuInv prio idle (run.states i) := by
  refine (run.reachable i bound).invariant ?_ ?_
  · exact fun _ inv => inv
  · exact fun _ _ _ _ inv ran => inv.step ran

variable {run}

theorem Switches.states (switches : Switches run start second) (bound : start < length) :
    run.states (start + 1) = { run.states start with
      ctx := { (pickNext (run.states start).ctx).2 with current := second } } := by
  have ran := run.steps start bound
  rw [switches.1] at ran
  cases switches.2.1
  exact (some.inj ran).symm

theorem Switches.ahead (switches : Switches run start second) (bound : start < length)
    (same : prio first = prio second)
    (linked : (run.states (start + 1)).ctx.queue.Linked first)
    (ready : (run.states (start + 1)).ctx.status first = .ready) :
    first ≠ second ∧ Ahead prio first second (run.states (start + 1)) := by
  have inv := cpuInv_of_run run bound.le
  have invAfter := cpuInv_of_run run (Nat.succ_le_of_lt bound)
  have statesEq := switches.states bound
  obtain ⟨-, isSecond, switched⟩ := switches
  have rotates := inv.rotates
  obtain ⟨-, order⟩ := rotates.order inv.own_proper
  rw [statesEq] at linked ready
  have before : (run.states start).ctx.queue.Linked first := by
    obtain ⟨rank, member⟩ := linked
    exact ⟨rank, ((order rank).2 first).mp member⟩
  have ne : first ≠ second := by
    rintro rfl
    have running := pickNext_running (inv.proper.count_pos before) (by rwa [isSecond])
    rw [isSecond] at running
    cases ready.symm.trans running
  refine ⟨ne, ?_⟩
  rw [isSecond] at rotates
  rcases rotates with ⟨-, isCurrent | isIdle⟩ | ⟨-, secondLinked, queueEq⟩
  · exact absurd isCurrent switched
  · rw [inv.idleEq] at isIdle
    refine ⟨invAfter.created second (.inr isIdle), fun member => ?_⟩
    exact absurd ⟨_, isIdle ▸ member⟩ invAfter.unlinked
  · rw [inv.priorityEq] at queueEq
    refine ⟨?_, fun _ => ?_⟩
    · rw [statesEq]
      exact inv.created second (.inl secondLinked)
    · rw [statesEq]
      rw [queueEq]
      exact ahead_of_moved inv same ne before

theorem Ahead.not_switches (ahead : Ahead prio first second (run.states stop))
    (bound : stop < length) (ne : first ≠ second)
    (linked : (run.states stop).ctx.queue.Linked first)
    (ready : (run.states stop).ctx.status first = .ready) : ¬ Switches run stop second := by
  rintro ⟨-, isSecond, switched⟩
  have inv := cpuInv_of_run run bound.le
  obtain ⟨best, candidate⟩ := inv.best linked ready
  rw [isSecond] at best
  have eligible := (best.least first (.inl candidate)).1
  obtain ⟨before, rest, listEq, passed⟩ := best.first eligible fun both => switched both.1
  rw [inv.priorityEq] at listEq
  have member : second ∈ (run.states stop).ctx.queue.heads (prio second) := by
    simp [listEq]
  have ordered := ahead.2 member
  have nodup := inv.proper.nodup (prio second)
  rw [listEq] at ordered nodup
  have isBefore := mem_of_sublist_pair nodup ne ordered
  cases candidate.2.symm.trans (passed first isBefore)

theorem noOvertaking (run : (roundRobin prio idle).Execution length) : NoOvertaking run := by
  intro first second start stop after bound begins again same linked ready
  by_contra never
  have skipped : ∀ i, start < i → i < stop → ¬ Switches run i first :=
    fun i above below switches => never ⟨i, above, below, switches⟩
  obtain ⟨ne, begun⟩ := begins.ahead (by omega) same
    (linked _ (Nat.lt_succ_self start) after)
    (ready _ (Nat.lt_succ_self start) after fun _ above below => by omega)
  have ahead := run.along (Ahead prio first second) after bound.le begun
    fun i above below _ ahead ran =>
      ahead.step (cpuInv_of_run run (by omega)) same ne (linked _ (by omega) (by omega))
        (fun isPick isFirst => by_contra fun switched =>
          skipped i above below ⟨isPick, isFirst, switched⟩) ran
  exact ahead.not_switches bound ne (linked stop after le_rfl)
    (ready stop after le_rfl skipped) again

theorem current_ne (begins : Switches run start second) (bound : start < stop)
    (stopLe : stop ≤ length) (ne : first ≠ second) (notIdle : first ≠ idle)
    (skipped : ∀ i, start < i → i < stop → ¬ Switches run i first) :
    (run.states stop).ctx.current ≠ first := by
  refine run.along (fun cpu => cpu.ctx.current ≠ first) bound stopLe ?_ ?_
  · rw [begins.states (by omega)]
    exact Ne.symm ne
  · intro i above below _ notCurrent ran isFirst
    rcases step_current ran with kept | isIdle | ⟨isPick, isNext⟩
    · exact notCurrent (kept.symm.trans isFirst)
    · exact notIdle ((isFirst.symm.trans isIdle).trans (cpuInv_of_run run (by omega)).idleEq)
    · exact skipped i above below ⟨isPick, isNext.symm.trans isFirst, Ne.symm notCurrent⟩

section Level

variable {rank : Priority} {threads : Finset Thread} {i : Nat}

theorem Level.ready (level : Level (run.states i).ctx rank threads)
    (bound : i ≤ length) (member : first ∈ threads)
    (notCurrent : (run.states i).ctx.current ≠ first) :
    (run.states i).ctx.status first = .ready ∧
      (run.states i).ctx.queue.Linked first ∧ prio first = rank ∧ first ≠ idle := by
  have inv := cpuInv_of_run run bound
  have inHeads := (level.linked first).mpr member
  refine ⟨?_, ⟨rank, inHeads⟩, inv.proper.placed rank first inHeads, ?_⟩
  · exact (level.runnable first member).resolve_right fun both => notCurrent both.1.symm
  · rintro rfl
    exact inv.unlinked ⟨rank, inHeads⟩

theorem Level.mem (level : Level (run.states i).ctx rank threads) (bound : i ≤ length)
    (two : 2 ≤ threads.card) (switches : Switches run i second) : second ∈ threads := by
  have inv := cpuInv_of_run run bound
  obtain ⟨-, isSecond, switched⟩ := switches
  obtain ⟨first, member, notCurrent⟩ := Finset.exists_mem_ne two (run.states i).ctx.current
  obtain ⟨ready, linked, rankEq, -⟩ := level.ready bound member (Ne.symm notCurrent)
  obtain ⟨best, candidate⟩ := inv.best linked ready
  rw [isSecond] at best
  obtain ⟨eligible, better⟩ := best.least first (.inl candidate)
  have worse := level.best second eligible
  rw [inv.priorityEq, rankEq] at better
  rw [inv.priorityEq] at worse
  rcases eligible with candidate | ⟨isCurrent, -⟩
  · have inHeads := inv.mem_heads candidate.1
    rw [le_antisymm better worse] at inHeads
    exact (level.linked second).mp inHeads
  · exact absurd isCurrent switched

end Level

theorem round_robin (run : (roundRobin prio idle).Execution length) : RoundRobin run := by
  refine ⟨noOvertaking run, ?_⟩
  intro count threads rank times two cardEq mono bound switches consecutive level
  choose target switches using switches
  have member : ∀ turn, target turn ∈ threads := fun turn =>
    (level turn turn _ le_rfl le_rfl).mem (bound turn).le (cardEq ▸ two) (switches turn)
  have apart : ∀ turn later, turn < later → target turn ≠ target later := by
    intro turn later before same
    have between : ∀ t ∈ threads.erase (target turn),
        ∃ mid ∈ Finset.Ioo turn later, target mid = t := by
      intro t isThread
      obtain ⟨ne, isMember⟩ := Finset.mem_erase.mp isThread
      have rankOf : ∀ other ∈ threads, prio other = rank := fun other inThreads =>
        (cpuInv_of_run run (bound turn).le).proper.placed rank other
          (((level turn turn _ le_rfl le_rfl).linked other).mpr inThreads)
      have settled : ∀ i, times turn < i → i ≤ times later →
          Level (run.states i).ctx rank threads := fun i above below =>
        level turn later i above.le below
      obtain ⟨i, above, below, isSwitch⟩ := noOvertaking run t (target turn) _ _
        (mono before) (bound later) (switches turn) (same ▸ switches later)
        ((rankOf t isMember).trans (rankOf _ (member turn)).symm)
        (fun i above below => ⟨rank, ((settled i above below).linked t).mpr isMember⟩)
        (fun i above below skipped => by
          have := bound later
          have notIdle : t ≠ idle := by
            rintro rfl
            exact (cpuInv_of_run run (by omega)).unlinked
              ⟨rank, ((settled i above below).linked _).mpr isMember⟩
          exact ((settled i above below).ready (by omega) isMember
            (current_ne (switches turn) above (by omega) ne notIdle skipped)).1)
      obtain ⟨mid, rfl⟩ := consecutive turn later i t above.le below.le isSwitch
      refine ⟨mid, Finset.mem_Ioo.mpr ⟨mono.lt_iff_lt.mp above, mono.lt_iff_lt.mp below⟩, ?_⟩
      exact (switches mid).2.1.symm.trans isSwitch.2.1
    have few := Finset.card_le_card_of_surjOn target between
    rw [Finset.card_erase_of_mem (member turn), Fin.card_Ioo] at few
    omega
  have injective : Function.Injective target := by
    intro turn later same
    rcases lt_trichotomy turn later with before | isTurn | before
    · exact absurd same (apart turn later before)
    · exact isTurn
    · exact absurd same.symm (apart later turn before)
  have all : Finset.univ.image target = threads := by
    apply Finset.eq_of_subset_of_card_le
    · exact Finset.image_subset_iff.mpr fun turn _ => member turn
    · rw [Finset.card_image_of_injective _ injective, Finset.card_univ, Fintype.card_fin, cardEq]
  intro t isThread
  rw [← all] at isThread
  obtain ⟨turn, -, rfl⟩ := Finset.mem_image.mp isThread
  refine ⟨turn, switches turn, fun other isSwitch => injective ?_⟩
  exact (switches other).2.1.symm.trans isSwitch.2.1

end Runs

/-- Threads 1 and 2 are ready behind the idle thread 0. -/
def twoReady : Cpu (Fin 3) where
  ctx :=
    { queue := ((Buckets.empty.addBack 3 1).addCount.addBack 3 2).addCount
      current := 0
      idle := 0
      status := fun _ => .ready
      priority := fun _ => 3
      wakeupTicks := fun _ => 0
      ticks := fun _ => 0
      now := 0 }
  created := fun _ => true

theorem cpuInv_twoReady : CpuInv (fun _ => 3) 0 twoReady where
  priorityEq := rfl
  idleEq := rfl
  proper := by
    have empty : (Buckets.empty : RunQueue (Fin 3)).Proper fun _ => 3 := Buckets.proper_empty
    have first := empty.addBack (show ¬ Buckets.empty.Linked 1 by decide +kernel)
    exact first.addBack (show ¬ Buckets.Linked _ 2 by decide +kernel)
  unlinked := by decide +kernel
  created _ _ := rfl

def twoTurns : (roundRobin (fun _ : Fin 3 => 3) 0).Execution 2 :=
  TransitionSystem.executionOf twoReady cpuInv_twoReady [.pick, .pick] .pick rfl

theorem round_robin_twoTurns :
    ∀ t ∈ ({1, 2} : Finset (Fin 3)), ∃! turn : Fin 2, Switches twoTurns turn t := by
  have level : ∀ i < 2, Level (twoTurns.states i).ctx 3 {1, 2} := by
    intro i isTurn
    refine ⟨?_, ?_, fun t _ => ?_⟩
    · interval_cases i <;> decide +kernel
    · interval_cases i <;> decide +kernel
    · rw [(cpuInv_of_run twoTurns isTurn.le).priorityEq]
  have picks : ∀ turn : Fin 2, twoTurns.actions turn = .pick := Fin.forall_fin_two.mpr ⟨rfl, rfl⟩
  have switches : ∀ turn : Fin 2, (pickNext (twoTurns.states turn).ctx).1 ≠
      (twoTurns.states turn).ctx.current := by decide +kernel
  refine (round_robin twoTurns).rotation 2 {1, 2} 3 (fun turn => turn) le_rfl rfl
    (fun _ _ before => before) Fin.isLt ?_ ?_ fun turn later i _ isTurn => level i (by omega)
  · exact fun turn => ⟨_, picks turn, rfl, switches turn⟩
  · exact fun turn later i t _ isTurn _ => ⟨⟨i, by omega⟩, rfl⟩

end LaOS.Sched
